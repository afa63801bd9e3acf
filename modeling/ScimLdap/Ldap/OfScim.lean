import ScimLdap.Filter.Printer
import ScimLdap.Ldap.SearchFilter
import ScimLdap.Mapping.Table

/-!
# A SCIM filter in the directory's terms

Each leaf becomes a question about the directory attribute that the table has for its path; groups vanish
and connectives stay. What the attribute's kind of value cannot express is refused and not approximated, and
the first leaf that is refused, from the left, is the one that is reported:

* a two-valued attribute can only be equal to one of its words or not;
* a number has no parts, and is no truth value;
* a truth value or `null` has no order and no parts.
-/

namespace ScimLdap.Ldap

/-- Why a comparison cannot be expressed. The way through a table knows six reasons; whoever else answers for an
    entity may have one of its own and brings the words for it. -/
inductive Refusal where
  | nullOperator
  | booleanExpected
  | booleanAttributeOperator
  | numberExpected
  | numberSubstring
  | booleanLiteralOperator
  | other (reason : String)
  deriving DecidableEq, Repr, Inhabited

def Refusal.reason : Refusal → String
  | nullOperator => "null only supports eq and ne"
  | booleanExpected => "attribute expects a boolean"
  | booleanAttributeOperator => "boolean attributes only support eq and ne"
  | numberExpected => "attribute expects a number"
  | numberSubstring => "numeric attributes do not support substring matching"
  | booleanLiteralOperator => "boolean values only support eq and ne"
  | other reason => reason

structure UnsupportedComparison where
  path : AttrPath
  op : CompareOp
  value : Literal
  refusal : Refusal
  deriving DecidableEq, Repr, Inhabited

namespace UnsupportedComparison

def message (u : UnsupportedComparison) : String :=
  "Unsupported comparison '" ++ u.path.render ++ " " ++ u.op.keyword ++ " " ++ u.value.render ++ "': " ++
    u.refusal.reason

end UnsupportedComparison

/-- Why a leaf of a filter has no counterpart in the directory. Either way the leaf is named in the client's
    terms, and not by the attribute of the directory. -/
inductive LeafError where
  | unmapped (e : UnmappedAttribute)
  | unsupported (e : UnsupportedComparison)
  deriving DecidableEq, Repr, Inhabited

/-- The truth value that a literal stands for on a two-valued attribute. The word may be quoted, in any case of
    its letters, since clients send it in both ways. -/
def truthValue? : Literal → Option Bool
  | .bool b => some b
  | .string s =>
    if Text.sameFold s "true" then some true
    else if Text.sameFold s "false" then some false
    else none
  | _ => none

/-- The value that a comparison with a literal other than `null` asks for. On a two-valued attribute the literal
    is looked at before the operator, so a literal that is no truth value is refused as such, also with an
    operator that the attribute would refuse. -/
def valueOf (kind : ValueKind) (op : CompareOp) (literal : Literal) : Except Refusal Value :=
  match kind, literal with
  | .boolean trueValue falseValue, _ =>
    match truthValue? literal with
    | none => .error .booleanExpected
    | some b =>
      if op.isEquality then .ok (.text (if b then trueValue else falseValue))
      else .error .booleanAttributeOperator
  | .number, .bool _ => .error .numberExpected
  | .string, .bool b =>
    if op.isEquality then .ok (.text (if b then "TRUE" else "FALSE")) else .error .booleanLiteralOperator
  | .number, .number lexeme => if op.isSubstring then .error .numberSubstring else .ok (.numeral lexeme)
  | .number, .string s => if op.isSubstring then .error .numberSubstring else .ok (.text s)
  | .string, .number lexeme => .ok (.numeral lexeme)
  | .string, .string s => .ok (.text s)
  | _, .null => .error .nullOperator

namespace SearchFilter

def ofOperator (name : String) (value : Value) : CompareOp → SearchFilter
  | .eq => equal name value
  | .ne => not (equal name value)
  | .co => holding name .any value
  | .sw => holding name .initial value
  | .ew => holding name .final value
  | .ge => atLeast name value
  | .le => atMost name value
  | .gt => greater name value
  | .lt => less name value

/-- The question that a comparison asks. An attribute is equal to `null` when it has no value, whatever its
    kind. -/
def ofComparison (m : Mapping) (op : CompareOp) (literal : Literal) : Except Refusal SearchFilter :=
  match literal, op with
  | .null, .eq => .ok (not (present m.name))
  | .null, .ne => .ok (present m.name)
  | .null, _ => .error .nullOperator
  | _, _ => (valueOf m.kind op literal).map (fun v => ofOperator m.name v op)

/-- Filters under a connective. One alone stands for itself under `and` and `or`; a negation of several negates
    that all of them hold. -/
def ofConnective : Connective → List SearchFilter → SearchFilter
  | .and, [f] => f
  | .or, [f] => f
  | .not, [f] => not f
  | .and, fs => and fs
  | .or, fs => or fs
  | .not, fs => not (and fs)

mutual

/-- A filter in the directory's terms, through the table of its entity. Leaves are asked from left to right, and
    the first that fails ends the walk. -/
def ofScim (t : Mapping.Table) : Filter → Except LeafError SearchFilter
  | .compare path op literal =>
    match t.resolve path with
    | .error e => .error (.unmapped e)
    | .ok m => (ofComparison m op literal).mapError (fun r => .unsupported ⟨path, op, literal, r⟩)
  | .present path =>
    match t.resolve path with
    | .error e => .error (.unmapped e)
    | .ok m => .ok (present m.name)
  | .group inner => ofScim t inner
  | .logical connective operands => (ofScimAll t operands).map (ofConnective connective)

def ofScimAll (t : Mapping.Table) : List Filter → Except LeafError (List SearchFilter)
  | [] => .ok []
  | f :: fs =>
    match ofScim t f with
    | .error e => .error e
    | .ok g => (ofScimAll t fs).map (g :: ·)

end

end SearchFilter

end ScimLdap.Ldap
