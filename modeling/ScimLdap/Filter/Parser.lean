import ScimLdap.Filter.Lexer

/-!
# The parser — tokens as a tree

The grammar, with `or` binding least and `not` most:

    filter      = conjunction { "or" conjunction }
    conjunction = operand { "and" operand }
    operand     = "not" "(" filter ")" | "(" filter ")" | question
    question    = path "pr" | path operator literal
    path        = NAME [ (":" | ".") NAME ]

Reading is a machine that takes one token at a time. Its state holds the operands read so far, for the
innermost open parenthesis and for each one around it, and the place of the grammar where it stands. Each
place admits some tokens and names the fault of every other, so a text is given up at the first token that
no filter could have there, and the machine needs no bound on its run but the tokens themselves.
-/

namespace ScimLdap.Filter

/-- The operands of an expression that is being read, latest first: those of the conjunction at hand, and the
    conjunctions that an `or` has ended. Two lists are enough because the grammar has two levels of binding. -/
structure Operands where
  conjunctions : List Filter := []
  current : List Filter := []
  deriving DecidableEq, Repr, Inhabited

namespace Operands

def push (f : Filter) (os : Operands) : Operands :=
  { os with current := f :: os.current }

def endConjunction (os : Operands) : Operands :=
  { conjunctions := combine .and os.current.reverse :: os.conjunctions, current := [] }

/-- The expression, when it ends here. A level with one operand leaves no node of its own. -/
def toFilter (os : Operands) : Filter :=
  combine .or os.endConjunction.conjunctions.reverse

end Operands

/-- What an open parenthesis belongs to. The two differ in the node that they make and in the complaint when the
    parenthesis is not closed. -/
inductive Opening where
  | group
  | negation
  deriving DecidableEq, Repr, Inhabited

namespace Opening

def close : Opening → Filter → Filter
  | .group, f => .group f
  | .negation, f => .logical .not [f]

def unclosed : Opening → Fault
  | .group => .expectedCloseOfGroup
  | .negation => .expectedCloseOfNot

end Opening

structure Scope where
  opening : Opening
  outer : Operands
  deriving DecidableEq, Repr, Inhabited

/-- The place of the grammar at which the next token stands: before an operand, after `not`, at one of the steps
    of a comparison, or after an operand, at the joint to what may follow. A place holds what has been read of
    the leaf at hand. -/
inductive Place where
  | operand
  | negated
  | name (attr : String)
  | separator (attr : String)
  | path (p : AttrPath)
  | operator (p : AttrPath) (op : CompareOp)
  | joint
  deriving DecidableEq, Repr, Inhabited

/-- How far reading has come. The innermost scope comes first, and the operands are those of the expression
    inside it. -/
structure State where
  scopes : List Scope := []
  operands : Operands := {}
  place : Place := .operand
  deriving DecidableEq, Repr, Inhabited

namespace State

def moveTo (s : State) (place : Place) : State :=
  { s with place }

def push (s : State) (f : Filter) : State :=
  { s with operands := s.operands.push f, place := .joint }

def enter (s : State) (opening : Opening) : State :=
  { scopes := ⟨opening, s.operands⟩ :: s.scopes, operands := {}, place := .operand }

def afterPath? (s : State) (p : AttrPath) : TokenKind → Option State
  | .present => some (s.push (.present p))
  | .compareOp op => some (s.moveTo (.operator p op))
  | _ => none

def afterOperand? (s : State) : TokenKind → Option State
  | .and => some (s.moveTo .operand)
  | .or => some { s with operands := s.operands.endConjunction, place := .operand }
  | .closeParen =>
    match s.scopes with
    | [] => none
    | scope :: scopes => some
        { scopes, operands := scope.outer.push (scope.opening.close s.operands.toFilter), place := .joint }
  | _ => none

/-- The state after a token, if the place admits it. This is the grammar: whether the token is the right one
    depends on the place, and at a joint also on whether a parenthesis is open. -/
def next? (s : State) (t : Token) : Option State :=
  match s.place with
  | .operand =>
    match t.kind with
    | .not => some (s.moveTo .negated)
    | .openParen => some (s.enter .group)
    | .name => some (s.moveTo (.name t.text))
    | _ => none
  | .negated => if t.kind = .openParen then some (s.enter .negation) else none
  | .name attr =>
    if t.kind = .colon ∨ t.kind = .dot then some (s.moveTo (.separator attr))
    else s.afterPath? ⟨attr, none⟩ t.kind
  | .separator attr => if t.kind = .name then some (s.moveTo (.path ⟨attr, some t.text⟩)) else none
  | .path p => s.afterPath? p t.kind
  | .operator p op => t.kind.literal?.map (fun v => s.push (.compare p op v))
  | .joint => s.afterOperand? t.kind

def fault (s : State) : Fault :=
  match s.place with
  | .operand => .expectedAttribute
  | .negated => .expectedOpenAfterNot
  | .name _ => .expectedOperator
  | .separator _ => .expectedSubAttribute
  | .path _ => .expectedOperator
  | .operator _ _ => .expectedValue
  | .joint =>
    match s.scopes with
    | [] => .unexpectedInput
    | scope :: _ => scope.opening.unclosed

/-- Whether more parentheses are open than may be. This shows at the token after the one too many, so that it is
    the token that is complained of. -/
def tooDeep (maxDepth : Nat) (s : State) : Bool :=
  s.place == .operand && maxDepth < s.scopes.length

/-- The state after one more token, or the fault met at it. The depth comes first: beyond it not even a token
    that the place admits is read. -/
def step (maxDepth : Nat) (s : State) (t : Token) : Except SyntaxError State :=
  if s.tooDeep maxDepth then .error (t.error (.tooDeep maxDepth))
  else match s.next? t with
    | some s' => .ok s'
    | none => .error (t.error s.fault)

def finished? (s : State) : Option Filter :=
  match s.place, s.scopes with
  | .joint, [] => some s.operands.toFilter
  | _, _ => none

/-- Reads on until the first token that marks the end where the filter may end. What stands behind that token is
    not looked at. -/
def run (maxDepth : Nat) (s : State) : List Token → Except SyntaxError Filter
  | [] => .error ⟨.unterminatedStream, 0, none⟩
  | t :: ts =>
    match if t.isEof then s.finished? else none with
    | some f => .ok f
    | none => (s.step maxDepth t).bind (fun s' => run maxDepth s' ts)

end State

/-- The filter that a list of tokens spells. The list has to end with the token that marks the end; this is
    looked at before anything is read, so a list without it is refused whatever it spells. -/
def parseTokens (options : Options) (tokens : List Token) : Except SyntaxError Filter :=
  match tokens.getLast? with
  | none => .error ⟨.unterminatedStream, 0, none⟩
  | some last =>
    if last.isEof then State.run options.maxDepth {} tokens
    else .error ⟨.unterminatedStream, last.position, none⟩

def parse (options : Options) (text : String) : Except SyntaxError Filter :=
  (tokenize options text).bind (parseTokens options)

end ScimLdap.Filter
