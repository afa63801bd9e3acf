import ScimLdap.Filter.Basic

/-!
# The canonical text of a filter

Every filter has one text: paths in colon form, one blank between words, strings quoted with escapes for
the quote and the backslash alone. Precedence is the grammar's, so the only parentheses that are no node of
the tree stand around an `or` that is an operand of an `and`, which reading never yields.
-/

namespace ScimLdap

/-- The characters of a string literal between its quotes. Only the two characters that could end the literal or
    begin an escape are escaped; line ends and tabs stand as they are. -/
def Literal.escapeChars : List Char → List Char
  | [] => []
  | c :: cs =>
    if c = '\\' ∨ c = '"' then '\\' :: c :: escapeChars cs else c :: escapeChars cs

def Literal.render : Literal → String
  | .string value => "\"" ++ String.ofList (escapeChars value.toList) ++ "\""
  | .number lexeme => lexeme
  | .bool true => "true"
  | .bool false => "false"
  | .null => "null"

namespace Filter

/-- Whether a filter is an `or`, which binds less than `and`. -/
def isDisjunction : Filter → Bool
  | .logical .or _ => true
  | _ => false

mutual

/-- The canonical text of a filter. Its keywords are written small, which is the one spelling that is known
    under all options. -/
def render : Filter → String
  | .compare path op value => path.render ++ " " ++ op.keyword ++ " " ++ value.render
  | .present path => path.render ++ " pr"
  | .group inner => "(" ++ render inner ++ ")"
  | .logical .not operands => "not (" ++ String.join (renderAll .not operands) ++ ")"
  | .logical connective operands =>
    String.intercalate (" " ++ connective.keyword ++ " ") (renderAll connective operands)

def renderAll (connective : Connective) : List Filter → List String
  | [] => []
  | f :: fs =>
    (if connective = .and ∧ isDisjunction f = true then "(" ++ render f ++ ")" else render f) ::
      renderAll connective fs

end

end Filter

end ScimLdap
