import ScimLdap.Filter.Basic
import ScimLdap.Filter.Options
import ScimLdap.Filter.SyntaxError
import ScimLdap.Text.Caseless

/-!
# Tokens — the words of a filter

A token has a kind, the text it was written as and the position of that text. The kind of a literal holds
its value: a string decoded, a number as written. Names hold no value, as their text is their name.
-/

namespace ScimLdap.Filter

/-- What a token is. A literal holds its value; a name does not, because the text of the token is the name. -/
inductive TokenKind where
  | name
  | colon
  | dot
  | openParen
  | closeParen
  | compareOp (op : CompareOp)
  | present
  | and
  | or
  | not
  | string (value : String)
  | number (lexeme : String)
  | bool (value : Bool)
  | null
  | eof
  deriving DecidableEq, Repr, Inhabited

namespace TokenKind

/-- What a word is: the keyword it spells, else a name. The word is looked for as it stands. -/
def ofKeyword (word : String) : TokenKind :=
  if word = "and" then .and
  else if word = "or" then .or
  else if word = "not" then .not
  else if word = "pr" then .present
  else if word = "true" then .bool true
  else if word = "false" then .bool false
  else if word = "null" then .null
  else match CompareOp.ofKeyword? word with
    | some op => .compareOp op
    | none => .name

/-- What a word is under the options: keywords are known in any case unless they are case-sensitive. A name
    keeps its case either way. -/
def ofWord (options : Options) (word : String) : TokenKind :=
  ofKeyword (if options.keywordsCaseSensitive then word else Text.foldCase word)

def literal? : TokenKind → Option Literal
  | .string value => some (.string value)
  | .number lexeme => some (.number lexeme)
  | .bool value => some (.bool value)
  | .null => some .null
  | _ => none

end TokenKind

structure Token where
  kind : TokenKind
  text : String
  position : Nat
  deriving DecidableEq, Repr, Inhabited

namespace Token

def isEof (t : Token) : Bool :=
  t.kind == .eof

def render (t : Token) : String :=
  if t.isEof then "end of input" else "'" ++ t.text ++ "'"

/-- A fault met at this token. At the end of the text nothing is found. -/
def error (t : Token) (fault : Fault) : SyntaxError :=
  ⟨fault, t.position, if t.isEof then none else some t.text⟩

end Token

end ScimLdap.Filter
