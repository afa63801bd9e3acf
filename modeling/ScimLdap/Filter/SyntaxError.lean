/-!
# Syntax errors — why a filter text is refused, and where

A fault is the cause; its wording is one function, `Fault.message`. An error is a fault with the position
at which it was met, in bytes from the start, and the lexeme that was found there. Nothing was found when
the text ended too early, and also where a lexeme as a whole could not be read.
-/

namespace ScimLdap.Filter

/-- The ways in which a text fails to be a filter. The last is for a caller that reports a fault in words of its
    own. -/
inductive Fault where
  | tooLong (bytes limit : Nat)
  | unexpectedCharacter (c : Char)
  | unterminatedString
  | invalidEscape
  | numberOutOfRange (lexeme : String)
  | invalidNumber (lexeme : String)
  | expectedOpenAfterNot
  | expectedCloseOfNot
  | expectedCloseOfGroup
  | expectedAttribute
  | expectedSubAttribute
  | expectedOperator
  | expectedValue
  | unexpectedInput
  | tooDeep (limit : Nat)
  | unterminatedStream
  | unparsed
  | reported (message : String)
  deriving DecidableEq, Repr, Inhabited

def Fault.message : Fault → String
  | tooLong bytes limit =>
    "Filter exceeds maximum length (" ++ toString bytes ++ " bytes, max " ++ toString limit ++ ")"
  | unexpectedCharacter c => "Unexpected character '" ++ String.singleton c ++ "'"
  | unterminatedString => "Unterminated string"
  | invalidEscape => "Invalid escape sequence"
  | numberOutOfRange lexeme => "Number out of range: '" ++ lexeme ++ "'"
  | invalidNumber lexeme => "Invalid number: '" ++ lexeme ++ "'"
  | expectedOpenAfterNot => "Expected '(' after 'not'"
  | expectedCloseOfNot => "Expected ')' to close 'not' expression"
  | expectedCloseOfGroup => "Expected ')' to close grouped expression"
  | expectedAttribute => "Expected attribute name"
  | expectedSubAttribute => "Expected sub-attribute name"
  | expectedOperator => "Expected comparison operator or 'pr'"
  | expectedValue => "Expected value (string, boolean, number, or null)"
  | unexpectedInput => "Unexpected input after filter"
  | tooDeep limit => "Filter exceeds maximum nesting depth (" ++ toString limit ++ ")"
  | unterminatedStream => "Token stream is not terminated"
  | unparsed => "Filter could not be parsed"
  | reported message => message

/-- A fault and where it was met: the position in bytes, and the lexeme that stands there, if one does. -/
structure SyntaxError where
  fault : Fault
  position : Nat
  found : Option String := none
  deriving DecidableEq, Repr, Inhabited

namespace SyntaxError

def message (e : SyntaxError) : String :=
  e.fault.message

def atEndOfInput (e : SyntaxError) : Bool :=
  e.found.isNone

def render (e : SyntaxError) : String :=
  let place := e.message ++ " at position " ++ toString e.position
  match e.found with
  | none => place
  | some found => place ++ " (found '" ++ found ++ "')"

end SyntaxError

end ScimLdap.Filter
