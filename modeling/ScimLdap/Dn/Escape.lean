/-!
# Escapes in distinguished names

RFC 4514 lets a value stand in a name when the characters with a meaning of their own have a backslash in
front. Two of them count only at an end of the value: `#` at the front, and a blank at the front or at the
back. NUL is written as the backslash and two zeros.
-/

namespace ScimLdap.Dn

def isSpecial (c : Char) : Bool :=
  [',', '+', '"', '\\', '<', '>', ';', '='].contains c

/-- A character of a value as it is written, by whether it is the first and whether it is the last. A value of
    one blank is both, and is escaped once. -/
def escapeChar (first last : Bool) (c : Char) : List Char :=
  if isSpecial c || (c == '#' && first) || (c == ' ' && (first || last)) then ['\\', c]
  else if c = '\x00' then ['\\', '0', '0']
  else [c]

/-- The characters of a value as they are written. The front is told by a flag and the back by what is left, so
    one pass does for both ends. -/
def escapeChars (first : Bool) : List Char → List Char
  | [] => []
  | c :: cs => escapeChar first cs.isEmpty c ++ escapeChars false cs

def escape (value : String) : String :=
  String.ofList (escapeChars true value.toList)

example : escape " a=#1 " = "\\ a\\=#1\\ " := by decide +kernel

end ScimLdap.Dn
