import ScimLdap.Text.Printable

/-!
# Quoted texts

A value that may hold anything is shown between double quotes, so that its ends can be seen. Inside, a
quote or a backslash is written after a backslash, four control characters have a letter, and every other
character that a reader could not see is written as its code.
-/

namespace ScimLdap.Text

/-- The code of a character as an escape: its hexadecimal digits in braces, as many as it has. -/
def codeEscape (c : Char) : List Char :=
  "\\u\x7b".toList ++ Nat.toDigits 16 c.toNat ++ "\x7d".toList

def quotedChar (c : Char) : List Char :=
  match c with
  | '\x00' => ['\\', '0']
  | '\t' => ['\\', 't']
  | '\r' => ['\\', 'r']
  | '\n' => ['\\', 'n']
  | '\\' => ['\\', '\\']
  | '"' => ['\\', '"']
  | c => if isPrintable c then [c] else codeEscape c

def quoted (s : String) : String :=
  "\"" ++ String.ofList (s.toList.flatMap quotedChar) ++ "\""

example : quoted "a\"b\né'" = "\"a\\\"b\\né'\"" := by decide +kernel

example : quoted "\x7f\u200d" = "\"\\u\x7b7f\x7d\\u\x7b200d\x7d\"" := by decide +kernel

end ScimLdap.Text
