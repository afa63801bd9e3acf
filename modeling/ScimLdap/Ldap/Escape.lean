/-!
# Escapes in search filters

RFC 4515 writes five characters of a value as a backslash and the two hexadecimal digits of their octet:
those that have a meaning of their own in a filter, and NUL. Every other character stands for itself.
-/

namespace ScimLdap.Ldap

/-- A character of a value as it is written in a search filter. Everything is escaped that could end the value
    or be taken for a wildcard, so no value can reach beyond its own place in the filter. -/
def escapeChar (c : Char) : List Char :=
  match c with
  | '*' => ['\\', '2', 'a']
  | '(' => ['\\', '2', '8']
  | ')' => ['\\', '2', '9']
  | '\\' => ['\\', '5', 'c']
  | '\x00' => ['\\', '0', '0']
  | c => [c]

def escape (value : String) : String :=
  String.ofList (value.toList.flatMap escapeChar)

example : escape "a*(b)\\" = "a\\2a\\28b\\29\\5c" := by decide +kernel

end ScimLdap.Ldap
