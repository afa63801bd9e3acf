/-!
# Options — how a filter text is read

The limits are there because filter texts come from clients: a text is refused when it is too long, before
any of it is read, and when its parentheses nest too deep.
-/

namespace ScimLdap.Filter

/-- The knobs of reading. Without case-sensitive keywords any spelling of a keyword is one; the length of a text
    is in bytes of UTF-8, and the depth is that of groups and negations. -/
structure Options where
  keywordsCaseSensitive : Bool := false
  maxLength : Nat := 4096
  maxDepth : Nat := 32
  deriving DecidableEq, Repr, Inhabited

end ScimLdap.Filter
