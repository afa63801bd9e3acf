/-!
# Mappings — where an attribute lives in the directory

A mapping names a directory attribute and says how its values are written there. The kind of value decides
which comparisons make sense: a two-valued attribute holds one of two words that the directory chose, so it
can be equal to one of them or not, and nothing else can be asked of it.
-/

namespace ScimLdap

/-- How values of a directory attribute are written: as free text, as one of two words, or as numbers. -/
inductive ValueKind where
  | string
  | boolean (trueValue falseValue : String)
  | number
  deriving DecidableEq, Repr, Inhabited

structure Mapping where
  name : String
  kind : ValueKind := .string
  deriving DecidableEq, Repr, Inhabited

end ScimLdap
