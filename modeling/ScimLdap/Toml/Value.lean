import ScimLdap.Toml.Moment

/-!
# TOML values

The values of a document. A whole number is kept as the number it is. No setting takes another one, so a
number with a fraction, an infinite one, or one whose digits are not those of its base is kept as it is
written: it stands where a value may stand, and nothing is made of it.
-/

namespace ScimLdap.Toml

/-- A value of a TOML document. The keys of a table differ. -/
inductive Value where
  | string (value : String)
  | integer (value : Int)
  | numeral (written : String)
  | boolean (value : Bool)
  | moment (value : Moment)
  | array (items : List Value)
  | table (entries : List (String × Value))
  deriving Repr, Inhabited

abbrev Entries := List (String × Value)

end ScimLdap.Toml
