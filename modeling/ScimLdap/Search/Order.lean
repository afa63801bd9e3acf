import ScimLdap.Text.Blank
import ScimLdap.Text.Caseless

/-!
# Sort orders

Everything that does not ask for the descending order asks for the ascending one.
-/

namespace ScimLdap.Search

inductive SortOrder where
  | ascending
  | descending
  deriving DecidableEq, Repr, Inhabited

namespace SortOrder

def name : SortOrder → String
  | ascending => "ascending"
  | descending => "descending"

/-- The order that a parameter asks for. The word may have blanks around it and any case of its letters; every
    other text counts as none. -/
def ofValue : Option String → SortOrder
  | some v => if Text.sameFold (Text.trim v) "descending" then descending else ascending
  | none => ascending

end SortOrder

end ScimLdap.Search
