import ScimLdap.Text.Split

/-!
# List parameters

What a client sends with a list request, as it was received. The numbers are signed, so that a page that
starts at `-5` is a parameter like any other and is put right later, where the request is built.
-/

namespace ScimLdap.Search

structure Params where
  filter : Option String := none
  startIndex : Option Int64 := none
  count : Option Int64 := none
  sortBy : Option String := none
  sortOrder : Option String := none
  attributes : Option String := none
  deriving DecidableEq, Repr, Inhabited

/-- The attributes to return: the items of the comma-separated list, blank ones left out. No list and a list of
    nothing are the same here. -/
def Params.returnAttributes (p : Params) : List String :=
  Text.commaList (p.attributes.getD "")

end ScimLdap.Search
