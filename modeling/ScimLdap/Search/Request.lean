import ScimLdap.Search.Order
import ScimLdap.Search.Paging
import ScimLdap.Service

/-!
# Search requests

List parameters, put right, make one bounded and sorted search. The filter is looked at before the sort
attribute, so of two errors the filter's is reported. Only the sort attributes of users go through a table;
the other kinds are sorted by the name as it is given.
-/

namespace ScimLdap.Search

structure Request where
  baseDn : String
  entity : Entity
  filter : Ldap.SearchFilter
  startIndex : Nat
  count : Nat
  sortBy : String
  sortOrder : SortOrder
  returnAttributes : List String
  deriving Repr, Inhabited

/-- What it takes to build requests: the service, which turns filters and names into those of the directory, and
    the bounds of a page. -/
structure Builder where
  filters : FilterService
  paging : Paging := {}

namespace Builder

/-- The directory attribute to sort by. An absent or blank parameter asks for the default, which goes through
    the table of users like a name that a client gave. -/
def sortAttribute (b : Builder) (entity : Entity) (sortBy : Option String) : Except Error String :=
  let name := ((Text.nonBlank? sortBy).map Text.trim).getD b.paging.defaultSortBy
  match entity with
  | .user =>
    match b.filters.mappings.get? .user with
    | none => .error (.unregistered .user)
    | some table => ((table.resolveName name).mapError .unmapped).map (·.name)
  | _ => .ok name

/-- The request that parameters ask for, with the attributes to return given apart. The filter is looked at
    first, so its error is the one that is told. -/
def request (b : Builder) (baseDn : String) (entity : Entity) (params : Params)
    (returnAttributes : List String) : Except Error Request := do
  let filter ← b.filters.searchFilter params.filter entity
  let sortBy ← b.sortAttribute entity params.sortBy
  return {
    baseDn
    entity
    filter
    startIndex := startIndex params.startIndex
    count := b.paging.count params.count
    sortBy
    sortOrder := .ofValue params.sortOrder
    returnAttributes }

def requestOfParams (b : Builder) (baseDn : String) (entity : Entity) (params : Params) :
    Except Error Request :=
  b.request baseDn entity params params.returnAttributes

end Builder

end ScimLdap.Search
