import ScimLdap.Search.Page
import ScimLdap.Wire.Choices

/-!
# Records — what goes over the wire

The JSON forms of list parameters, error bodies, result pages and search requests. Optional fields without a
value are left out.
-/

namespace ScimLdap

namespace Search

def Params.fieldNames : List String :=
  ["filter", "startIndex", "count", "sortBy", "sortOrder", "attributes"]

/-- The parameters that a JSON value holds. Every one of them is optional, and a number has to fit in 64 bits
    here already, though only later is it put right. -/
def Params.ofJson? (j : Json) : Option Params := do
  match ← Wire.fields? fieldNames j with
  | [filter, startIndex, count, sortBy, sortOrder, attributes] =>
    return {
      filter := ← Wire.optional Wire.text? filter
      startIndex := ← Wire.optional Wire.int64? startIndex
      count := ← Wire.optional Wire.int64? count
      sortBy := ← Wire.optional Wire.text? sortBy
      sortOrder := ← Wire.optional Wire.text? sortOrder
      attributes := ← Wire.optional Wire.text? attributes }
  | _ => none

def Params.toJson (p : Params) : Json :=
  .object
    (Wire.member "filter" .string p.filter ++
     Wire.member "startIndex" (fun n => .integer n.toInt) p.startIndex ++
     Wire.member "count" (fun n => .integer n.toInt) p.count ++
     Wire.member "sortBy" .string p.sortBy ++
     Wire.member "sortOrder" .string p.sortOrder ++
     Wire.member "attributes" .string p.attributes)

def Page.fieldNames : List String :=
  ["schemas", "totalResults", "itemsPerPage", "startIndex", "Resources"]

def Page.entries? {α : Type} (entry : Json → Option α) : Json → Option (List α)
  | .array items => items.mapM entry
  | _ => none

/-- The page that a JSON value holds, with entries of a kind that is read in its own way. -/
def Page.ofJsonOf? {α : Type} (entry : Json → Option α) (j : Json) : Option (Page α) := do
  match ← Wire.fields? fieldNames j with
  | [schemas, totalResults, itemsPerPage, startIndex, entries] =>
    return {
      schemas := ← Wire.required Wire.texts? schemas
      totalResults := ← Wire.required Wire.nat64? totalResults
      itemsPerPage := ← Wire.required Wire.nat64? itemsPerPage
      startIndex := ← Wire.required Wire.nat64? startIndex
      entries := ← Wire.required (entries? entry) entries }
  | _ => none

/-- The page that a JSON value holds. An entry may be anything that a text can hold at its level, two below that
    of the page. -/
def Page.ofJson? (j : Json) : Option (Page Json) :=
  ofJsonOf? (Wire.any? 2) j

def Page.toJson (p : Page Json) : Json :=
  .object
    [("schemas", .strings p.schemas),
     ("totalResults", .nat p.totalResults),
     ("itemsPerPage", .nat p.itemsPerPage),
     ("startIndex", .nat p.startIndex),
     ("Resources", .array p.entries)]

/-- A request in JSON. Its filter is written as the text that the directory gets and not as a tree. -/
def Request.toJson (r : Request) : Json :=
  .object
    [("baseDn", .string r.baseDn),
     ("entityType", .string r.entity.name),
     ("filter", .string r.filter.render),
     ("startIndex", .nat r.startIndex),
     ("count", .nat r.count),
     ("sortBy", .string r.sortBy),
     ("sortOrder", .string r.sortOrder.name),
     ("returnAttributes", .strings r.returnAttributes)]

end Search

namespace ErrorResponse

def fieldNames : List String :=
  ["schemas", "status", "scimType", "detail"]

def ofJson? (j : Json) : Option ErrorResponse := do
  match ← Wire.fields? fieldNames j with
  | [schemas, status, scimType, detail] =>
    return {
      schemas := ← Wire.required Wire.texts? schemas
      status := ← Wire.required Wire.text? status
      scimType := ← Wire.optional ScimType.ofJson? scimType
      detail := ← Wire.required Wire.text? detail }
  | _ => none

def toJson (r : ErrorResponse) : Json :=
  .object
    ([("schemas", .strings r.schemas), ("status", .string r.status)] ++
     Wire.member "scimType" (fun t => .string t.name) r.scimType ++
     [("detail", .string r.detail)])

end ErrorResponse

end ScimLdap
