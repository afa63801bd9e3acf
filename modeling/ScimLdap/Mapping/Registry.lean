import ScimLdap.Mapping.Table

/-!
# Registries — a table for each entity

A search service is built over the tables of some entities, at most one for each.
-/

namespace ScimLdap.Mapping

abbrev Registry := ByEntity Table

/-- The tables given; a later one for an entity takes the place of an earlier one. -/
def Registry.ofTables (tables : List Table) : Registry :=
  tables.foldl (fun r t => r.insert t.entity t) {}

end ScimLdap.Mapping
