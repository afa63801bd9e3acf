import ScimLdap.Ldap.OfScim
import ScimLdap.Mapping.Registry

/-!
# Visitors — who answers the filters of an entity

The usual visitor goes through the table of its entity. Any other may take its place for one entity, and
then it answers alone: the tables are not asked.
-/

namespace ScimLdap.Ldap

/-- A way to answer the filters of an entity: a filter that every entry of the kind meets, and what becomes of a
    filter in the directory's terms. A visitor need not know of tables. It may refuse any leaf, as one without a
    mapping or as a comparison that it cannot express, for one of the reasons of a table or in its own words. -/
structure Visitor where
  entity : Entity
  matchAll : SearchFilter
  visit : Filter → Except LeafError SearchFilter

namespace Visitor

/-- The way through a table. Every entry of the kind meets the presence of the attribute that all of them
    have. -/
def ofTable (t : Mapping.Table) : Visitor :=
  ⟨t.entity, .present t.matchAllAttribute, SearchFilter.ofScim t⟩

abbrev Registry := ByEntity Visitor

namespace Registry

/-- The registry with a visitor for its entity, in place of what was there. The visitor says which entity it
    answers for, so it cannot be put in the wrong place. -/
def register (r : Registry) (v : Visitor) : Registry :=
  r.insert v.entity v

def ofTables (tables : Mapping.Registry) : Registry :=
  tables.map ofTable

def render (r : Registry) : String :=
  let names := (r.entities.map Entity.name).mergeSort (fun a b => decide (a ≤ b))
  "VisitorRegistry \x7b entity_types: [" ++
    String.intercalate ", " (names.map (fun n => "\"" ++ n ++ "\"")) ++ "] \x7d"

end Registry

end Visitor

end ScimLdap.Ldap
