import ScimLdap.Error
import ScimLdap.Filter.Parser
import ScimLdap.Ldap.Visitor
import ScimLdap.Mapping.Builtin
import ScimLdap.Text.Blank

/-!
# The filter service

A service answers filter texts, entity by entity. It is a value: a copy of it goes its own way, and putting
another visitor into one leaves the other as it was. The tables stay what they were at the start, whichever
visitors come later, because sorting asks the tables.
-/

namespace ScimLdap

/-- What it takes to answer filter texts. The tables stand beside the visitors that were made of them because
    sorting asks the tables, also for an entity with a visitor of another kind. -/
structure FilterService where
  options : Filter.Options
  mappings : Mapping.Registry
  visitors : Ldap.Visitor.Registry

namespace FilterService

def ofMappings (options : Filter.Options) (mappings : Mapping.Registry) : FilterService :=
  ⟨options, mappings, .ofTables mappings⟩

def register (s : FilterService) (v : Ldap.Visitor) : FilterService :=
  { s with visitors := s.visitors.register v }

def visitor (s : FilterService) (entity : Entity) : Except Error Ldap.Visitor :=
  match s.visitors.get? entity with
  | some v => .ok v
  | none => .error (.unregistered entity)

def parse (s : FilterService) (text : String) : Except Filter.SyntaxError Filter :=
  Filter.parse s.options text

def matchAll (s : FilterService) (entity : Entity) : Except Error Ldap.SearchFilter :=
  (s.visitor entity).map (·.matchAll)

/-- A filter text in the directory's terms. Without a visitor nothing is read, and an absent or blank text asks
    for every entry. -/
def searchFilter (s : FilterService) (text : Option String) (entity : Entity) :
    Except Error Ldap.SearchFilter := do
  let v ← s.visitor entity
  match Text.nonBlank? text with
  | none => .ok v.matchAll
  | some input =>
    let f ← (s.parse input).mapError .malformed
    (v.visit f).mapError .ofLeaf

end FilterService

end ScimLdap
