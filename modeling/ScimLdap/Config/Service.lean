import ScimLdap.Config.Basic
import ScimLdap.Dn.Layout
import ScimLdap.Log.Directive
import ScimLdap.Search.Request

/-!
# What a configuration sets up

The options of filters, the tables with the configured mappings laid over the built-in ones, the builder of
requests, the layout of the directory, and which events are told.
-/

namespace ScimLdap.Config

def options (c : Config) : Filter.Options :=
  ⟨c.filter.keywordsCaseSensitive, c.filter.maxLength, c.filter.maxDepth⟩

/-- The mapping that an entry configures. A two-valued attribute without words of its own holds `true` and
    `false`, each word on its own; other kinds have no words, whatever the entry gives. -/
def Entry.toMapping : Entry → Mapping
  | plain name => ⟨Text.trim name, .string⟩
  | detailed name .string _ _ => ⟨Text.trim name, .string⟩
  | detailed name .number _ _ => ⟨Text.trim name, .number⟩
  | detailed name .boolean trueValue falseValue =>
    ⟨Text.trim name, .boolean (trueValue.getD "true") (falseValue.getD "false")⟩

/-- The table of an entity: the built-in one, with the configured mappings put in on top in the order of their
    keys. A key that is read as the name of a built-in mapping takes its place; of two keys that are read alike
    the later one counts. -/
def table (c : Config) (entity : Entity) : Mapping.Table :=
  (Mapping.Table.builtin entity c.filter.attributesCaseSensitive).insertAll
    ((c.mappings.of entity).toList.map (fun e => (Text.trim e.1, e.2.toMapping)))

def registry (c : Config) : Mapping.Registry :=
  .ofTables (Entity.all.map c.table)

def service (c : Config) : FilterService :=
  .ofMappings c.options c.registry

def builder (c : Config) : Search.Builder :=
  ⟨c.service, c.paging⟩

def layout (c : Config) : Dn.Layout :=
  ⟨Text.trim c.directory.baseDn⟩

/-- The directives for log events: those that the environment gives, or else the configured ones, which come
    after the configured level and so weigh more. Where one of them cannot be read, the level stands alone. -/
def Logging.directives (l : Logging) (fromEnvironment : Option String) : List Log.Directive :=
  let text := fromEnvironment.or (l.filter.map (fun more => l.level.name ++ "," ++ more))
  (text.bind Log.directives?).getD [⟨some l.level, "", none, false⟩]

end ScimLdap.Config
