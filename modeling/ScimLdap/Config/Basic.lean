import ScimLdap.Entity
import ScimLdap.Filter.Options
import ScimLdap.Log.Event
import ScimLdap.Search.Paging
import ScimLdap.Text.Dictionary

/-!
# The configuration

What an installation can set. Every section may be left out, and so may every setting in it, apart from the
directory attribute of a mapping that is written as a table.
-/

namespace ScimLdap

namespace Config

structure Directory where
  baseDn : String := "o=gluu"
  deriving DecidableEq, Repr, Inhabited

/-- How filters and attribute names are read. The two bounds keep a client from sending a filter that is
    expensive to read: on its length in bytes, and on how deep its parentheses and negations nest. -/
structure Filters where
  keywordsCaseSensitive : Bool := false
  attributesCaseSensitive : Bool := false
  maxLength : Nat := 4096
  maxDepth : Nat := 32
  deriving DecidableEq, Repr, Inhabited

inductive KindName where
  | string
  | number
  | boolean
  deriving DecidableEq, Repr, Inhabited

def KindName.name : KindName → String
  | string => "string"
  | number => "number"
  | boolean => "boolean"

/-- A mapping as it is configured: a directory attribute alone, or one with the kind of its values. The words
    for the two truth values may be given with any kind here; that only a two-valued attribute has them is
    checked later, so that the complaint can name the mapping. -/
inductive Entry where
  | plain (name : String)
  | detailed (name : String) (kind : KindName) (trueValue falseValue : Option String)
  deriving DecidableEq, Repr, Inhabited

def Entry.name : Entry → String
  | plain name => name
  | detailed name _ _ _ => name

structure Mappings where
  user : Text.Dictionary Entry := {}
  group : Text.Dictionary Entry := {}
  fidoDevice : Text.Dictionary Entry := {}

def Mappings.of (m : Mappings) : Entity → Text.Dictionary Entry
  | .user => m.user
  | .group => m.group
  | .fidoDevice => m.fidoDevice

structure Logging where
  level : Log.Level := .info
  format : Log.Format := .compact
  timestamps : Bool := true
  fileLine : Bool := false
  filter : Option String := none
  deriving DecidableEq, Repr, Inhabited

end Config

structure Config where
  directory : Config.Directory := {}
  filter : Config.Filters := {}
  paging : Search.Paging := {}
  mappings : Config.Mappings := {}
  logging : Config.Logging := {}

namespace Config

def Entry.toJson : Entry → Json
  | plain name => .string name
  | detailed name kind trueValue falseValue => .object
      [("attribute", .string name), ("syntax", .string kind.name),
       ("true_value", .ofText? trueValue), ("false_value", .ofText? falseValue)]

def entriesToJson (entries : Text.Dictionary Entry) : Json :=
  .object (entries.toList.map (fun e => (e.1, e.2.toJson)))

/-- A configuration in JSON, with every setting written out, so that what is shown is what holds and not only
    what was set. -/
def toJson (c : Config) : Json :=
  .object
    [("directory", .object [("base_dn", .string c.directory.baseDn)]),
     ("filter", .object
       [("keywords_case_sensitive", .bool c.filter.keywordsCaseSensitive),
        ("attributes_case_sensitive", .bool c.filter.attributesCaseSensitive),
        ("max_length", .nat c.filter.maxLength),
        ("max_depth", .nat c.filter.maxDepth)]),
     ("paging", .object
       [("default_count", .nat c.paging.defaultCount),
        ("max_count", .nat c.paging.maxCount),
        ("default_sort_by", .string c.paging.defaultSortBy)]),
     ("mappings", .object
       [("user", entriesToJson c.mappings.user),
        ("group", entriesToJson c.mappings.group),
        ("fido_device", entriesToJson c.mappings.fidoDevice)]),
     ("observability", .object
       [("logging", .object
         [("level", .string c.logging.level.name),
          ("format", .string c.logging.format.name),
          ("timestamps", .bool c.logging.timestamps),
          ("file_line", .bool c.logging.fileLine),
          ("filter", .ofText? c.logging.filter)])])]

end Config

end ScimLdap
