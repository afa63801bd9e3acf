/-!
# Switches — the options of the command line

An option has a long name, written after two hyphens, and perhaps a short one, written after one. The
configuration may be named before a command as well as after it; every other option belongs to the commands
that list it.
-/

namespace ScimLdap.Cli

inductive Switch where
  | config
  | entity
  | filter
  | startIndex
  | count
  | sortBy
  | sortOrder
  | attributes
  | owner
  | canonical
  | output
  | help
  | version
  deriving DecidableEq, Repr, Inhabited

/-- What has to follow an option. A text may not look like an option itself; a whole number may, since it can
    begin with a minus sign. -/
inductive Takes where
  | nothing
  | text
  | integer
  deriving DecidableEq, Repr, Inhabited

namespace Switch

def long : Switch → String
  | config => "config"
  | entity => "entity"
  | filter => "filter"
  | startIndex => "start-index"
  | count => "count"
  | sortBy => "sort-by"
  | sortOrder => "sort-order"
  | attributes => "attributes"
  | owner => "owner"
  | canonical => "canonical"
  | output => "output"
  | help => "help"
  | version => "version"

def short? : Switch → Option Char
  | config => some 'c'
  | entity => some 'e'
  | filter => some 'f'
  | output => some 'o'
  | help => some 'h'
  | version => some 'V'
  | _ => none

def takes : Switch → Takes
  | canonical | help | version => .nothing
  | startIndex | count => .integer
  | _ => .text

end Switch

inductive Verb where
  | translate
  | request
  | schema
  | help
  deriving DecidableEq, Repr, Inhabited

namespace Verb

def name : Verb → String
  | translate => "translate"
  | request => "request"
  | schema => "schema"
  | help => "help"

def all : List Verb :=
  [translate, request, schema, help]

def ofName? (s : String) : Option Verb :=
  all.find? (fun t => t.name == s)

/-- The options that a command has. Any other is refused as if it were no option at all. -/
def switches : Verb → List Switch
  | translate => [.entity, .canonical, .config, .help]
  | request =>
    [.entity, .filter, .startIndex, .count, .sortBy, .sortOrder, .attributes, .owner, .config, .help]
  | schema => [.output, .config, .help]
  | help => []

end Verb

def Switch.beforeVerb : List Switch :=
  [.config, .help, .version]

end ScimLdap.Cli
