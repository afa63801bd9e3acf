import ScimLdap.Cli.Arguments
import ScimLdap.Config.Loading
import ScimLdap.Config.Service
import ScimLdap.Json.Writer
import ScimLdap.Log.Trail
import ScimLdap.Wire.Records

/-!
# Runs — what the program answers to a command line

A run is a function of the arguments and of what the environment holds: variables, and the texts of files.
It ends with status 0 and something to print, or with another status and a complaint; with status 2 if the
arguments or the request were at fault and with status 1 if anything else was. The events that it leaves
stand apart from both.
-/

namespace ScimLdap.Cli

/-- What a run may ask of its environment: the values of variables, and the texts of files or the reason why a
    file cannot be had. -/
structure Environment where
  value : String → Option String
  file : String → Except String String

structure Outcome where
  status : Nat
  output : String := ""
  complaint : String := ""
  events : List Log.Event := []
  format : Log.Format := .compact
  deriving Repr, Inhabited

namespace Outcome

def printed (text : String) : Outcome :=
  { status := 0, output := text ++ "\n" }

def failed (status : Nat) (message : String) : Outcome :=
  { status, complaint := "Error: " ++ message ++ "\n" }

/-- What a run makes of an answer. The status tells whose fault an error is: 2 if the request was at fault, and
    1 if the service was. -/
def answered : Except Error String → Outcome
  | .ok text => printed text
  | .error e => failed (if e.isClientError then 2 else 1) e.message

end Outcome

def usage : String :=
  "Usage: scim-directory [--config PATH] COMMAND\n\n" ++
  "Commands:\n" ++
  "  translate FILTER [--entity ENTITY] [--canonical]\n" ++
  "      Print a SCIM filter as an LDAP filter, or in its canonical form\n" ++
  "  request [--entity ENTITY] [--filter FILTER] [--start-index N] [--count N]\n" ++
  "          [--sort-by ATTRIBUTE] [--sort-order ORDER] [--attributes LIST] [--owner PERSON]\n" ++
  "      Print the search request that list parameters ask for, as JSON\n" ++
  "  schema [--output PATH]\n" ++
  "      Print the JSON schema of the configuration, if it is built in\n" ++
  "  help [COMMAND]\n" ++
  "      Print this text\n\n" ++
  "Options:\n" ++
  "  -c, --config PATH      the configuration\n" ++
  "  -e, --entity ENTITY    user, group or fido-device; user if not given\n" ++
  "  -f, --filter FILTER    the filter of a request; every entry if not given\n" ++
  "  -o, --output PATH      the file to write to\n" ++
  "  -h, --help             print this text\n" ++
  "  -V, --version          print the version"

def version : String :=
  "scim-directory 0.1.0"

namespace Command

/-- What a command answers under a configuration. The canonical form of a filter is asked for without an entity,
    since it depends on no table; the schema is not built in, so to ask for it is a failure. -/
def answer (c : Config) : Command → Outcome
  | translate filter _ true =>
    .answered (((c.service.parse filter).mapError Error.malformed).map Filter.render)
  | translate filter entity false =>
    .answered ((c.service.searchFilter (some filter) entity).map Ldap.SearchFilter.render)
  | request entity params owner =>
    .answered ((c.builder.requestOfParams (c.layout.baseDn entity owner) entity params).map
      (fun r => r.toJson.pretty))
  | schema _ => .failed 1 "JSON schema export requires the 'json-schema' feature"

/-- The events that a command leaves under a configuration. A filter is only traced on its way to the directory,
    so its canonical form leaves none. -/
def trail (c : Config) : Command → List Log.Event
  | translate _ _ true => []
  | translate filter entity false => c.service.trail (some filter) entity
  | request entity params owner =>
    c.builder.trail (c.layout.baseDn entity owner) entity params
  | schema _ => []

end Command

/-- The configuration at a path, or the one that holds without any: every setting at its default. -/
def Environment.config (env : Environment) : Option String → Except ConfigError Config
  | none => .ok {}
  | some path =>
    match env.file path with
    | .ok text => Config.load env.value text
    | .error reason => .error (.unreadable path reason)

/-- A run of a command. An unusable configuration ends it with status 1 before the command is looked at; the
    level of the log decides which events are told and changes nothing else. -/
def Arguments.run (env : Environment) (a : Arguments) : Outcome :=
  match env.config a.config with
  | .error e => .failed 1 e.message
  | .ok c =>
    let directives := c.logging.directives (env.value "RUST_LOG")
    { a.command.answer c with
      events := (a.command.trail c).filter (Log.tells directives)
      format := c.logging.format }

def run (env : Environment) (args : List String) : Outcome :=
  match Arguments.read args with
  | .ok a => a.run env
  | .error .help => .printed usage
  | .error .version => .printed version
  | .error (.refused e) => { status := 2, complaint := "error: " ++ e.message ++ "\n\n" ++ usage ++ "\n" }

end ScimLdap.Cli
