import ScimLdap.Config.Checks
import ScimLdap.Config.Expansion
import ScimLdap.Config.Reading
import ScimLdap.Toml.Reader

/-!
# Loading a configuration

A text becomes a configuration in three steps, and each has a failure of its own: variables are put in, the
text is read, the settings are checked.
-/

namespace ScimLdap

/-- Why a configuration could not be loaded: its file could not be read, or one of the three steps failed. -/
inductive ConfigError where
  | unreadable (path reason : String)
  | unsetVariable (name : String)
  | malformed
  | invalid (violation : Config.Violation)
  deriving DecidableEq, Repr, Inhabited

def ConfigError.message : ConfigError → String
  | unreadable path reason => "Failed to read config file " ++ path ++ ": " ++ reason
  | unsetVariable name => "Environment variable not found: " ++ name
  | malformed => "Failed to parse config: the text holds no configuration"
  | invalid violation => "Configuration validation error: " ++ violation.message

namespace Config

/-- The configuration that a text holds once variables are read from an environment. Variables are put in before
    anything is read, so they may stand in any place, keys and numbers included. -/
def load (value : String → Option String) (text : String) : Except ConfigError Config := do
  let expanded ← (expand value text).mapError .unsetVariable
  match (Toml.read? expanded).bind read? with
  | none => .error .malformed
  | some c =>
    match violation? c with
    | some v => .error (.invalid v)
    | none => .ok c

end Config

end ScimLdap
