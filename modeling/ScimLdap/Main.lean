import ScimLdap.Cli.Run
import ScimLdap.Config.Expansion
import ScimLdap.Log.Line

/-!
# The program

Everything is decided in `Cli.run`. What is left for here is to fetch the configuration and the variables
that it refers to, and to print.
-/

namespace ScimLdap.Cli

/-- Why a file cannot be read, in the words of the operating system and with its number. -/
def reason : IO.Error → String
  | .noFileOrDirectory .. => "No such file or directory (os error 2)"
  | .permissionDenied .. => "Permission denied (os error 13)"
  | .inappropriateType .. => "Is a directory (os error 21)"
  | e => toString e

def readText (path : String) : IO (Except String String) := do
  try
    return .ok (← IO.FS.readFile path)
  catch e =>
    return .error (reason e)

/-- What the environment holds of that which a run may ask for. Which variables these are can be read off the
    text of the configuration, so all of them are fetched before the run begins. -/
def fetch (path : Option String) : IO Environment := do
  let text ← match path with
    | none => pure (.ok "")
    | some path => readText path
  let names := "RUST_LOG" :: Config.references (text.toOption.getD "")
  let values ← names.mapM (fun name => return (name, ← IO.getEnv name))
  return ⟨fun name => (values.lookup name).join, fun _ => text⟩

end ScimLdap.Cli

def main (args : List String) : IO UInt32 := do
  let path := (ScimLdap.Cli.Arguments.read args).toOption.bind (·.config)
  let outcome := ScimLdap.Cli.run (← ScimLdap.Cli.fetch path) args
  for e in outcome.events do
    IO.eprintln (e.line outcome.format)
  IO.eprint outcome.complaint
  IO.print outcome.output
  return outcome.status.toUInt32
