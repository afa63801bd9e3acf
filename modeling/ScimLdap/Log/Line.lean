import ScimLdap.Json.Writer
import ScimLdap.Log.Event

/-!
# Log lines

An event is written as one line of JSON, as one line of text, or as a paragraph for a person to read. None
of them carries the time or the place in the program, whatever is configured for these two: the collector
of the lines knows when they came.
-/

namespace ScimLdap.Log

/-- The value of a field in a text. A text stands without quotes there, since the line is for a person and is
    not read back. -/
def fieldText : Json → String
  | .string s => s
  | v => v.compact

def Event.line (e : Event) : Format → String
  | .json => e.toJson.compact
  | .compact =>
    e.level.label ++ " " ++ e.target ++ ": " ++ e.message ++
      String.join (e.fields.map (fun f => " " ++ f.1 ++ "=" ++ fieldText f.2))
  | .pretty =>
    "  " ++ e.level.label ++ " " ++ e.target ++ ": " ++ e.message ++
      String.join (e.fields.map (fun f => ", " ++ f.1 ++ ": " ++ fieldText f.2)) ++ "\n"

end ScimLdap.Log
