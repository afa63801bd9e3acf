import ScimLdap.Log.Event
import ScimLdap.Search.Request
import ScimLdap.Text.Quoted

/-!
# Trails — the events that an answer leaves behind

What is told about a filter or a request follows from what was asked and what came out of it, so a trail is
a function of both and the answers themselves need not carry it. A filter for an entity without a visitor
leaves nothing; any other leaves one event. A request leaves its parameters as they were received, the trail
of its filter, and, if it could be built, what the parameters were made into.
-/

namespace ScimLdap

open Log (Event)

namespace Log

/-- A parameter as it was received. What is absent is told apart from a text that says so. -/
def shown : Option String → Json
  | none => .string "None"
  | some s => .string ("Some(" ++ s ++ ")")

def entityField (entity : Entity) : String × Json :=
  ("entity", .string entity.name)

end Log

/-- What is told about the answer to a filter text. The text is told as it came, and an error with its wording;
    without a visitor nothing has been done that could be told. -/
def FilterService.trail (s : FilterService) (text : Option String) (entity : Entity) : List Event :=
  let event (message : String) (fields : List (String × Json)) : List Event :=
    [⟨.debug, "scim_directory::scim::translate", message, Log.entityField entity :: fields⟩]
  match Text.nonBlank? text, s.searchFilter text entity with
  | _, .error (.unregistered _) => []
  | none, .error _ => []
  | none, .ok f => event "Empty filter, matching all entries" [("output", .string f.render)]
  | some input, .ok f =>
    event "Translated filter" [("input", .string input), ("output", .string f.render)]
  | some input, .error (.malformed e) =>
    event "Filter rejected by parser" [("input", .string input), ("error", .string e.render)]
  | some input, .error e =>
    event "Filter translation failed" [("input", .string input), ("error", .string e.message)]

namespace Search

def Params.fields (p : Params) : List (String × Json) :=
  [("filter", Log.shown (p.filter.map Text.quoted)),
   ("start_index", Log.shown (p.startIndex.map (fun n => toString n.toInt))),
   ("count", Log.shown (p.count.map (fun n => toString n.toInt))),
   ("sort_by", Log.shown (p.sortBy.map Text.quoted)),
   ("sort_order", Log.shown (p.sortOrder.map Text.quoted))]

def Request.fields (r : Request) : List (String × Json) :=
  [("filter", .string r.filter.render),
   ("start_index", .nat r.startIndex),
   ("count", .nat r.count),
   ("sort_by", .string r.sortBy),
   ("sort_order", .string r.sortOrder.name)]

/-- What is told about the building of a request. The parameters are told before anything can fail, so a request
    that could not be built still shows what was asked. -/
def Builder.trail (b : Builder) (baseDn : String) (entity : Entity) (params : Params) : List Event :=
  let event (message : String) (fields : List (String × Json)) : Event :=
    ⟨.info, "scim_directory::scim::search", message, Log.entityField entity :: fields⟩
  event "Search request parameters" params.fields ::
    (b.filters.trail params.filter entity ++
      match b.requestOfParams baseDn entity params with
      | .ok r => [event "Normalized search request" r.fields]
      | .error _ => [])

end Search

end ScimLdap
