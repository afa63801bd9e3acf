import ScimLdap.Json.Basic

/-!
# Log events

An event says that something happened: how much it matters, where it comes from, and what there is to know
about it. Whether anybody hears of it is another matter (`Log.Directive`), and so is the form in which it
is written.
-/

namespace ScimLdap.Log

/-- How much an event matters, the most talkative level first. -/
inductive Level where
  | trace
  | debug
  | info
  | warn
  | error
  deriving DecidableEq, Repr, Inhabited

namespace Level

def name : Level → String
  | trace => "trace"
  | debug => "debug"
  | info => "info"
  | warn => "warn"
  | error => "error"

def all : List Level :=
  [trace, debug, info, warn, error]

def label (l : Level) : String :=
  l.name.map Char.toUpper

/-- How much is told at a level: everything at levels of the same rank or a lower one. The rank is also the
    number by which a directive may ask for the level. -/
def rank : Level → Nat
  | error => 1
  | warn => 2
  | info => 3
  | debug => 4
  | trace => 5

end Level

inductive Format where
  | pretty
  | compact
  | json
  deriving DecidableEq, Repr, Inhabited

namespace Format

def name : Format → String
  | pretty => "pretty"
  | compact => "compact"
  | json => "json"

def all : List Format :=
  [pretty, compact, json]

end Format

structure Event where
  level : Level
  target : String
  message : String
  fields : List (String × Json)
  deriving Repr, Inhabited

namespace Event

/-- The names of what is known about an event, its message among them, so that a directive may ask for events
    that have a message. -/
def fieldNames (e : Event) : List String :=
  "message" :: e.fields.map Prod.fst

def toJson (e : Event) : Json :=
  .object
    [("level", .string e.level.label),
     ("fields", .object (("message", .string e.message) :: e.fields)),
     ("target", .string e.target)]

end Event

end ScimLdap.Log
