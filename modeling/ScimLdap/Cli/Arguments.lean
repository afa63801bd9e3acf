import ScimLdap.Cli.Switch
import ScimLdap.Decimal.Integer
import ScimLdap.Entity
import ScimLdap.Search.Params
import ScimLdap.Text.Split

/-!
# Arguments — what a command line asks for

Arguments are read from left to right by a machine that takes one of them at a time; each is the value of
the option before it, or is taken for what it looks like. The first thing that is wrong ends the reading, and
so does the first option that asks for help or for the version, so what stands after either does not matter.

No option may be given twice, except that the configuration may be named once before the command and once
after it, and then the second one counts.
-/

namespace ScimLdap.Cli

inductive ArgumentError where
  | missingVerb
  | unexpected (argument : String)
  | repeated (s : Switch)
  | missingValue (s : Switch)
  | needlessValue (s : Switch)
  | invalidEntity (value : String)
  | invalidInteger (s : Switch) (value : String)
  | missingFilter
  deriving DecidableEq, Repr, Inhabited

def ArgumentError.message : ArgumentError → String
  | missingVerb => "no command is given"
  | unexpected argument => "unexpected argument '" ++ argument ++ "'"
  | repeated s => "'--" ++ s.long ++ "' cannot be used more than once"
  | missingValue s => "'--" ++ s.long ++ "' needs a value"
  | needlessValue s => "'--" ++ s.long ++ "' takes no value"
  | invalidEntity value => "invalid value for '--entity': " ++ Entity.unknownMessage value
  | invalidInteger s value => "invalid value '" ++ value ++ "' for '--" ++ s.long ++ "'"
  | missingFilter => "no filter is given"

inductive Command where
  | translate (filter : String) (entity : Entity) (canonical : Bool)
  | request (entity : Entity) (params : Search.Params) (owner : Option String)
  | schema (output : Option String)
  deriving DecidableEq, Repr, Inhabited

structure Arguments where
  config : Option String
  command : Command
  deriving DecidableEq, Repr, Inhabited

/-- Why the reading of arguments ends without a command. Help and the version are asked for by options like any
    other, but they end the reading where they stand, before anything is missed. -/
inductive Stop where
  | refused (e : ArgumentError)
  | help
  | version
  deriving DecidableEq, Repr, Inhabited

/-! ## The looks of an argument -/

/-- What an argument looks like before it is known what it means: the two hyphens after which every argument is
    an operand, an option by its long or its short name with the value that is written onto it, or an
    operand. -/
inductive Shape where
  | separator
  | long (name : String) (value : Option String)
  | short (name : Char) (value : Option String)
  | operand
  deriving DecidableEq, Repr, Inhabited

/-- The value that is written onto a short name. An equals sign between the two belongs to neither, so `-euser`
    and `-e=user` say the same, and `-e=` gives the empty value. -/
def attached? : List Char → Option String
  | [] => none
  | '=' :: cs => some (String.ofList cs)
  | cs => some (String.ofList cs)

/-- The look of an argument goes by its hyphens alone, so an unknown name still looks like an option. A lone
    hyphen is an operand. -/
def Shape.of (argument : String) : Shape :=
  match argument.toList with
  | ['-', '-'] => separator
  | '-' :: '-' :: cs =>
    let p := Text.splitOnce (· == '=') cs
    long (String.ofList p.1) (p.2.map String.ofList)
  | '-' :: c :: cs => short c (attached? cs)
  | _ => operand

/-! ## Settings -/

/-- What the options and operands of a command have set so far. All but the flag are optional, also where there
    is a default, so that an option that is given twice can be told. -/
structure Draft where
  config : Option String := none
  entity : Option Entity := none
  filter : Option String := none
  startIndex : Option Int64 := none
  count : Option Int64 := none
  sortBy : Option String := none
  sortOrder : Option String := none
  attributes : Option String := none
  owner : Option String := none
  output : Option String := none
  canonical : Bool := false
  topic : Option Verb := none
  deriving Repr, Inhabited

def once {α : Type} (s : Switch) (old : Option α) (new : α) : Except Stop (Option α) :=
  match old with
  | none => .ok (some new)
  | some _ => .error (.refused (.repeated s))

/-- The entity that a value names, refused with the value itself when it names none. -/
def entityValue (value : String) : Except Stop Entity :=
  match Entity.ofName? value with
  | some e => .ok e
  | none => .error (.refused (.invalidEntity value))

def integerValue (s : Switch) (value : String) : Except Stop Int64 :=
  match (Decimal.integer? value.toList).bind Decimal.word? with
  | some n => .ok n
  | none => .error (.refused (.invalidInteger s value))

namespace Draft

def setValue (d : Draft) (s : Switch) (value : String) : Except Stop Draft := do
  match s with
  | .config => return { d with config := ← once s d.config value }
  | .entity => return { d with entity := ← once s d.entity (← entityValue value) }
  | .filter => return { d with filter := ← once s d.filter value }
  | .startIndex => return { d with startIndex := ← once s d.startIndex (← integerValue s value) }
  | .count => return { d with count := ← once s d.count (← integerValue s value) }
  | .sortBy => return { d with sortBy := ← once s d.sortBy value }
  | .sortOrder => return { d with sortOrder := ← once s d.sortOrder value }
  | .attributes => return { d with attributes := ← once s d.attributes value }
  | .owner => return { d with owner := ← once s d.owner value }
  | .output => return { d with output := ← once s d.output value }
  | .canonical | .help | .version => .error (.refused (.needlessValue s))

def setFlag (d : Draft) (s : Switch) : Except Stop Draft :=
  match s with
  | .canonical =>
    if d.canonical then .error (.refused (.repeated s)) else .ok { d with canonical := true }
  | .help => .error .help
  | .version => .error .version
  | _ => .error (.refused (.missingValue s))

end Draft

/-! ## The machine -/

/-- Where the reading of arguments stands: the command, if it has been named, the configuration that was named
    before it, and the option whose value comes next. After `help`, as after two hyphens, only operands may
    follow. -/
structure State where
  verb : Option Verb := none
  outer : Option String := none
  draft : Draft := {}
  pending : Option Switch := none
  operandsOnly : Bool := false
  deriving Repr, Inhabited

namespace State

def switches (s : State) : List Switch :=
  (s.verb.map Verb.switches).getD Switch.beforeVerb

def value (s : State) (w : Switch) (text : String) : Except Stop State := do
  return { s with draft := ← s.draft.setValue w text, pending := none }

def switch (s : State) (argument : String) (w : Option Switch) (text : Option String) :
    Except Stop State := do
  match w with
  | none => .error (.refused (.unexpected argument))
  | some w =>
    match w.takes, text with
    | .nothing, none => return { s with draft := ← s.draft.setFlag w }
    | _, some text => s.value w text
    | _, none => return { s with pending := some w }

/-- The state after an operand: the name of a command, the filter to be said in LDAP, or the command on which
    help is asked for. The draft begins anew with the command, so what stood before it does not count as given
    twice. -/
def operand (s : State) (argument : String) : Except Stop State :=
  let unexpected := .error (.refused (.unexpected argument))
  match s.verb with
  | none =>
    match Verb.ofName? argument with
    | none => unexpected
    | some verb =>
      if s.operandsOnly then unexpected
      else .ok { s with
        verb := some verb
        outer := s.draft.config
        draft := {}
        operandsOnly := verb = .help }
  | some .translate =>
    match s.draft.filter with
    | none => .ok { s with draft.filter := some argument }
    | some _ => unexpected
  | some .help =>
    match s.draft.topic, Verb.ofName? argument with
    | none, some topic => .ok { s with draft.topic := some topic }
    | _, _ => unexpected
  | some _ => unexpected

/-- The state after one more argument. A value that is waited for may not look like an option, unless it is a
    number, which may be negative. -/
def step (s : State) (argument : String) : Except Stop State :=
  match s.pending with
  | some w =>
    if w.takes = .integer ∨ Shape.of argument = .operand then s.value w argument
    else .error (.refused (.missingValue w))
  | none =>
    if s.operandsOnly then s.operand argument
    else match Shape.of argument with
      | .separator => .ok { s with operandsOnly := true }
      | .long name text => s.switch argument (s.switches.find? (fun w => w.long == name)) text
      | .short name text =>
        let w := s.switches.find? (fun w => w.short? == some name)
        s.switch argument w (text.filter (fun _ => w.all (fun w => w.takes ≠ .nothing)))
      | .operand => s.operand argument

/-- What the arguments ask for when there are no more. The entity is that of users where none is named, and the
    configuration of the command comes before the one that was named in front of it. -/
def finish (s : State) : Except Stop Arguments :=
  let d := s.draft
  let config := d.config.or s.outer
  let entity := d.entity.getD .user
  match s.pending, s.verb with
  | some w, _ => .error (.refused (.missingValue w))
  | none, none => .error (.refused .missingVerb)
  | none, some .translate =>
    match d.filter with
    | none => .error (.refused .missingFilter)
    | some filter => .ok ⟨config, .translate filter entity d.canonical⟩
  | none, some .request =>
    let params := ⟨d.filter, d.startIndex, d.count, d.sortBy, d.sortOrder, d.attributes⟩
    .ok ⟨config, .request entity params d.owner⟩
  | none, some .schema => .ok ⟨config, .schema d.output⟩
  | none, some .help => .error .help

end State

def Arguments.read (args : List String) : Except Stop Arguments := do
  (← args.foldlM State.step {}).finish

end ScimLdap.Cli
