import ScimLdap.Decimal.Integer
import ScimLdap.Log.Event
import ScimLdap.Text.Caseless
import ScimLdap.Text.Split

/-!
# Directives — which events are told

A directive sets how much is told by the events it covers: those whose target begins with the directive's
and which carry the field that it asks for, if it asks for one. Of the directives that cover an event the
most specific decides, and of several for the same target and field the last. An event that none covers is
not told.

A list of directives is a text with commas between them. A single one is a level, a target, or a target
with a level after an equals sign; a target may be followed by brackets, which hold the name of a span, or
a field in braces, or both. This library opens no spans, so a directive that is bound to a span, or to a
value that a field has there, covers no event.
-/

namespace ScimLdap.Log

/-- How much is told: everything up to a level, or nothing at all. -/
abbrev Threshold := Option Level

def Threshold.admits (t : Threshold) (l : Level) : Bool :=
  t.any (fun most => l.rank ≤ most.rank)

def Threshold.all : List Threshold :=
  [none, some .error, some .warn, some .info, some .debug, some .trace]

def Threshold.name (t : Threshold) : String :=
  match t with
  | none => "off"
  | some l => l.name

/-- The threshold that a text names, in any case, or gives by its number. The number counts from nothing at all
    to the most talkative level. -/
def threshold? (cs : List Char) : Option Threshold :=
  ((Decimal.natural? cs).bind (Threshold.all[·]?)).or
    (Threshold.all.find? (fun t => Text.sameFold t.name (String.ofList cs)))

/-- How much the events of a target are told. The empty target is the front part of every other, so a directive
    without a target speaks for all events that no narrower one covers. -/
structure Directive where
  threshold : Threshold
  target : String := ""
  field : Option String := none
  inSpan : Bool := false
  deriving DecidableEq, Repr, Inhabited

namespace Directive

def covers (d : Directive) (e : Event) : Bool :=
  !d.inSpan && d.target.toList.isPrefixOf e.target.toList && d.field.all e.fieldNames.contains

/-- How specific a directive is: first by the length of its target, then by its field. Of two targets that both
    cover an event one is the front part of the other, so the length decides which is narrower. -/
def specificity (a b : Directive) : Ordering :=
  (compare a.target.utf8ByteSize b.target.utf8ByteSize).then
    (compare (a.field.getD "") (b.field.getD ""))

/-- The more specific of two directives, and the later one if they are alike. -/
def decisive (best : Option Directive) (d : Directive) : Option Directive :=
  match best with
  | none => some d
  | some b => if (specificity b d).isLE then some d else some b

end Directive

def tells (directives : List Directive) (e : Event) : Bool :=
  ((directives.filter (·.covers e)).foldl Directive.decisive none).any (·.threshold.admits e.level)

/-! ## Reading -/

def opensDirective (c : Char) : Bool :=
  c.isAlphanum || c == '_' || c == '-' || c == ':' || c == '[' || (0x80 ≤ c.toNat && !Text.isBlank c)

/-- The level after a target, everything if there is none: whoever names a target wants to hear of it. -/
def levelAfter? : List Char → Option Threshold
  | [] => some (some .trace)
  | '=' :: [] => some (some .trace)
  | '=' :: cs => threshold? cs
  | cs => if cs.all Text.isBlank then some (some .trace) else none

/-- What a field in braces asks for: the field itself, or a value of it. -/
def fieldDirective (target span field : List Char) (t : Threshold) : Directive :=
  let name := Text.splitOnce (· == '=') field
  ⟨t, String.ofList target, some (String.ofList name.1), !span.isEmpty || name.2.isSome⟩

def bracketed? (target cs : List Char) : Option Directive :=
  let span := cs.takeWhile (fun c => c != ']' && c != '\x7b')
  match cs.dropWhile (fun c => c != ']' && c != '\x7b') with
  | [] => none
  | ']' :: rest => (levelAfter? rest).map (⟨·, String.ofList target, none, true⟩)
  | _ :: rest =>
    match Text.splitOnce (· == '\x7d') rest with
    | ([], _) => none
    | (field, some (']' :: rest)) => (levelAfter? rest).map (fieldDirective target span field)
    | _ => none

def unpadded? (cs : List Char) : Option Directive :=
  if cs.head?.any opensDirective then
    let target := cs.takeWhile (fun c => c != '=' && c != '[')
    match cs.dropWhile (fun c => c != '=' && c != '[') with
    | [] =>
      match threshold? cs with
      | some t => some ⟨t, "", none, false⟩
      | none => some ⟨some .trace, String.ofList cs, none, false⟩
    | '[' :: rest => bracketed? target rest
    | rest => (levelAfter? rest).map (⟨·, String.ofList target, none, false⟩)
  else none

/-- A directive. Blanks before it belong to its target, so that it covers nothing, and cannot be followed by a
    level. -/
def directive? (cs : List Char) : Option Directive :=
  if cs.head?.any Text.isBlank then
    match unpadded? (cs.dropWhile Text.isBlank) with
    | some _ => if cs.contains '=' then none else some ⟨some .trace, String.ofList cs, none, false⟩
    | none => none
  else unpadded? cs

/-- The directives of a text. Nothing needs to stand between two commas. -/
def directives? (text : String) : Option (List Directive) :=
  ((Text.splitOn (· == ',') text.toList).filter (fun cs => !cs.isEmpty)).mapM directive?

example : directives? "info,scim_directory=off" =
    some [⟨some .info, "", none, false⟩, ⟨none, "scim_directory", none, false⟩] := by decide +kernel

example : directives? "info,scim_directory=loud" = none := by decide +kernel

end ScimLdap.Log
