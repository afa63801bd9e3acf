import ScimLdap.Decimal.Range

/-!
# Moment — dates and times of day

A moment is a date, a time of day, or both; only with both may it say how far its clock is from the common
one. The seconds may be left out and are zero then, but a fraction needs them before it. Of a fraction nine
digits count. A date has to be in the calendar; a minute may have a sixty-first second.

`Moment.text` is the one way to write a moment: a great `T` between date and time, the seconds always there,
no zero at the end of a fraction.
-/

namespace ScimLdap.Toml

structure Date where
  year : Nat
  month : Nat
  day : Nat
  deriving DecidableEq, Repr, Inhabited

structure Clock where
  hour : Nat
  minute : Nat
  second : Nat
  nanosecond : Nat
  deriving DecidableEq, Repr, Inhabited

/-- Where a clock stands: at the common time, or so many minutes before it. -/
inductive Zone where
  | common
  | ahead (minutes : Int)
  deriving DecidableEq, Repr, Inhabited

/-- A date, a time of day, or both. Only a moment with both can say where its clock stands. -/
inductive Moment where
  | date (d : Date)
  | clock (t : Clock)
  | both (d : Date) (t : Clock) (zone : Option Zone)
  deriving DecidableEq, Repr, Inhabited

/-! ## Reading -/

namespace Moment

/-- The digits at the front of a text and the rest, if there are as many as there should be. -/
def field? (width : Nat) (cs : List Char) : Option (Nat × List Char) :=
  let digits := cs.takeWhile Char.isDigit
  if digits.length = width then some (Decimal.ofDigits digits, cs.dropWhile Char.isDigit) else none

def after? (sign : Char) : List Char → Option (List Char)
  | c :: cs => if c = sign then some cs else none
  | [] => none

end Moment

namespace Date

def isLeap (year : Nat) : Bool :=
  year % 4 == 0 && (year % 100 != 0 || year % 400 == 0)

def daysIn (year month : Nat) : Nat :=
  if month = 2 then if isLeap year then 29 else 28
  else if month ∈ [4, 6, 9, 11] then 30
  else 31

def isValid (d : Date) : Bool :=
  1 ≤ d.month && d.month ≤ 12 && 1 ≤ d.day && d.day ≤ daysIn d.year d.month

def take? (cs : List Char) : Option (Date × List Char) := do
  let (year, cs) ← Moment.field? 4 cs
  let (month, cs) ← Moment.field? 2 (← Moment.after? '-' cs)
  let (day, cs) ← Moment.field? 2 (← Moment.after? '-' cs)
  let d : Date := ⟨year, month, day⟩
  if d.isValid then some (d, cs) else none

end Date

namespace Clock

def isValid (t : Clock) : Bool :=
  t.hour ≤ 23 && t.minute ≤ 59 && t.second ≤ 60

/-- The nanoseconds that the digits of a fraction make. Digits beyond the ninth are dropped and not rounded. -/
def nanoseconds (digits : List Char) : Nat :=
  Decimal.ofDigits (digits.take 9) * Decimal.tenTo (9 - digits.length)

def takeFraction? : List Char → Option (Nat × List Char)
  | '.' :: cs =>
    let digits := cs.takeWhile Char.isDigit
    if digits.isEmpty then none else some (nanoseconds digits, cs.dropWhile Char.isDigit)
  | cs => some (0, cs)

def takeSeconds? : List Char → Option ((Nat × Nat) × List Char)
  | ':' :: cs => do
    let (second, cs) ← Moment.field? 2 cs
    let (nanosecond, cs) ← takeFraction? cs
    return ((second, nanosecond), cs)
  | cs => some ((0, 0), cs)

def take? (cs : List Char) : Option (Clock × List Char) := do
  let (hour, cs) ← Moment.field? 2 cs
  let (minute, cs) ← Moment.field? 2 (← Moment.after? ':' cs)
  let ((second, nanosecond), cs) ← takeSeconds? cs
  let t : Clock := ⟨hour, minute, second, nanosecond⟩
  if t.isValid then some (t, cs) else none

end Clock

def Zone.ofChars? : List Char → Option Zone
  | ['Z'] | ['z'] => some .common
  | sign :: cs => do
    let (hours, cs) ← Moment.field? 2 cs
    let (minutes, cs) ← Moment.field? 2 (← Moment.after? ':' cs)
    let distance : Int := hours * 60 + minutes
    if cs.isEmpty && hours ≤ 23 && minutes ≤ 59 then
      if sign = '+' then some (.ahead distance)
      else if sign = '-' then some (.ahead (-distance))
      else none
    else none
  | [] => none

namespace Moment

def isDivider (c : Char) : Bool :=
  c == 'T' || c == 't' || c == ' '

def clock? (cs : List Char) : Option Moment := do
  let (t, cs) ← Clock.take? cs
  if cs.isEmpty then some (clock t) else none

def dated? (cs : List Char) : Option Moment := do
  match ← Date.take? cs with
  | (d, []) => some (date d)
  | (d, c :: cs) =>
    if isDivider c then
      match ← Clock.take? cs with
      | (t, []) => some (both d t none)
      | (t, cs) => (Zone.ofChars? cs).map (fun zone => both d t (some zone))
    else none

/-- The moment that a text spells. One that does not begin with a date is taken for a time of day. -/
def ofChars? (cs : List Char) : Option Moment :=
  (dated? cs).or (clock? cs)

/-! ## Writing -/

def padded (width n : Nat) : List Char :=
  let digits := Nat.toDigits 10 n
  List.replicate (width - digits.length) '0' ++ digits

def fractionChars (nanosecond : Nat) : List Char :=
  if nanosecond = 0 then []
  else '.' :: ((padded 9 nanosecond).reverse.dropWhile (· == '0')).reverse

def dateChars (d : Date) : List Char :=
  padded 4 d.year ++ '-' :: padded 2 d.month ++ '-' :: padded 2 d.day

def clockChars (t : Clock) : List Char :=
  padded 2 t.hour ++ ':' :: padded 2 t.minute ++ ':' :: padded 2 t.second ++ fractionChars t.nanosecond

def zoneChars : Zone → List Char
  | .common => ['Z']
  | .ahead minutes =>
    (if minutes < 0 then '-' else '+') ::
      (padded 2 (minutes.natAbs / 60) ++ ':' :: padded 2 (minutes.natAbs % 60))

def chars : Moment → List Char
  | date d => dateChars d
  | clock t => clockChars t
  | both d t zone => dateChars d ++ 'T' :: clockChars t ++ (zone.map zoneChars).getD []

def text (m : Moment) : String :=
  String.ofList m.chars

example : (ofChars? "2020-02-29 07:05z".toList).map text = some "2020-02-29T07:05:00Z" ∧
    (ofChars? "10:00:00.1200".toList).map text = some "10:00:00.12" ∧
    (ofChars? "2021-02-29".toList).map text = none ∧ (ofChars? "10:00.5".toList).map text = none := by
  decide +kernel

end Moment

end ScimLdap.Toml
