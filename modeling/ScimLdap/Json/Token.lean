import ScimLdap.Decimal.Numeral
import ScimLdap.Json.Basic
import ScimLdap.Text.Taken

/-!
# JSON tokens

The lexemes of RFC 8259: brackets, signs, and the values that hold no other. Blanks are the four of the
standard and separate only. The numbers are those numerals that the standard admits: no plus sign, no
leading zero, digits after an exponent mark.
-/

namespace ScimLdap.Json

open Decimal (Numeral)
open Text (Taken)

inductive Token where
  | openArray
  | closeArray
  | openObject
  | closeObject
  | comma
  | colon
  | scalar (value : Json)
  deriving Repr, Inhabited

namespace Token

def hexDigit? (c : Char) : Option Nat :=
  if c.isDigit then some (c.toNat - 48)
  else if 'a' ≤ c ∧ c ≤ 'f' then some (c.toNat - 87)
  else if 'A' ≤ c ∧ c ≤ 'F' then some (c.toNat - 55)
  else none

def hex4? (a b c d : Char) : Option Nat := do
  return ((← hexDigit? a) * 16 + (← hexDigit? b)) * 256 + ((← hexDigit? c) * 16 + (← hexDigit? d))

def escaped? : Char → Option Char
  | '"' => some '"'
  | '\\' => some '\\'
  | '/' => some '/'
  | 'b' => some '\x08'
  | 'f' => some '\x0c'
  | 'n' => some '\n'
  | 'r' => some '\r'
  | 't' => some '\t'
  | _ => none

/-- The character that a code unit is, if it is no half of a pair. -/
def ofUnit? (unit : Nat) : Option Char :=
  if 0xD800 ≤ unit ∧ unit ≤ 0xDFFF then none else some (Char.ofNat unit)

def ofPair? (high low : Nat) : Option Char :=
  if (0xD800 ≤ high ∧ high ≤ 0xDBFF) ∧ (0xDC00 ≤ low ∧ low ≤ 0xDFFF) then
    some (Char.ofNat (0x10000 + (high - 0xD800) * 1024 + (low - 0xDC00)))
  else none

def unit? : (cs : List Char) → Option (Taken cs Nat)
  | '\\' :: 'u' :: a :: b :: c :: d :: cs =>
    (hex4? a b c d).map (⟨·, cs, by simp only [List.length_cons]; omega⟩)
  | _ => none

def secondHalf? (high : Nat) (cs : List Char) : Option (Taken cs Char) := do
  let u ← unit? cs
  let c ← ofPair? high u.piece
  return u.map (fun _ => c)

/-- A character written by its code units. One beyond the basic plane takes two; half a pair is none, and what
    stands where its other half was due is read anew. -/
def unitsChar? (cs : List Char) : Option (Taken cs (Option Char)) := do
  let t ← unit? cs
  match ofUnit? t.piece, secondHalf? t.piece t.rest with
  | some c, _ => return t.map (fun _ => some c)
  | none, some u => return t.andThen (u.map some)
  | none, none => return t.map (fun _ => none)

/-- One character of a string, written as itself or escaped. A control character has to be escaped. -/
def stringChar? : (cs : List Char) → Option (Taken cs (Option Char))
  | '\\' :: 'u' :: cs => unitsChar? ('\\' :: 'u' :: cs)
  | '\\' :: c :: cs => (escaped? c).map (fun piece => .two (some piece) '\\' c cs)
  | c :: cs => if c.toNat < 0x20 ∨ c = '"' ∨ c = '\\' then none else some (.one (some c) c cs)
  | [] => none

/-- The string of some characters, which is broken when one of them is half a pair. -/
def ofStringChars (cs : List (Option Char)) : Json :=
  match cs.mapM id with
  | some cs => .string (String.ofList cs)
  | none => .broken

def stringChars? : (cs : List Char) → Option (Taken cs (List (Option Char)))
  | [] => none
  | c :: cs =>
    if c = '"' then some (.one [] c cs)
    else do
      let t ← stringChar? (c :: cs)
      have := t.shorter
      let u ← stringChars? t.rest
      return t.andThen (u.map (t.piece :: ·))
termination_by cs => cs.length
decreasing_by all_goals simp only [List.length_cons] at *; omega

/-- Whether a numeral is a number of JSON: without a plus sign, without a zero in front of other digits, and
    with digits after an exponent mark. -/
def isNumber (n : Numeral) : Bool :=
  n.sign != ['+'] && !n.isMalformed &&
    match n.whole with
    | [] => false
    | ['0'] => true
    | d :: _ => d != '0'

/-- The value of a number: an integer where it is written as one and fits in 64 bits. A zero with a minus sign
    is none, as a float would tell it from zero. -/
def ofNumeral (n : Numeral) : Json :=
  let m := Decimal.ofDigits n.whole
  if !n.fraction.isEmpty || n.exponent.isSome then .decimal (String.ofList n.chars)
  else if n.sign = [] ∧ m < UInt64.size then .integer m
  else if n.sign = ['-'] ∧ 0 < m ∧ Int64.minValue.toInt ≤ -m then .integer (-m)
  else .decimal (String.ofList n.chars)

def word? (word : List Char) (value : Json) : (cs : List Char) → Option (Taken cs Token)
  | [] => none
  | c :: cs =>
    if h : word.isPrefixOf (c :: cs) = true ∧ word.length ≠ 0 then
      some ⟨scalar value, (c :: cs).drop word.length, by
        simp only [List.length_drop, List.length_cons]; omega⟩
    else none

def isBlank (c : Char) : Bool :=
  c == ' ' || c == '\n' || c == '\r' || c == '\t'

def ofSign? : Char → Option Token
  | '[' => some openArray
  | ']' => some closeArray
  | '{' => some openObject
  | '}' => some closeObject
  | ',' => some comma
  | ':' => some colon
  | _ => none

def number? (cs : List Char) : Option (Taken cs Token) :=
  if h : isNumber (Numeral.scan cs).1 = true ∧ (Numeral.scan cs).1.whole ≠ [] then
    some ⟨scalar (ofNumeral (Numeral.scan cs).1), (Numeral.scan cs).2, Numeral.length_scan_lt h.2⟩
  else none

/-- The lexeme at the front of a text that does not begin with a blank. A word need not end where its letters
    end, so what follows it is looked at as the next lexeme. -/
def take? : (cs : List Char) → Option (Taken cs Token)
  | [] => none
  | c :: cs =>
    match ofSign? c with
    | some t => some (.one t c cs)
    | none =>
      if c = '"' then
        (stringChars? cs).map (fun t => (Taken.one () c cs).andThen
          (t.map (fun s => scalar (ofStringChars s))))
      else ((word? "true".toList (.bool true) (c :: cs)).or
        (word? "false".toList (.bool false) (c :: cs))).or
        ((word? "null".toList .null (c :: cs)).or (number? (c :: cs)))

def ofChars? : (cs : List Char) → Option (List Token)
  | [] => some []
  | c :: cs =>
    if isBlank c then ofChars? cs
    else do
      let t ← take? (c :: cs)
      have := t.shorter
      return t.piece :: (← ofChars? t.rest)
termination_by cs => cs.length
decreasing_by all_goals simp only [List.length_cons] at *; omega

end Token

end ScimLdap.Json
