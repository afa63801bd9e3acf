import ScimLdap.Decimal.Range

/-!
# Integer — whole numbers

A whole number is a run of digits, leading zeros allowed, with or without a sign. Where a field holds a
signed number of 64 bits, one outside that range is refused and not wrapped round.
-/

namespace ScimLdap.Decimal

def digits? (cs : List Char) : Option Nat :=
  if cs ≠ [] ∧ cs.all Char.isDigit then some (ofDigits cs) else none

def natural? : List Char → Option Nat
  | '+' :: cs => digits? cs
  | cs => digits? cs

/-- A whole number with a sign or without. Only one sign may stand in front, so `+-7` is none, and a sign
    without digits is none either. -/
def integer? : List Char → Option Int
  | '-' :: cs => (digits? cs).map (fun n => -(n : Int))
  | cs => (natural? cs).map Int.ofNat

/-- A number as one of 64 bits, if it is in their range. One outside is refused here rather than wrapped round,
    since a count of `2 ^ 64 + 1` is a mistake and not a count of one. -/
def word? (n : Int) : Option Int64 :=
  if Int64.minValue.toInt ≤ n ∧ n ≤ Int64.maxValue.toInt then some (Int64.ofInt n) else none

example : integer? "-0012".toList = some (-12) ∧ integer? "+7".toList = some 7 ∧
    integer? "+-7".toList = none ∧ integer? "-".toList = none := by decide +kernel

end ScimLdap.Decimal
