import Mathlib
import ScimLdap.Proofs.Scanning

/-!
# Magnitudes — which number literals are accepted

A number literal is kept as it is written, so the one thing that is ever computed with it is whether a 64-bit
float could hold it. The lexer asks that in whole numbers: it joins the digits before and after the point and
moves the scale to whichever side keeps it a power. Here the number that the literal stands for is written
down as a rational, digit by digit and with an exponent read apart from the lexer's, and the question is the
one that rounding to nearest asks: is the magnitude below the middle between the largest float and the next
power of two (`isFinite_iff`)?

`tokenize_numeral` then says what becomes of a text that is a numeral and nothing else. No such text has a
fourth outcome, however long its digits or its exponent are.
-/

namespace ScimLdap.Decimal

/-! ## Digits -/

def digitValue (d : Char) : Nat :=
  d.toNat - '0'.toNat

/-- The whole number that digits stand for, which weigh powers of ten from the last one on. No digits stand for
    zero. -/
def wholeValue (ds : List Char) : Nat :=
  Nat.ofDigits 10 (ds.reverse.map digitValue)

/-- The number that digits before and after a point stand for, where those after it weigh powers of a tenth. -/
def pointValue (whole fraction : List Char) : ℚ :=
  wholeValue whole + Nat.ofDigits (1 / 10) (0 :: fraction.map digitValue)

/-- The power of ten that an exponent stands for. It is the minus sign that makes it negative, and neither a
    plus sign nor the letter says anything. -/
def Exponent.power (e : Exponent) : ℤ :=
  if e.sign = ['-'] then -wholeValue e.digits else wholeValue e.digits

theorem ofDigits_concat (ds : List Char) (d : Char) :
    ofDigits (ds ++ [d]) = 10 * ofDigits ds + digitValue d := by
  rw [ofDigits, List.foldl_append]
  rfl

theorem ofDigits_append (ds es : List Char) :
    ofDigits (ds ++ es) = ofDigits ds * 10 ^ es.length + ofDigits es := by
  induction es using List.reverseRecOn with
  | nil => simp [ofDigits]
  | append_singleton es e ih =>
    rw [← List.append_assoc, ofDigits_concat, ofDigits_concat, ih, List.length_append, List.length_singleton,
      pow_succ]
    ring

theorem ofDigits_eq (ds : List Char) : ofDigits ds = wholeValue ds := by
  induction ds using List.reverseRecOn with
  | nil => rfl
  | append_singleton ds d ih =>
    rw [ofDigits_concat, ih, wholeValue, wholeValue, List.reverse_append, List.reverse_singleton,
      List.singleton_append, List.map_cons, Nat.ofDigits_cons, Nat.add_comm]

/-- Digits after the point, read as a whole number, have moved up by as many places as there are. -/
theorem ofDigits_fraction (ds : List Char) :
    (ofDigits ds : ℚ) = Nat.ofDigits (1 / 10 : ℚ) (0 :: ds.map digitValue) * 10 ^ ds.length := by
  induction ds with
  | nil => simp [ofDigits, Nat.ofDigits]
  | cons d ds ih =>
    have hfirst : ofDigits (d :: ds) = digitValue d * 10 ^ ds.length + ofDigits ds := by
      have h := ofDigits_append [d] ds
      rwa [List.singleton_append, show ofDigits [d] = digitValue d from by simp [ofDigits, digitValue]] at h
    rw [hfirst, Nat.cast_add, ih, List.length_cons, pow_succ]
    simp only [List.map_cons, Nat.ofDigits]
    push_cast
    ring

theorem ofDigits_point (whole fraction : List Char) :
    (ofDigits (whole ++ fraction) : ℚ) = pointValue whole fraction * 10 ^ fraction.length := by
  rw [ofDigits_append, Nat.cast_add, ofDigits_fraction fraction, pointValue, add_mul, ofDigits_eq]
  push_cast
  rfl

/-! ## Numerals -/

namespace Numeral

variable {n : Numeral}

/-- The number that a numeral stands for. Without an exponent it is that of its digits, with their sign. -/
def value (n : Numeral) : ℚ :=
  (if n.sign = ['-'] then -1 else 1) * pointValue n.whole n.fraction *
    match n.exponent with
    | none => 1
    | some e => 10 ^ e.power

/-- The lexer's exponent is the power that the numeral's exponent stands for. -/
theorem zpow_exponentValue (n : Numeral) :
    (10 : ℚ) ^ exponentValue n.exponent = match n.exponent with
      | none => 1
      | some e => 10 ^ e.power := by
  cases n.exponent with
  | none => exact zpow_zero 10
  | some e => simp only [exponentValue, Exponent.power, ofDigits_eq]

/-- The magnitude is the digits, read as one whole number, times ten to the scale. -/
theorem abs_value (n : Numeral) :
    |n.value| = (ofDigits (n.whole ++ n.fraction) : ℚ) * 10 ^ n.scale := by
  have hten : (10 : ℚ) ≠ 0 := by norm_num
  have hsign : |(if n.sign = ['-'] then -1 else 1 : ℚ)| = 1 := by
    split <;> norm_num
  have hpoint : 0 ≤ pointValue n.whole n.fraction := by
    have hpos : (0 : ℚ) < 10 ^ n.fraction.length := by positivity
    have hdigits : 0 ≤ pointValue n.whole n.fraction * 10 ^ n.fraction.length := by
      rw [← ofDigits_point]
      exact Nat.cast_nonneg _
    exact nonneg_of_mul_nonneg_left hdigits hpos
  have hpower : (0 : ℚ) < 10 ^ exponentValue n.exponent := by positivity
  calc |n.value|
      = pointValue n.whole n.fraction * 10 ^ exponentValue n.exponent := by
        rw [value, ← zpow_exponentValue, abs_mul, abs_mul, hsign, one_mul, abs_of_nonneg hpoint,
          abs_of_pos hpower]
    _ = pointValue n.whole n.fraction * (10 ^ n.fraction.length * 10 ^ n.scale) := by
        rw [scale, zpow_sub₀ hten, zpow_natCast]
        field_simp
    _ = (ofDigits (n.whole ++ n.fraction) : ℚ) * 10 ^ n.scale := by
        rw [ofDigits_point, mul_assoc]

/-- A power of ten on one side is a whole power of ten on one of the two. -/
theorem mul_zpow_lt_iff (m b : Nat) (e : Int) :
    (m : ℚ) * 10 ^ e < b ↔ m * tenTo e.toNat < b * tenTo (-e).toNat := by
  have hpow : ∀ k, tenTo k = 10 ^ k := fun k => rfl
  rcases le_total 0 e with he | he
  · obtain ⟨k, rfl⟩ := Int.eq_ofNat_of_zero_le he
    have hneg : (-(k : Int)).toNat = 0 := by omega
    rw [hneg, Int.toNat_natCast, hpow, hpow, pow_zero, mul_one, zpow_natCast]
    exact_mod_cast Iff.rfl
  · obtain ⟨k, hk⟩ := Int.eq_ofNat_of_zero_le (neg_nonneg.mpr he)
    have hek : e = -(k : Int) := by omega
    have hpos : (0 : ℚ) < 10 ^ k := by positivity
    have hto : (-(k : Int)).toNat = 0 := by omega
    rw [hek, neg_neg, Int.toNat_natCast, hto, hpow, hpow, pow_zero, mul_one, zpow_neg, zpow_natCast,
      ← div_eq_mul_inv, div_lt_iff₀ hpos]
    exact_mod_cast Iff.rfl

/-- **A numeral is within range exactly when rounding its value to nearest does not overflow.** -/
theorem isFinite_iff (hn : n.Shape) : n.isFinite = true ↔ |n.value| < 2 ^ 1024 - 2 ^ 970 := by
  have hdigits : ∀ d ∈ n.whole ++ n.fraction, d.isDigit = true := by
    intro d hd
    rcases List.mem_append.mp hd with hd | hd
    · exact hn.whole d hd
    · exact hn.fraction d hd
  have hbound : ∀ k m, k ≤ m → ((Nat.pow 2 m - Nat.pow 2 k : ℕ) : ℚ) = 2 ^ m - 2 ^ k := by
    intro k m h
    have hle : Nat.pow 2 k ≤ Nat.pow 2 m := Nat.pow_le_pow_right two_pos h
    rw [Nat.cast_sub hle]
    exact congrArg₂ (· - ·) (Nat.cast_pow 2 m) (Nat.cast_pow 2 k)
  rw [isFinite, inRange_iff _ _ hdigits, ← mul_zpow_lt_iff, ← abs_value, overflowBound,
    hbound 970 1024 (by decide)]

/-- A numeral is malformed if its exponent has no digits. -/
theorem isMalformed_iff : n.isMalformed = true ↔ ∃ e ∈ n.exponent, e.digits = [] := by
  simp [isMalformed, Option.any_eq_true]

end Numeral

end ScimLdap.Decimal

/-! ## Texts -/

namespace ScimLdap.Filter

open Decimal (Numeral)
open Text (stops_nil)

variable (options : Options) {n : Numeral} {c : Char} {cs : List Char}

/-- Where a text is a numeral, the lexer takes it for a number, as a whole. -/
theorem lexeme_of_shape (hn : n.Shape) (hchars : n.chars = c :: cs) (position : Nat) :
    Text.isBlank c = false ∧ lexeme options position c cs = numberLexeme position (c :: cs) ∧
      Numeral.scan (c :: cs) = (n, []) := by
  have hscan : Numeral.scan (c :: cs) = (n, []) := by
    have h := Numeral.scan_append hn (stops_nil _)
    rwa [List.append_nil, hchars] at h
  have hstart : startsNumeral c cs = true := by
    rw [startsNumeral_iff, hscan]
    exact hn.whole_ne_nil
  exact ⟨isBlank_eq_false_of_startsNumeral hstart, lexeme_of_startsNumeral hstart, hscan⟩

/-- **What becomes of a text that is a numeral.** With digits where its exponent has its mark, it is one token,
    written as it stands, if the magnitude of its value is below the middle between the largest float and the
    next power of two, and from there on it is out of range. Without them it is no number. Both errors stand at
    the start of the text and show all of it. -/
theorem tokenize_numeral (hn : n.Shape)
    (hlen : (String.ofList n.chars).utf8ByteSize ≤ options.maxLength) :
    let text := String.ofList n.chars
    ((∀ e ∈ n.exponent, e.digits ≠ []) →
      (|n.value| < 2 ^ 1024 - 2 ^ 970 →
        tokenize options text = .ok [⟨.number text, text, 0⟩, ⟨.eof, "", text.utf8ByteSize⟩]) ∧
      (2 ^ 1024 - 2 ^ 970 ≤ |n.value| →
        tokenize options text = .error ⟨.numberOutOfRange text, 0, some text⟩)) ∧
    ((∃ e ∈ n.exponent, e.digits = []) →
      tokenize options text = .error ⟨.invalidNumber text, 0, some text⟩) := by
  intro text
  have hne : n.chars ≠ [] := by simp [Numeral.chars, hn.whole_ne_nil]
  obtain ⟨c, cs, hchars⟩ := List.exists_cons_of_ne_nil hne
  obtain ⟨hblank, hlexeme, hscan⟩ := lexeme_of_shape options hn hchars 0
  have htext : String.ofList (c :: cs) = text := congrArg String.ofList hchars.symm
  have htokenize : tokenize options text = scanTokens options 0 (c :: cs) := by
    rw [tokenize, if_neg (Nat.not_lt.mpr hlen), String.toList_ofList, hchars]
  have hnumber : lexeme options 0 c cs =
      if n.isMalformed then .error ⟨.invalidNumber text, 0, some text⟩
      else if n.isFinite then .ok ⟨.number text, c :: cs, []⟩
      else .error ⟨.numberOutOfRange text, 0, some text⟩ := by
    rw [hlexeme, numberLexeme, hscan]
    simp only [hchars, htext]
  have hwhole : (∀ e ∈ n.exponent, e.digits ≠ []) → n.isMalformed = false := by
    intro hexponent
    rw [← Bool.not_eq_true, Numeral.isMalformed_iff]
    rintro ⟨e, he, hnil⟩
    exact hexponent e he hnil
  rw [htokenize]
  constructor
  · intro hexponent
    rw [hwhole hexponent] at hnumber
    constructor
    · intro hbelow
      rw [(Numeral.isFinite_iff hn).mpr hbelow] at hnumber
      rw [scanTokens_lexeme hnumber, scanTokens_nil, Nat.zero_add, htext, ← Text.width_toList,
        String.toList_ofList, hchars]
      rfl
    · intro hbeyond
      have hinfinite : n.isFinite = false := by
        rw [← Bool.not_eq_true, Numeral.isFinite_iff hn]
        exact not_lt.mpr hbeyond
      rw [hinfinite] at hnumber
      exact scanTokens_error hblank hnumber
  · intro hexponent
    rw [Numeral.isMalformed_iff.mpr hexponent] at hnumber
    exact scanTokens_error hblank hnumber

/-- Seventeen digits on either side of the boundary, an exponent far below zero, a zero under an exponent of
    twenty digits, and a mark with a sign and no digits. -/
theorem tokenize_numeral_boundary :
    let inside : Numeral := ⟨[], ['1'], "7976931348623158".toList, some ⟨'e', [], "308".toList⟩⟩
    let outside : Numeral := ⟨['-'], ['1'], "7976931348623159".toList, some ⟨'E', ['+'], "308".toList⟩⟩
    let tiny : Numeral := ⟨[], ['1'], [], some ⟨'e', ['-'], "400".toList⟩⟩
    let zero : Numeral := ⟨[], ['0'], ['0'], some ⟨'E', [], "99999999999999999999".toList⟩⟩
    let unfinished : Numeral := ⟨[], ['1'], [], some ⟨'e', ['+'], []⟩⟩
    (inside.Shape ∧ |inside.value| < 2 ^ 1024 - 2 ^ 970 ∧
      tokenize {} "1.7976931348623158e308" =
        .ok [⟨.number "1.7976931348623158e308", "1.7976931348623158e308", 0⟩, ⟨.eof, "", 22⟩]) ∧
    (outside.Shape ∧ 2 ^ 1024 - 2 ^ 970 ≤ |outside.value| ∧
      tokenize {} "-1.7976931348623159E+308" =
        .error ⟨.numberOutOfRange "-1.7976931348623159E+308", 0, some "-1.7976931348623159E+308"⟩) ∧
    (tiny.Shape ∧ |tiny.value| < 2 ^ 1024 - 2 ^ 970 ∧
      tokenize {} "1e-400" = .ok [⟨.number "1e-400", "1e-400", 0⟩, ⟨.eof, "", 6⟩]) ∧
    (zero.Shape ∧ |zero.value| < 2 ^ 1024 - 2 ^ 970 ∧
      tokenize {} "0.0E99999999999999999999" =
        .ok [⟨.number "0.0E99999999999999999999", "0.0E99999999999999999999", 0⟩, ⟨.eof, "", 24⟩]) ∧
    unfinished.Shape ∧ tokenize {} "1e+" = .error ⟨.invalidNumber "1e+", 0, some "1e+"⟩ := by
  intro inside outside tiny zero unfinished
  have hshape : ∀ (n : Numeral) (cs : List Char), (Numeral.scan cs).1 = n → n.whole ≠ [] → n.Shape := by
    rintro n cs rfl hne
    exact Numeral.shape_scan hne
  have hinside : inside.Shape := hshape _ "1.7976931348623158e308".toList (by decide +kernel) (by decide)
  have houtside : outside.Shape := hshape _ "-1.7976931348623159E+308".toList (by decide +kernel) (by decide)
  have htiny : tiny.Shape := hshape _ "1e-400".toList (by decide +kernel) (by decide)
  have hzero : zero.Shape := hshape _ "0.0E99999999999999999999".toList (by decide +kernel) (by decide)
  have hunfinished : unfinished.Shape := hshape _ "1e+".toList (by decide +kernel) (by decide)
  have hbelow : |inside.value| < 2 ^ 1024 - 2 ^ 970 := (Numeral.isFinite_iff hinside).mp (by decide +kernel)
  have hbeyond : 2 ^ 1024 - 2 ^ 970 ≤ |outside.value| := by
    rw [← not_lt, ← Numeral.isFinite_iff houtside]
    decide +kernel
  have hsmall : |tiny.value| < 2 ^ 1024 - 2 ^ 970 := (Numeral.isFinite_iff htiny).mp (by decide +kernel)
  have hnothing : |zero.value| < 2 ^ 1024 - 2 ^ 970 := (Numeral.isFinite_iff hzero).mp (by decide +kernel)
  refine ⟨⟨hinside, hbelow, ?_⟩, ⟨houtside, hbeyond, ?_⟩, ⟨htiny, hsmall, ?_⟩, ⟨hzero, hnothing, ?_⟩,
    hunfinished, ?_⟩
  · exact ((tokenize_numeral {} hinside (by decide +kernel)).1 (by decide)).1 hbelow
  · exact ((tokenize_numeral {} houtside (by decide +kernel)).1 (by decide)).2 hbeyond
  · exact ((tokenize_numeral {} htiny (by decide +kernel)).1 (by decide)).1 hsmall
  · exact ((tokenize_numeral {} hzero (by decide +kernel)).1 (by decide)).1 hnothing
  · exact (tokenize_numeral {} hunfinished (by decide +kernel)).2 ⟨_, rfl, rfl⟩

end ScimLdap.Filter
