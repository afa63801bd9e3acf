/-!
# Range — which decimal numbers a 64-bit float can hold

A number literal is kept as it is written and never rounded, but one too large for a 64-bit float is
refused. Rounding to nearest with ties to even sends a magnitude to infinity exactly from
`2 ^ 1024 - 2 ^ 970` on, the middle between the largest float and the next power of two. So the test is one
comparison of integers, with no float in it. `inRange_iff` says that the two shortcuts, which keep the
powers of ten small, change nothing.
-/

namespace ScimLdap.Decimal

def ofDigits (digits : List Char) : Nat :=
  digits.foldl (fun n d => 10 * n + (d.toNat - '0'.toNat)) 0

/-- Ten to a power, under a name of its own so that no power is computed before a comparison needs it. -/
def tenTo (n : Nat) : Nat :=
  Nat.pow 10 n

theorem tenTo_succ (n : Nat) : tenTo (n + 1) = tenTo n * 10 := rfl

theorem tenTo_pos (n : Nat) : 0 < tenTo n :=
  Nat.pow_pos (by decide)

theorem tenTo_le {m n : Nat} (h : m ≤ n) : tenTo m ≤ tenTo n :=
  Nat.pow_le_pow_right (by decide) h

/-- The least magnitude that rounds to infinity: the middle between the largest float and `2 ^ 1024`, which
    rounds up because the largest float is odd. -/
def overflowBound : Nat :=
  Nat.pow 2 1024 - Nat.pow 2 970

/-- Whether the digits, as a whole number `m`, and the scale `e` make an `m * 10 ^ e` below the bound. An
    exponent of any length may be written, so a power of ten is only computed where the answer is not clear
    without it. -/
def inRange (digits : List Char) (scale : Int) : Bool :=
  let m := ofDigits digits
  m == 0 ||
    match scale with
    | .ofNat up => up ≤ 308 && m * tenTo up < overflowBound
    | .negSucc n => digits.length ≤ n + 1 || m < overflowBound * tenTo (n + 1)

theorem ofDigits_lt (digits : List Char) (h : ∀ d ∈ digits, d.isDigit = true) :
    ofDigits digits < tenTo digits.length := by
  suffices H : ∀ (ds : List Char) (n : Nat), (∀ d ∈ ds, d.isDigit = true) →
      ds.foldl (fun n d => 10 * n + (d.toNat - '0'.toNat)) n < (n + 1) * tenTo ds.length by
    simpa [ofDigits] using H digits 0 h
  intro ds
  induction ds with
  | nil => intro n _; simp [tenTo]
  | cons d ds ih =>
    intro n hd
    have hdigit : d.toNat - '0'.toNat < 10 := by
      have := hd d (by simp)
      simp only [Char.isDigit, Bool.and_eq_true, decide_eq_true_eq] at this
      have h9 : d.toNat ≤ 57 := this.2
      have h0 : '0'.toNat = 48 := rfl
      omega
    refine Nat.lt_of_lt_of_le (ih _ (fun e he => hd e (by simp [he]))) ?_
    rw [List.length_cons, tenTo_succ, Nat.mul_comm (tenTo ds.length) 10, ← Nat.mul_assoc]
    refine Nat.mul_le_mul_right _ ?_
    show 10 * n + (d.toNat - '0'.toNat) + 1 ≤ (n + 1) * 10
    omega

/-- The shortcuts are exact: the test is the comparison `m * 10 ^ e < 2 ^ 1024 - 2 ^ 970`, with a negative scale
    moved to the other side. -/
theorem inRange_iff (digits : List Char) (scale : Int) (h : ∀ d ∈ digits, d.isDigit = true) :
    inRange digits scale = true ↔
      ofDigits digits * tenTo scale.toNat < overflowBound * tenTo (-scale).toNat := by
  have hone : tenTo 0 = 1 := rfl
  obtain ⟨k, hk, hb⟩ : ∃ k, k = 309 ∧ overflowBound ≤ tenTo k := ⟨309, rfl, by decide +kernel⟩
  have hpos : 0 < overflowBound := by decide +kernel
  have hlt := ofDigits_lt digits h
  simp only [inRange, Bool.or_eq_true, beq_iff_eq]
  cases scale with
  | ofNat up =>
    have hup : (-(Int.ofNat up)).toNat = 0 := by simp
    simp only [Bool.and_eq_true, decide_eq_true_eq, hup, hone, Nat.mul_one]
    show _ ↔ ofDigits digits * tenTo up < overflowBound
    constructor
    · rintro (h0 | ⟨_, h1⟩)
      · simpa [h0] using hpos
      · exact h1
    · intro h1
      by_cases h0 : ofDigits digits = 0
      · exact .inl h0
      · refine .inr ⟨Nat.le_of_not_lt fun hbig => Nat.not_le.mpr h1 (Nat.le_trans hb ?_), h1⟩
        exact Nat.le_trans (tenTo_le (by omega))
          (Nat.le_mul_of_pos_left _ (Nat.pos_of_ne_zero h0))
  | negSucc n =>
    have hneg : (-(Int.negSucc n)).toNat = n + 1 := rfl
    have hto : (Int.negSucc n).toNat = 0 := rfl
    simp only [Bool.or_eq_true, decide_eq_true_eq, hneg, hto, hone, Nat.mul_one]
    constructor
    · rintro (h0 | h1 | h1)
      · rw [h0]; exact Nat.mul_pos hpos (tenTo_pos _)
      · refine Nat.lt_of_lt_of_le hlt (Nat.le_trans (tenTo_le h1) ?_)
        exact Nat.le_mul_of_pos_left _ hpos
      · exact h1
    · exact fun h1 => .inr (.inr h1)

end ScimLdap.Decimal
