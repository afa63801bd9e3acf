import ScimLdap.Decimal.Numeral
import ScimLdap.Proofs.Runs

/-!
# Numerals — scanning finds what was written

`Shape` is the form of a numeral as the grammar of numbers has it, but for the digits of the exponent, which
may be missing: that a numeral is malformed is a fact about its form and not a failure of scanning. A
numeral of that form is scanned back part by part where the text does not go on with a character that one of
the parts could take (`scan_append`), and all that scanning yields has the form (`shape_scan`). `Unextended`
says of a text that follows what scanning itself found out about it, which is less.
-/

namespace ScimLdap.Decimal

open Text (Stops stops_nil stops_cons stops_dropWhile stops_of_takeWhile_eq_nil
  takeWhile_append_of_stops dropWhile_append_of_stops)

namespace Numeral

/-! ## The form of a numeral -/

/-- At most one sign. -/
def IsSign (cs : List Char) : Prop :=
  cs = [] ∨ cs = ['-'] ∨ cs = ['+']

/-- A numeral of the form sign, digits, fraction, exponent, the digits of the exponent left open. -/
structure Shape (n : Numeral) : Prop where
  sign : IsSign n.sign
  whole_ne_nil : n.whole ≠ []
  whole : ∀ d ∈ n.whole, d.isDigit = true
  fraction : ∀ d ∈ n.fraction, d.isDigit = true
  mark : ∀ e ∈ n.exponent, e.mark = 'e' ∨ e.mark = 'E'
  exponentSign : ∀ e ∈ n.exponent, IsSign e.sign
  digits : ∀ e ∈ n.exponent, ∀ d ∈ e.digits, d.isDigit = true

theorem isExponentMark_iff {c : Char} : isExponentMark c = true ↔ c = 'e' ∨ c = 'E' := by
  simp [isExponentMark]

theorem Shape.isExponentMark {n : Numeral} (hn : n.Shape) :
    ∀ e ∈ n.exponent, Numeral.isExponentMark e.mark = true :=
  fun e he => isExponentMark_iff.mpr (hn.mark e he)

/-- A character that a part of a numeral could take. -/
def continues (c : Char) : Bool :=
  c.isDigit || isExponentMark c || c == '.' || c == '-' || c == '+'

variable {n : Numeral} {ds r s mid rest rest' x y : List Char}

theorem stops_isDigit (h : Stops continues r) : Stops Char.isDigit r := by
  intro c hc
  have := h c hc
  simp only [continues, Bool.or_eq_false_iff] at this
  exact this.1.1.1.1

theorem scanDigits_append (hds : ∀ d ∈ ds, d.isDigit = true) (hr : Stops Char.isDigit r) :
    scanDigits (ds ++ r) = (ds, r) := by
  rw [scanDigits, takeWhile_append_of_stops hds hr, dropWhile_append_of_stops hds hr]

/-- A character outside the numeral's own signs is not taken for one. -/
theorem scanSign_append (hs : IsSign s) (hr : ∀ c ∈ r.head?, c ≠ '-' ∧ c ≠ '+') :
    scanSign (s ++ r) = (s, r) := by
  rcases hs with rfl | rfl | rfl
  · rw [List.nil_append]
    unfold scanSign
    split
    · exact absurd rfl (hr '-' rfl).1
    · exact absurd rfl (hr '+' rfl).2
    · rfl
  · rfl
  · rfl

theorem ne_sign_of_isDigit {c : Char} (h : c.isDigit = true) : c ≠ '-' ∧ c ≠ '+' := by
  constructor <;> (rintro rfl; exact absurd h (by decide))

theorem head?_append_of_ne_nil (hne : ds ≠ []) : (ds ++ r).head? = ds.head? := by
  cases ds with
  | nil => exact absurd rfl hne
  | cons d ds => rfl

theorem digits_ne_sign (hds : ∀ d ∈ ds, d.isDigit = true)
    (hr : ∀ c ∈ r.head?, c ≠ '-' ∧ c ≠ '+') : ∀ c ∈ (ds ++ r).head?, c ≠ '-' ∧ c ≠ '+' := by
  cases ds with
  | nil => exact hr
  | cons d ds =>
    intro c hc
    cases hc
    exact ne_sign_of_isDigit (hds d List.mem_cons_self)

theorem stops_ne_sign (h : Stops continues r) : ∀ c ∈ r.head?, c ≠ '-' ∧ c ≠ '+' := by
  intro c hc
  have := h c hc
  simp only [continues, Bool.or_eq_false_iff, beq_eq_false_iff_ne] at this
  exact ⟨this.1.2, this.2⟩

theorem scanExponent_append {e : Option Exponent} (hm : ∀ x ∈ e, isExponentMark x.mark = true)
    (hs : ∀ x ∈ e, IsSign x.sign) (hd : ∀ x ∈ e, ∀ d ∈ x.digits, d.isDigit = true)
    (hr : Stops continues r) : scanExponent (exponentChars e ++ r) = (e, r) := by
  cases e with
  | none =>
    cases r with
    | nil => rfl
    | cons c r =>
      have := hr c rfl
      simp only [continues, Bool.or_eq_false_iff] at this
      simp [exponentChars, scanExponent, this.1.1.1.2]
  | some e =>
    have hdigits := hd e rfl
    rw [exponentChars, List.cons_append, List.append_assoc, scanExponent, if_pos (hm e rfl),
      scanSign_append (hs e rfl) (digits_ne_sign hdigits (stops_ne_sign hr))]
    simp only
    rw [scanDigits_append hdigits (stops_isDigit hr)]

/-- What may follow a fraction is no point that a digit follows, and what follows an exponent mark is the
    exponent's. -/
theorem scanFraction_append (hds : ∀ d ∈ ds, d.isDigit = true) (hr : Stops Char.isDigit r)
    (hpoint : ∀ c ∈ r.head?, c ≠ '.') : scanFraction (fractionChars ds ++ r) = (ds, r) := by
  cases ds with
  | nil =>
    rw [fractionChars, List.nil_append]
    unfold scanFraction
    split
    · exact absurd rfl (hpoint '.' rfl)
    · rfl
  | cons d ds =>
    show scanFraction ('.' :: (d :: ds ++ r)) = _
    rw [scanFraction, scanDigits_append hds hr]
    rfl

theorem ne_of_isExponentMark {c : Char} (h : isExponentMark c = true) :
    c.isDigit = false ∧ c ≠ '.' := by
  rcases isExponentMark_iff.mp h with rfl | rfl <;> decide

/-- The characters after the digits before the point: no digit is among those they may begin with. -/
theorem stops_exponentChars {e : Option Exponent} (hm : ∀ x ∈ e, isExponentMark x.mark = true)
    (hr : Stops continues r) :
    Stops Char.isDigit (exponentChars e ++ r) ∧ ∀ c ∈ (exponentChars e ++ r).head?, c ≠ '.' := by
  cases e with
  | none =>
    refine ⟨stops_isDigit hr, fun c hc => ?_⟩
    have := hr c hc
    simp only [continues, Bool.or_eq_false_iff, beq_eq_false_iff_ne] at this
    exact this.1.1.2
  | some e =>
    obtain ⟨hdigit, hpoint⟩ := ne_of_isExponentMark (hm e rfl)
    refine ⟨stops_cons hdigit _, fun c hc => ?_⟩
    cases hc
    exact hpoint

theorem stops_fractionChars (hr : Stops Char.isDigit r) : Stops Char.isDigit (fractionChars ds ++ r) := by
  cases ds with
  | nil => exact hr
  | cons d ds => intro c hc; cases hc; decide

/-- A numeral is scanned back where each of its parts is. -/
theorem scan_append_of_parts (hn : n.Shape)
    (hexponent : scanExponent (exponentChars n.exponent ++ r) = (n.exponent, r))
    (hdigit : Stops Char.isDigit (exponentChars n.exponent ++ r))
    (hfraction : scanFraction (fractionChars n.fraction ++ (exponentChars n.exponent ++ r))
      = (n.fraction, exponentChars n.exponent ++ r)) : scan (n.chars ++ r) = (n, r) := by
  have hsign : ∀ c ∈ (n.whole ++ (fractionChars n.fraction ++ (exponentChars n.exponent ++ r))).head?,
      c ≠ '-' ∧ c ≠ '+' := by
    rw [head?_append_of_ne_nil hn.whole_ne_nil]
    exact fun c hc => ne_sign_of_isDigit (hn.whole c (List.mem_of_mem_head? hc))
  simp only [scan, chars, List.append_assoc]
  rw [scanSign_append hn.sign hsign]
  simp only
  rw [scanDigits_append hn.whole (stops_fractionChars hdigit)]
  simp only
  rw [hfraction]
  simp only
  rw [hexponent]

/-- A numeral is scanned back where the text does not continue it. -/
theorem scan_append (hn : n.Shape) (hr : Stops continues r) : scan (n.chars ++ r) = (n, r) := by
  obtain ⟨hexp, hpoint⟩ := stops_exponentChars hn.isExponentMark hr
  exact scan_append_of_parts hn (scanExponent_append hn.isExponentMark hn.exponentSign hn.digits hr) hexp
    (scanFraction_append hn.fraction hexp hpoint)

/-! ## What is scanned has the form -/

theorem isSign_scanSign (cs : List Char) : IsSign (scanSign cs).1 := by
  unfold scanSign
  split
  · exact .inr (.inl rfl)
  · exact .inr (.inr rfl)
  · exact .inl rfl

theorem isDigit_scanDigits (cs : List Char) : ∀ d ∈ (scanDigits cs).1, d.isDigit = true :=
  List.all_eq_true.mp List.all_takeWhile

theorem isDigit_scanFraction (cs : List Char) : ∀ d ∈ (scanFraction cs).1, d.isDigit = true := by
  unfold scanFraction
  split
  · split
    · exact fun d hd => absurd hd List.not_mem_nil
    · exact isDigit_scanDigits _
  · exact fun d hd => absurd hd List.not_mem_nil

theorem scanExponent_eq_some {cs : List Char} {e : Exponent} (h : (scanExponent cs).1 = some e) :
    isExponentMark e.mark = true ∧ IsSign e.sign ∧ ∀ d ∈ e.digits, d.isDigit = true := by
  cases cs with
  | nil => cases h
  | cons c cs =>
    simp only [scanExponent] at h
    split at h
    · next hm =>
      cases h
      exact ⟨hm, isSign_scanSign cs, isDigit_scanDigits _⟩
    · cases h

/-- Scanning yields a numeral of the form if it finds a digit. -/
theorem shape_scan {cs : List Char} (h : (scan cs).1.whole ≠ []) : (scan cs).1.Shape where
  sign := isSign_scanSign cs
  whole_ne_nil := h
  whole := isDigit_scanDigits _
  fraction := isDigit_scanFraction _
  mark := fun _ he => isExponentMark_iff.mp (scanExponent_eq_some he).1
  exponentSign := fun _ he => (scanExponent_eq_some he).2.1
  digits := fun _ he => (scanExponent_eq_some he).2.2

/-- A numeral has no characters but those of its parts. -/
theorem Shape.continues (hn : n.Shape) : ∀ c ∈ n.chars, continues c = true := by
  have hdigit : ∀ c : Char, c.isDigit = true → Numeral.continues c = true := fun c hc => by
    simp [Numeral.continues, hc]
  have hsign : ∀ cs : List Char, IsSign cs → ∀ c ∈ cs, Numeral.continues c = true := by
    rintro cs (rfl | rfl | rfl) c hc
    · exact absurd hc List.not_mem_nil
    · rw [List.mem_singleton.mp hc]; decide
    · rw [List.mem_singleton.mp hc]; decide
  intro c hc
  simp only [chars, List.mem_append] at hc
  rcases hc with ((hc | hc) | hc) | hc
  · exact hsign _ hn.sign c hc
  · exact hdigit c (hn.whole c hc)
  · cases hf : n.fraction with
    | nil => rw [hf] at hc; exact absurd hc List.not_mem_nil
    | cons d ds =>
      rw [hf] at hc
      rcases List.mem_cons.mp hc with rfl | hc
      · decide
      · exact hdigit c (hn.fraction c (hf ▸ hc))
  · cases he : n.exponent with
    | none => rw [he] at hc; exact absurd hc List.not_mem_nil
    | some e =>
      rw [he] at hc
      simp only [exponentChars, List.mem_append, List.mem_cons] at hc
      rcases hc with rfl | hc | hc
      · simp [Numeral.continues, hn.isExponentMark e he]
      · exact hsign _ (hn.exponentSign e he) c hc
      · exact hdigit c (hn.digits e he c hc)

/-! ## Where a numeral ends

What must not follow a numeral depends on its parts, and shows in the two next characters at most. -/

/-- The text after a numeral does not go on with it: no digit, no mark of an exponent where there is none yet,
    no point with a digit after it where there is no fraction yet. -/
structure Unextended (n : Numeral) (r : List Char) : Prop where
  digit : Stops Char.isDigit r
  mark : n.exponent = none → Stops isExponentMark r
  point : n.exponent = none → n.fraction = [] → ∀ t, r = '.' :: t → Stops Char.isDigit t

theorem stops_scanFraction (hx : Stops Char.isDigit x) : Stops Char.isDigit (scanFraction x).2 := by
  unfold scanFraction
  split
  · split
    · exact hx
    · exact stops_dropWhile _ _
  · exact hx

theorem scanFraction_eq_nil (h : (scanFraction x).1 = []) :
    (scanFraction x).2 = x ∧ ∀ t, x = '.' :: t → Stops Char.isDigit t := by
  by_cases hpoint : ∃ t, x = '.' :: t
  · obtain ⟨t, rfl⟩ := hpoint
    have hnil : (scanDigits t).1 = [] := by
      rw [scanFraction] at h
      split at h
      · next hempty => exact List.isEmpty_iff.mp hempty
      · exact h
    refine ⟨by rw [scanFraction, hnil]; rfl, fun u hu => ?_⟩
    cases hu
    exact stops_of_takeWhile_eq_nil hnil
  · refine ⟨?_, fun t ht => absurd ⟨t, ht⟩ hpoint⟩
    unfold scanFraction
    split
    · next t => exact absurd ⟨t, rfl⟩ hpoint
    · rfl

theorem stops_scanExponent (hy : Stops Char.isDigit y) : Stops Char.isDigit (scanExponent y).2 := by
  unfold scanExponent
  split
  · split
    · exact stops_dropWhile _ _
    · exact hy
  · exact hy

theorem scanExponent_eq_none (h : (scanExponent y).1 = none) :
    (scanExponent y).2 = y ∧ Stops isExponentMark y := by
  cases y with
  | nil => exact ⟨rfl, stops_nil _⟩
  | cons c cs =>
    rw [scanExponent] at h ⊢
    split at h
    · cases h
    · next hm => exact ⟨by rw [if_neg hm], stops_cons (by simpa using hm) cs⟩

theorem unextended_of_scan (h : scan (n.chars ++ r) = (n, r)) : n.Unextended r := by
  simp only [scan, Prod.mk.injEq] at h
  generalize hx : (scanDigits (scanSign (n.chars ++ r)).2).2 = x at h
  obtain ⟨hn, rfl⟩ := h
  have hfraction : (scanFraction x).1 = n.fraction := congrArg Numeral.fraction hn
  have hexponent : (scanExponent (scanFraction x).2).1 = n.exponent := congrArg Numeral.exponent hn
  have hdigit : Stops Char.isDigit x := hx ▸ stops_dropWhile _ _
  refine ⟨stops_scanExponent (stops_scanFraction hdigit), fun he => ?_, fun he hf => ?_⟩
  · obtain ⟨hrest, hstops⟩ := scanExponent_eq_none (hexponent.trans he)
    rwa [hrest]
  · rw [(scanExponent_eq_none (hexponent.trans he)).1]
    obtain ⟨hrest, hpoint⟩ := scanFraction_eq_nil (hfraction.trans hf)
    rwa [hrest]

/-- A point without a digit after it is no part of the numeral. -/
theorem scanFraction_eq_self (h : ∀ t, x = '.' :: t → Stops Char.isDigit t) :
    scanFraction x = ([], x) := by
  unfold scanFraction
  split
  · next t =>
    have ht : ([] ++ t).takeWhile Char.isDigit = [] :=
      takeWhile_append_of_stops (by simp) (h t rfl)
    rw [List.nil_append] at ht
    rw [scanDigits, ht]
    rfl
  · rfl

/-- A numeral that is not malformed is scanned back before any text that does not go on with it. -/
theorem scan_append_of_unextended (hn : n.Shape) (hm : n.isMalformed = false) (hr : n.Unextended r) :
    scan (n.chars ++ r) = (n, r) := by
  cases he : n.exponent with
  | none =>
    have hexponent : scanExponent r = (none, r) := by
      cases r with
      | nil => rfl
      | cons c r => rw [scanExponent, if_neg (by simp [hr.mark he c rfl])]
    refine scan_append_of_parts hn ?_ ?_ ?_ <;> rw [he]
    · exact hexponent
    · exact hr.digit
    cases hf : n.fraction with
    | nil =>
      exact scanFraction_eq_self (hr.point he hf)
    | cons d ds =>
      have hds := hn.fraction
      rw [hf] at hds
      show scanFraction ('.' :: (d :: ds ++ r)) = (d :: ds, r)
      rw [scanFraction, scanDigits_append hds hr.digit]
      rfl
  | some e =>
    have hne : e.digits ≠ [] := by simpa [isMalformed, he] using hm
    have hdigits := hn.digits e he
    -- The mark belongs to no other part, so the parts before it end there.
    obtain ⟨hmark, hpoint⟩ := ne_of_isExponentMark (hn.isExponentMark e he)
    have hsign : ∀ c ∈ (e.digits ++ r).head?, c ≠ '-' ∧ c ≠ '+' := by
      rw [head?_append_of_ne_nil hne]
      exact fun c hc => ne_sign_of_isDigit (hdigits c (List.mem_of_mem_head? hc))
    refine scan_append_of_parts hn ?_ ?_ ?_ <;> rw [he]
    · rw [exponentChars, List.cons_append, List.append_assoc, scanExponent, if_pos (hn.isExponentMark e he),
        scanSign_append (hn.exponentSign e he) hsign]
      simp only
      rw [scanDigits_append hdigits hr.digit]
    · exact stops_cons hmark _
    · refine scanFraction_append hn.fraction (stops_cons hmark _) (fun c hc => ?_)
      cases hc
      exact hpoint

/-- Only the two next characters matter, and of a text that continues nothing no character does. -/
theorem Unextended.swap (h : n.Unextended (mid ++ rest)) (hr : Stops continues rest') :
    n.Unextended (mid ++ rest') := by
  have hdigit := stops_isDigit hr
  match mid with
  | [] =>
    refine ⟨hdigit, fun _ => hr.mono fun c hc => ?_, fun _ _ t ht => ?_⟩
    · simp only [continues, Bool.or_eq_false_iff] at hc
      exact hc.1.1.1.2
    · exact absurd (hr '.' (by rw [show rest' = '.' :: t from ht]; rfl)) (by decide)
  | [c] =>
    refine ⟨fun d hd => h.digit d hd, fun he d hd => h.mark he d hd, fun _ _ t ht => ?_⟩
    cases ht
    exact hdigit
  | c :: d :: mid =>
    refine ⟨fun d hd => h.digit d hd, fun he d hd => h.mark he d hd, fun he hf t ht => ?_⟩
    cases ht
    exact fun e hd => h.point he hf _ rfl e hd

end Numeral

end ScimLdap.Decimal
