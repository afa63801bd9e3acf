/-!
# Outcomes — what a success came from, and how a chain may fail

Reading and translating are chains of steps that may fail. A chain that succeeds did so at every step, which
is what proofs about it begin with. A chain fails only in the ways in which one of its steps can fail
(`FailsWith`).
-/

namespace ScimLdap.Outcome

variable {ε ε' α β : Type} {outcome : Except ε α}

theorem map_eq_ok_iff {f : α → β} {b : β} :
    outcome.map f = .ok b ↔ ∃ a, outcome = .ok a ∧ f a = b := by
  cases outcome with
  | error e =>
    constructor
    · intro h
      cases h
    · rintro ⟨a, h, -⟩
      cases h
  | ok a =>
    constructor
    · intro h
      exact ⟨a, rfl, Except.ok.inj h⟩
    · rintro ⟨a', h, rfl⟩
      cases h
      rfl

theorem map_eq_error_iff {f : α → β} {e : ε} : outcome.map f = .error e ↔ outcome = .error e := by
  cases outcome with
  | error e' =>
    constructor
    · intro h
      cases h
      rfl
    · intro h
      cases h
      rfl
  | ok a =>
    constructor
    · intro h
      cases h
    · intro h
      cases h

theorem bind_eq_ok_iff {f : α → Except ε β} {b : β} :
    outcome.bind f = .ok b ↔ ∃ a, outcome = .ok a ∧ f a = .ok b := by
  cases outcome with
  | error e =>
    constructor
    · intro h
      cases h
    · rintro ⟨a, h, -⟩
      cases h
  | ok a =>
    constructor
    · intro h
      exact ⟨a, rfl, h⟩
    · rintro ⟨a', h, hf⟩
      cases h
      exact hf

/-- Naming an error otherwise makes no success of it. -/
theorem mapError_eq_ok_iff {f : ε → ε'} {a : α} : outcome.mapError f = .ok a ↔ outcome = .ok a := by
  cases outcome with
  | error e =>
    constructor
    · intro h
      cases h
    · intro h
      cases h
  | ok a' =>
    constructor
    · intro h
      cases h
      rfl
    · intro h
      cases h
      rfl

theorem mapError_map (outcome : Except ε α) (f : α → β) (g : ε → ε') :
    (outcome.map f).mapError g = (outcome.mapError g).map f := by
  cases outcome <;> rfl

/-- Two outcomes that are equal up to what an error is mapped to. -/
theorem mapError_eq_mapError_iff {other : Except ε α} {f : ε → ε'} :
    outcome.mapError f = other.mapError f ↔
      (∃ a, outcome = .ok a ∧ other = .ok a) ∨
        ∃ e e', outcome = .error e ∧ other = .error e' ∧ f e = f e' := by
  have herror : ∀ e, (Except.error e : Except ε α).mapError f = .error (f e) := fun _ => rfl
  have hok : ∀ a, (Except.ok a : Except ε α).mapError f = .ok a := fun _ => rfl
  cases outcome <;> cases other <;> simp [herror, hok, eq_comm]

theorem toOption_bind (outcome : Except ε α) (f : α → Except ε β) :
    (outcome.bind f).toOption = outcome.toOption.bind (fun a => (f a).toOption) := by
  cases outcome <;> rfl

/-! ## Ways to fail -/

/-- If the outcome is an error, the error has a property. -/
def FailsWith (P : ε → Prop) (outcome : Except ε α) : Prop :=
  ∀ e, outcome = .error e → P e

variable {P : ε → Prop}

theorem failsWith_ok (a : α) : FailsWith P (.ok a : Except ε α) := by
  intro e he
  cases he

theorem FailsWith.map (h : FailsWith P outcome) (f : α → β) : FailsWith P (outcome.map f) := by
  intro e he
  exact h e (map_eq_error_iff.mp he)

theorem FailsWith.bind {f : α → Except ε β} (h : FailsWith P outcome) (hf : ∀ a, FailsWith P (f a)) :
    FailsWith P (outcome.bind f) := by
  intro e he
  cases outcome with
  | error e' =>
    cases he
    exact h e rfl
  | ok a => exact hf a e he

/-- An error has what every error has under its new name. -/
theorem failsWith_mapError {f : ε' → ε} (hf : ∀ e, P (f e)) (outcome : Except ε' α) :
    FailsWith P (outcome.mapError f) := by
  intro e he
  cases outcome with
  | error e' =>
    cases he
    exact hf e'
  | ok a => cases he

end ScimLdap.Outcome
