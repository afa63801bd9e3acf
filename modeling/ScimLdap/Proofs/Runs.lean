/-!
# Runs — characters of a class, and where they stop

Names, digits and values are runs of a class of characters, and a reader takes the longest. Where a run
stops is a fact about the text after it, so it is one that a text put together from parts can be asked for.
-/

namespace ScimLdap.Text

variable {p : Char → Bool} {ds es r s : List Char}

/-- The text is at its end or goes on with a character outside the class. -/
def Stops (p : Char → Bool) (r : List Char) : Prop :=
  ∀ c ∈ r.head?, p c = false

theorem stops_nil (p : Char → Bool) : Stops p [] :=
  fun _ h => by cases h

theorem stops_cons {c : Char} (h : p c = false) (r : List Char) : Stops p (c :: r) := by
  intro d hd
  cases hd
  exact h

theorem Stops.mono {q : Char → Bool} (h : Stops p r) (hpq : ∀ c, p c = false → q c = false) :
    Stops q r :=
  fun c hc => hpq c (h c hc)

/-- Where a run stops shows in the next character, so only that has to stay when the text is exchanged. -/
theorem Stops.swap {mid : List Char} (h : Stops p (mid ++ r)) (hs : Stops p s) :
    Stops p (mid ++ s) := by
  cases mid with
  | nil => exact hs
  | cons c mid => exact fun d hd => h d hd

theorem Stops.append (hr : Stops p r) (hs : Stops p s) : Stops p (r ++ s) :=
  Stops.swap (r := []) (by rwa [List.append_nil]) hs

theorem stops_dropWhile (p : Char → Bool) (cs : List Char) : Stops p (cs.dropWhile p) := by
  intro c hc
  have hnot := List.head?_dropWhile_not p cs
  rw [hc] at hnot
  exact hnot

theorem stops_of_takeWhile_eq_nil (h : r.takeWhile p = []) : Stops p r := by
  cases r with
  | nil => exact stops_nil p
  | cons c r =>
    refine stops_cons (Bool.eq_false_iff.mpr fun hc => ?_) r
    rw [List.takeWhile_cons_of_pos hc] at h
    cases h

theorem ne_of_outside {c d : Char} (hc : p c = true) (hd : p d = false) : c ≠ d := by
  rintro rfl
  rw [hc] at hd
  cases hd

theorem takeWhile_append_of_stops (hds : ∀ d ∈ ds, p d = true) (hr : Stops p r) :
    (ds ++ r).takeWhile p = ds := by
  rw [List.takeWhile_append_of_pos hds]
  cases r with
  | nil => exact List.append_nil ds
  | cons c r => rw [List.takeWhile_cons_of_neg (by simp [hr c rfl]), List.append_nil]

theorem dropWhile_append_of_stops (hds : ∀ d ∈ ds, p d = true) (hr : Stops p r) :
    (ds ++ r).dropWhile p = r := by
  rw [List.dropWhile_append_of_pos hds]
  cases r with
  | nil => rfl
  | cons c r => exact List.dropWhile_cons_of_neg (by simp [hr c rfl])

/-- A text has one longest run at its front. -/
theorem append_inj_of_stops (hds : ∀ d ∈ ds, p d = true) (hr : Stops p r)
    (hes : ∀ e ∈ es, p e = true) (hs : Stops p s) (h : ds ++ r = es ++ s) : ds = es ∧ r = s := by
  constructor
  · rw [← takeWhile_append_of_stops hds hr, h, takeWhile_append_of_stops hes hs]
  · rw [← dropWhile_append_of_stops hds hr, h, dropWhile_append_of_stops hes hs]

end ScimLdap.Text
