/-!
# Dictionaries — one value per key, in the order of the keys

A dictionary is a list of keys and values in strictly rising order of the keys, so that two dictionaries
with the same look-ups are the same list and listing one needs no sorting. The order of texts is that of
their code points, which is also the order of their bytes in UTF-8.

`insert` is one pass that replaces on collision. Its two look-up laws need nothing of the list, so they hold
of every list of pairs and the order is kept as a fact of its own.
-/

namespace ScimLdap.Text

section
variable {α : Type}

/-- Pairs in strictly rising order of their keys. -/
def Rising (entries : List (String × α)) : Prop :=
  entries.Pairwise (fun a b => a.1 < b.1)

/-- Puts a value under a key, in its place by the order of keys; a value under the same key goes. -/
def insertSorted (key : String) (value : α) : List (String × α) → List (String × α)
  | [] => [(key, value)]
  | (k, v) :: rest =>
    if key < k then (key, value) :: (k, v) :: rest
    else if key = k then (key, value) :: rest
    else (k, v) :: insertSorted key value rest

theorem mem_insertSorted {key : String} {value : α} {e : String × α} {entries : List (String × α)}
    (h : e ∈ insertSorted key value entries) : e = (key, value) ∨ e ∈ entries := by
  induction entries with
  | nil => simpa [insertSorted] using h
  | cons kv rest ih =>
    simp only [insertSorted] at h
    split at h
    · simpa using h
    split at h
    · rcases List.mem_cons.1 h with h | h
      · exact .inl h
      · exact .inr (List.mem_cons_of_mem _ h)
    · rcases List.mem_cons.1 h with h | h
      · exact .inr (h ▸ List.mem_cons_self ..)
      · exact (ih h).imp id (List.mem_cons_of_mem _)

theorem Rising.insertSorted {entries : List (String × α)} (h : Rising entries) (key : String)
    (value : α) : Rising (insertSorted key value entries) := by
  induction entries with
  | nil => simp [Text.insertSorted, Rising]
  | cons kv rest ih =>
    have hr : Rising rest := List.Pairwise.of_cons h
    have hk : ∀ e ∈ rest, kv.1 < e.1 := fun e he => List.rel_of_pairwise_cons h he
    simp only [Text.insertSorted]
    split
    · rename_i hlt
      refine List.Pairwise.cons (fun e he => ?_) h
      rcases List.mem_cons.1 he with rfl | he
      · exact hlt
      · exact String.lt_trans hlt (hk e he)
    split
    · rename_i heq
      exact List.Pairwise.cons (fun e he => heq ▸ hk e he) hr
    · rename_i hnlt hne
      refine List.Pairwise.cons (fun e he => ?_) (ih hr)
      rcases mem_insertSorted he with rfl | he
      · exact Classical.byContradiction fun hn =>
          hne (String.le_antisymm (String.not_lt.1 hn) (String.not_lt.1 hnlt))
      · exact hk e he

theorem lookup_insertSorted (key k : String) (value : α) (entries : List (String × α)) :
    (insertSorted key value entries).lookup k = if k = key then some value else entries.lookup k := by
  have cons (k' : String) (v : α) (rest : List (String × α)) :
      ((k', v) :: rest).lookup k = if k = k' then some v else rest.lookup k := by
    by_cases h : k = k' <;> simp [List.lookup_cons, h, beq_eq_false_iff_ne.2]
  induction entries with
  | nil => simp [insertSorted, cons]
  | cons kv rest ih =>
    obtain ⟨k', v'⟩ := kv
    simp only [insertSorted]
    split
    · simp only [cons]
    split
    · rename_i heq
      subst heq
      simp only [cons]
      split <;> rfl
    · rename_i hne
      simp only [cons, ih]
      by_cases h : k = k'
      · simp [h, Ne.symm hne]
      · simp [h]

end

theorem rising_nil (α : Type) : Rising ([] : List (String × α)) :=
  List.Pairwise.nil

/-- One value per key. The order is a field, so two dictionaries that answer alike are equal. -/
structure Dictionary (α : Type) where
  toList : List (String × α) := []
  rising : Rising toList := by exact ScimLdap.Text.rising_nil _

namespace Dictionary

section
variable {α : Type}

instance : Inhabited (Dictionary α) := ⟨{}⟩

def empty : Dictionary α := {}

def get? (d : Dictionary α) (key : String) : Option α :=
  d.toList.lookup key

def insert (d : Dictionary α) (key : String) (value : α) : Dictionary α :=
  ⟨insertSorted key value d.toList, d.rising.insertSorted key value⟩

/-- The dictionary of pairs, of which a later one replaces an earlier one with the same key. -/
def ofList (entries : List (String × α)) : Dictionary α :=
  entries.foldl (fun d e => d.insert e.1 e.2) empty

def size (d : Dictionary α) : Nat :=
  d.toList.length

@[simp] theorem get?_empty (key : String) : (empty : Dictionary α).get? key = none := rfl

theorem get?_insert (d : Dictionary α) (key k : String) (value : α) :
    (d.insert key value).get? k = if k = key then some value else d.get? k :=
  lookup_insertSorted key k value d.toList

/-- What is under a key is what is listed with it. -/
theorem get?_eq_some_iff {d : Dictionary α} {key : String} {value : α} :
    d.get? key = some value ↔ (key, value) ∈ d.toList := by
  obtain ⟨entries, rising⟩ := d
  simp only [get?]
  induction entries with
  | nil => simp
  | cons kv rest ih =>
    have hrest : Rising rest := List.Pairwise.of_cons rising
    have hlater : ∀ e ∈ rest, kv.1 < e.1 := fun e he => List.rel_of_pairwise_cons rising he
    rw [List.lookup_cons, List.mem_cons]
    cases hk : key == kv.1 with
    | true =>
      have hkey : key = kv.1 := eq_of_beq hk
      constructor
      · intro h
        exact .inl (Prod.ext hkey (Option.some.inj h).symm)
      · rintro (rfl | h)
        · rfl
        · exact absurd (hlater _ h) (hkey ▸ String.lt_irrefl _)
    | false =>
      rw [ih hrest, or_iff_right]
      rintro rfl
      simp at hk

end

end Dictionary

end ScimLdap.Text
