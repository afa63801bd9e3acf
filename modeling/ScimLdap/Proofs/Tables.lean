import ScimLdap.Mapping.Builtin

/-!
# Tables — what every mapping of a table has

A table is made by putting in mappings one after the other, and a path is answered with one of them or not at
all. So a property that every mapping had when it was put in is one of whatever a path is resolved to
(`All.insertAll`, `All.find?`).
-/

namespace ScimLdap.Mapping.Table

variable {t : Table} {m : Mapping} {path : AttrPath} {P : Mapping → Prop}

def All (P : Mapping → Prop) (t : Table) : Prop :=
  ∀ e ∈ t.entries.toList, P e.2

theorem all_empty (P : Mapping → Prop) (entity : Entity) (caseSensitive : Bool) :
    (⟨entity, caseSensitive, {}⟩ : Table).All P :=
  fun _ he => absurd he List.not_mem_nil

theorem All.insert (h : t.All P) (name : String) (hm : P m) : (t.insert name m).All P := by
  intro e he
  rcases Text.mem_insertSorted he with rfl | he
  · exact hm
  · exact h e he

theorem All.insertAll {entries : List (String × Mapping)} (h : t.All P) (hm : ∀ e ∈ entries, P e.2) :
    (t.insertAll entries).All P := by
  induction entries generalizing t with
  | nil => exact h
  | cons e entries ih =>
    exact ih (h.insert e.1 (hm e List.mem_cons_self)) fun a ha => hm a (List.mem_cons_of_mem e ha)

theorem All.find? (h : t.All P) (hm : t.find? path = some m) : P m := by
  have hget : ∀ key, t.entries.get? key = some m → P m := by
    intro key hk
    exact h (key, m) (Text.Dictionary.get?_eq_some_iff.mp hk)
  rw [Table.find?, Option.or_eq_some_iff] at hm
  rcases hm with hm | ⟨-, hm⟩
  · exact hget _ hm
  · split at hm
    · exact hget _ hm
    · cases hm

theorem find?_of_resolve (h : t.resolve path = .ok m) : t.find? path = some m := by
  unfold Table.resolve at h
  split at h
  · next hm =>
    cases h
    exact hm
  · cases h

theorem find?_of_get? (h : t.entries.get? (t.key path.logicalName) = some m) : t.find? path = some m :=
  Option.or_eq_some_iff.mpr (.inl h)

theorem resolve_of_find? (h : t.find? path = some m) : t.resolve path = .ok m := by
  rw [Table.resolve, h]

theorem resolve_of_find?_eq_none (h : t.find? path = none) :
    t.resolve path = .error ⟨path.logicalName, t.entity⟩ := by
  rw [Table.resolve, h]

theorem entity_insertAll (t : Table) (entries : List (String × Mapping)) :
    (t.insertAll entries).entity = t.entity := by
  induction entries generalizing t with
  | nil => rfl
  | cons e entries ih => exact ih (t.insert e.1 e.2)

end ScimLdap.Mapping.Table

namespace ScimLdap.Mapping.Registry

/-- An entity has the last table that was given for it. -/
theorem get?_ofTables (tables : List Table) (entity : Entity) :
    (ofTables tables).get? entity = tables.findRev? (fun t => t.entity == entity) := by
  have hfold : ∀ r : Registry, (tables.foldl (fun r t => r.insert t.entity t) r).get? entity =
      (tables.findRev? (fun t => t.entity == entity)).or (r.get? entity) := by
    induction tables with
    | nil => exact fun r => rfl
    | cons t tables ih =>
      intro r
      rw [List.foldl_cons, ih, ByEntity.get?_insert, List.findRev?]
      cases tables.findRev? (fun t => t.entity == entity) with
      | some u => rfl
      | none =>
        simp only [beq_iff_eq, eq_comm (a := t.entity)]
        by_cases h : entity = t.entity <;> simp [h]
  rw [ofTables, hfold]
  cases entity <;> exact Option.or_none

/-- Where a table was given for an entity there is one, and it is one of that entity. -/
theorem exists_of_mem {tables : List Table} {entity : Entity} (h : ∃ t ∈ tables, t.entity = entity) :
    ∃ t, (ofTables tables).get? entity = some t ∧ t.entity = entity := by
  rw [get?_ofTables, List.findRev?_eq_find?_reverse]
  obtain ⟨t, ht, hentity⟩ := h
  have hsome : (tables.reverse.find? (fun t => t.entity == entity)).isSome = true := by
    rw [List.find?_isSome]
    exact ⟨t, List.mem_reverse.mpr ht, beq_iff_eq.mpr hentity⟩
  obtain ⟨u, hu⟩ := Option.isSome_iff_exists.mp hsome
  exact ⟨u, hu, by simpa using List.find?_some hu⟩

end ScimLdap.Mapping.Registry
