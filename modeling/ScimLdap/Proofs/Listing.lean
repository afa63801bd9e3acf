import ScimLdap.Proofs.Overlay
import ScimLdap.Proofs.Requests

/-!
# Listing — the request that asks for nothing in particular

A request without filter and sort attribute can only fail by the configured name to sort by, and only for
users, whose sort attributes go through their table. The checks of a configuration look at each setting by
itself and never hold that name against the table. So the plain request of users is served exactly when the
name is one that the built-in table or the configured mappings have (`plain_request_served`), and there are
configurations that meet every check and never serve it (`plain_request_not_served`).
-/

namespace ScimLdap

namespace Mapping.Table

variable {t : Table} {name : String}

/-- A name that is not answered is refused with itself. -/
theorem resolveName_eq_error (h : ¬∃ m, t.resolveName name = .ok m) :
    t.resolveName name = .error ⟨dotted name, t.entity⟩ := by
  rw [resolveName_eq] at h ⊢
  split at h
  next m hm => exact absurd ⟨m, rfl⟩ h
  next hnone => rfl

/-- A table that begins empty answers a name where something was written under its normal form, or for a bare
    name under that of its `value`. -/
theorem exists_resolveName_written_iff (entity : Entity) (caseSensitive : Bool)
    (writes : List (String × Mapping)) (name : String) :
    (∃ m, (insertAll { entity, caseSensitive } writes).resolveName name = .ok m) ↔
      ∃ key ∈ writes.map Prod.fst, normalName caseSensitive key = normalName caseSensitive name ∨
        isBare name = true ∧ normalName caseSensitive key = normalName caseSensitive (name ++ ".value") := by
  have hheld : ∀ k, ((insertAll { entity, caseSensitive } writes).entries.get? k).isSome = true ↔
      ∃ key ∈ writes.map Prod.fst, normalName caseSensitive key = k := by
    intro k
    rw [get?_written, lastWrite_isSome_iff]
    simp
  simp only [resolveName_eq_ok_iff, caseSensitive_insertAll, ← Option.isSome_iff_exists, Option.isSome_or,
    Bool.or_eq_true, hheld]
  by_cases hbare : isBare name = true
  · rw [if_pos hbare, ← normalName_value hbare, hheld, ← exists_or]
    simp only [hbare, true_and, and_or_left]
  · simp [hbare]

end Mapping.Table

namespace Config

variable {c : Config}

/-- Whether a name is one that the mappings of users have: a built-in name or a configured key has its normal
    form, or, where it is bare, that of its `value`. -/
def HasUserName (c : Config) (name : String) : Prop :=
  ∃ key ∈ (Mapping.builtinEntries .user).map Prod.fst ++ (c.writes .user).map Prod.fst,
    normalName c.filter.attributesCaseSensitive key = normalName c.filter.attributesCaseSensitive name ∨
      isBare name = true ∧ normalName c.filter.attributesCaseSensitive key =
        normalName c.filter.attributesCaseSensitive (name ++ ".value")

theorem table_eq_written (c : Config) (entity : Entity) :
    c.table entity = Mapping.Table.insertAll
      { entity, caseSensitive := c.filter.attributesCaseSensitive }
      (Mapping.builtinEntries entity ++ c.writes entity) := by
  rw [Mapping.Table.insertAll_append]
  rfl

theorem exists_resolveName_iff (c : Config) (name : String) :
    (∃ m, (c.table .user).resolveName name = .ok m) ↔ c.HasUserName name := by
  rw [table_eq_written, Mapping.Table.exists_resolveName_written_iff, List.map_append]
  rfl

theorem entity_table (c : Config) (entity : Entity) : (c.table entity).entity = entity := by
  rw [table_eq_written, Mapping.Table.entity_insertAll]

/-- The plain request, up to what it is sorted by. -/
theorem requestOfParams_plain (c : Config) (baseDn : String) (entity : Entity) (params : Search.Params) :
    c.builder.requestOfParams baseDn entity { params with filter := none, sortBy := none } =
      (c.builder.sortAttribute entity none).map fun sortBy => {
        baseDn, entity, filter := .present (c.table entity).matchAllAttribute,
        startIndex := Search.startIndex params.startIndex, count := c.paging.count params.count, sortBy,
        sortOrder := .ofValue params.sortOrder, returnAttributes := params.returnAttributes } :=
  Search.Builder.request_of_no_filter (b := c.builder) (get?_visitors c entity) baseDn
    { params with filter := none, sortBy := none } params.returnAttributes

theorem sortAttribute_user (c : Config) : c.builder.sortAttribute .user none =
    (((c.table .user).resolveName c.paging.defaultSortBy).mapError .unmapped).map (·.name) := by
  simp only [Search.Builder.sortAttribute, show c.builder.filters.mappings = c.registry from rfl,
    get?_registry]
  rfl

/-- A name to sort by that the mappings of users do not have is refused. -/
theorem requestOfParams_plain_eq_error (h : ¬c.HasUserName c.paging.defaultSortBy) (baseDn : String)
    (params : Search.Params) :
    c.builder.requestOfParams baseDn .user { params with filter := none, sortBy := none } =
      .error (.unmapped ⟨dotted c.paging.defaultSortBy, .user⟩) := by
  rw [← exists_resolveName_iff] at h
  rw [requestOfParams_plain, sortAttribute_user, Mapping.Table.resolveName_eq_error h, entity_table]
  rfl

/-- **A plain list request is served** for groups and devices whatever is configured, and for users exactly when
    the name to sort by is one that their mappings have. Otherwise the refusal names it. Nothing is said of a
    name with blanks around it, which is looked up with them, while one that is sent is trimmed first. -/
theorem plain_request_served (c : Config) (baseDn : String) (params : Search.Params) :
    let plain := { params with filter := none, sortBy := none }
    (∀ entity, entity ≠ .user → ∃ r, c.builder.requestOfParams baseDn entity plain = .ok r) ∧
    (Text.trim c.paging.defaultSortBy = c.paging.defaultSortBy →
      ((∃ r, c.builder.requestOfParams baseDn .user plain = .ok r) ↔ c.HasUserName c.paging.defaultSortBy) ∧
      (¬c.HasUserName c.paging.defaultSortBy →
        c.builder.requestOfParams baseDn .user plain =
          .error (.unmapped ⟨dotted c.paging.defaultSortBy, .user⟩))) := by
  intro plain
  refine ⟨?_, fun _ => ⟨⟨?_, ?_⟩, fun h => requestOfParams_plain_eq_error h baseDn params⟩⟩
  · intro entity hentity
    have hname : c.builder.sortAttribute entity none = .ok c.paging.defaultSortBy := by
      cases entity with
      | user => exact absurd rfl hentity
      | group => rfl
      | fidoDevice => rfl
    rw [requestOfParams_plain, hname]
    exact ⟨_, rfl⟩
  · rintro ⟨r, hr⟩
    by_contra hmissing
    rw [requestOfParams_plain_eq_error hmissing] at hr
    cases hr
  · intro hname
    obtain ⟨m, hm⟩ := (exists_resolveName_iff c c.paging.defaultSortBy).mpr hname
    rw [requestOfParams_plain, sortAttribute_user, hm]
    exact ⟨_, rfl⟩

/-- A bare name in other letters stands for the `value` of the attribute. -/
theorem plain_request_served_bare :
    let text := "[paging]\ndefault_sort_by = \"EMAILS\""
    let c : Config := { paging := { defaultSortBy := "EMAILS" } }
    load (fun _ => none) text = .ok c ∧ Text.trim c.paging.defaultSortBy = c.paging.defaultSortBy ∧
      ∃ r, c.builder.requestOfParams "ou=people,o=gluu" .user {} = .ok r := by
  intro text c
  have hload : load (fun _ => none) text = .ok c := by
    refine load_eq_ok_iff.mpr ⟨text, by cbv, ?_, violation?_eq_none_iff.mp (by decide +kernel)⟩
    rw [show Toml.read? text = some [("paging", .table [("default_sort_by", .string "EMAILS")])] by cbv]
    rfl
  have htrim : Text.trim "EMAILS" = "EMAILS" := by decide +kernel
  have hbare : isBare "EMAILS" = true := by decide +kernel
  have hsame : normalName false "emails.value" = normalName false ("EMAILS" ++ ".value") :=
    calc normalName false "emails.value" = "emails.value" := by decide +kernel
      _ = "emails" ++ ".value" := by decide +kernel
      _ = normalName false "EMAILS" ++ ".value" := by
        rw [show normalName false "EMAILS" = "emails" by decide +kernel]
      _ = normalName false ("EMAILS" ++ ".value") := (normalName_value hbare).symm
  have hbuiltin : "emails.value" ∈ (Mapping.builtinEntries .user).map Prod.fst := by decide +kernel
  have hname : c.HasUserName "EMAILS" :=
    ⟨"emails.value", List.mem_append_left _ hbuiltin, .inr ⟨hbare, hsame⟩⟩
  exact ⟨hload, htrim, ((plain_request_served c "ou=people,o=gluu" {}).2 htrim).1.mpr hname⟩

/-- A name that no mapping of users has meets every check, and then no plain request of users is served. -/
theorem plain_request_not_served :
    let text := "[paging]\ndefault_sort_by = \"bogus\""
    let c : Config := { paging := { defaultSortBy := "bogus" } }
    load (fun _ => none) text = .ok c ∧
      c.builder.requestOfParams "ou=people,o=gluu" .user {} = .error (.unmapped ⟨"bogus", .user⟩) := by
  intro text c
  have hload : load (fun _ => none) text = .ok c := by
    refine load_eq_ok_iff.mpr ⟨text, by cbv, ?_, violation?_eq_none_iff.mp (by decide +kernel)⟩
    rw [show Toml.read? text = some [("paging", .table [("default_sort_by", .string "bogus")])] by cbv]
    rfl
  have hmissing : ¬c.HasUserName c.paging.defaultSortBy := by
    rw [← exists_resolveName_iff, Mapping.Table.resolveName,
      Mapping.Table.resolve_of_find?_eq_none (by decide +kernel)]
    rintro ⟨m, ⟨⟩⟩
  have hdotted : dotted c.paging.defaultSortBy = "bogus" := by decide +kernel
  refine ⟨hload, ?_⟩
  rw [← hdotted]
  exact requestOfParams_plain_eq_error hmissing "ou=people,o=gluu" {}

end Config

end ScimLdap
