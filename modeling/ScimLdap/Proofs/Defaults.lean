import Mathlib
import ScimLdap.Proofs.Requests

/-!
# Defaults — what a client leaves out and what it sends

A parameter that is left out, or that says nothing sensible, counts as its default. A client that sends the
default instead should get the same request, and for the numbers and the order it does. The name to sort by is
the exception: what is sent is trimmed, what is configured is not. So the two clients are told apart by a
configured name with blanks around it, which the checks let pass, and by nothing else
(`defaults_sent_or_left_out`).
-/

namespace ScimLdap.Search

variable {p : Paging} {params sent : Params}

/-! ## Sending what was left out -/

/-- The parameter that is sent is the one given, if that says something, and else a default. -/
def Filled {α : Type} (counts isDefault : α → Prop) (given sent : Option α) : Prop :=
  (∃ a, given = some a ∧ counts a ∧ sent = some a) ∨
    (∀ a, given = some a → ¬counts a) ∧ ∃ d, sent = some d ∧ isDefault d

/-- The parameters `sent` are `params` with every default written out. -/
structure Params.Explicit (p : Paging) (params sent : Params) : Prop where
  filter : sent.filter = params.filter
  startIndex : Filled (fun i => 1 ≤ i.toInt) (· = 1) params.startIndex sent.startIndex
  count : Filled (fun i => 1 ≤ i.toInt) (fun i : Int64 => i.toInt = p.defaultCount) params.count sent.count
  sortBy : Filled (fun s => Text.isBlankText s = false) (· = p.defaultSortBy) params.sortBy sent.sortBy
  sortOrder : Filled (fun _ => True) (· = "ascending") params.sortOrder sent.sortOrder
  attributes : sent.attributes = params.attributes

theorem exists_filled {α : Type} (counts isDefault : α → Prop) (hdefault : ∃ d, isDefault d)
    (given : Option α) : ∃ sent, Filled counts isDefault given sent := by
  obtain ⟨d, hd⟩ := hdefault
  by_cases h : ∃ a, given = some a ∧ counts a
  · obtain ⟨a, ha, hcounts⟩ := h
    exact ⟨some a, .inl ⟨a, ha, hcounts, rfl⟩⟩
  · exact ⟨some d, .inr ⟨fun a ha hcounts => h ⟨a, ha, hcounts⟩, d, rfl, hd⟩⟩

/-- The defaults can be sent unless the size of a page is too large for a parameter. -/
theorem Params.exists_explicit (h : p.defaultCount < 2 ^ 63) (params : Params) :
    ∃ sent, params.Explicit p sent := by
  have hsize : ∃ i : Int64, i.toInt = p.defaultCount :=
    ⟨.ofInt p.defaultCount, Int64.toInt_ofInt_of_le (by omega) (by omega)⟩
  obtain ⟨startIndex, hstart⟩ := exists_filled (fun i : Int64 => 1 ≤ i.toInt) (· = 1) ⟨1, rfl⟩
    params.startIndex
  obtain ⟨count, hcount⟩ := exists_filled (fun i : Int64 => 1 ≤ i.toInt)
    (fun i : Int64 => i.toInt = p.defaultCount) hsize params.count
  obtain ⟨sortBy, hsort⟩ := exists_filled (fun s => Text.isBlankText s = false) (· = p.defaultSortBy)
    ⟨_, rfl⟩ params.sortBy
  obtain ⟨sortOrder, horder⟩ := exists_filled (fun _ => True) (· = "ascending") ⟨_, rfl⟩ params.sortOrder
  exact ⟨⟨params.filter, startIndex, count, sortBy, sortOrder, params.attributes⟩,
    rfl, hstart, hcount, hsort, horder, rfl⟩

/-! ## Parameter by parameter -/

theorem positive?_eq_none {n : Option Int64} (h : ∀ i, n = some i → ¬1 ≤ i.toInt) : positive? n = none := by
  cases n with
  | none => rfl
  | some i =>
    show Option.map _ (if decide (1 ≤ i.toInt) = true then some i else none) = _
    rw [if_neg (by simpa using h i rfl)]
    rfl

/-- A number that is left out counts as its default is sent. -/
theorem getD_positive?_of_filled {n : Nat} (hn : 0 < n) {isDefault : Int64 → Prop}
    (hdefault : ∀ i, isDefault i → i.toInt = n) {given sent : Option Int64}
    (h : Filled (fun i => 1 ≤ i.toInt) isDefault given sent) :
    (positive? sent).getD n = (positive? given).getD n := by
  rcases h with ⟨i, rfl, -, rfl⟩ | ⟨hnothing, i, rfl, hi⟩
  · rfl
  · have hi := hdefault i hi
    rw [positive?_eq_none hnothing, positive?_of_one_le (by omega), hi]
    rfl

/-- A name to sort by that is left out counts as its default is sent: without the blanks around it. -/
theorem sortName_of_filled {default : String} (hdefault : Text.isBlankText default = false)
    {given sent : Option String}
    (h : Filled (fun s => Text.isBlankText s = false) (· = default) given sent) (other : String) :
    ((Text.nonBlank? sent).map Text.trim).getD other =
      ((Text.nonBlank? given).map Text.trim).getD (Text.trim default) := by
  rcases h with ⟨s, rfl, hs, rfl⟩ | ⟨hnothing, _, rfl, rfl⟩
  · rw [Text.nonBlank?_some hs]
    rfl
  · have hnone : Text.nonBlank? given = none := by
      rw [Text.nonBlank?, Option.filter_eq_none_iff]
      intro s hs
      simpa using hnothing s hs
    rw [Text.nonBlank?_some hdefault, hnone]
    rfl

theorem ofValue_of_filled {given sent : Option String}
    (h : Filled (fun _ => True) (· = "ascending") given sent) :
    SortOrder.ofValue sent = SortOrder.ofValue given := by
  rcases h with ⟨s, rfl, -, rfl⟩ | ⟨hnothing, _, rfl, rfl⟩
  · rfl
  · cases given with
    | none => decide +kernel
    | some s => exact absurd trivial (hnothing s rfl)

/-! ## The request -/

/-- The builder with nothing blank around the name that it sorts by when no other is given. -/
def Builder.trimSortBy (b : Builder) : Builder :=
  { b with paging := { b.paging with defaultSortBy := Text.trim b.paging.defaultSortBy } }

variable {b : Builder}

theorem Builder.sortAttribute_of_filled (hdefault : Text.isBlankText b.paging.defaultSortBy = false)
    {given sent : Option String}
    (h : Filled (fun s => Text.isBlankText s = false) (· = b.paging.defaultSortBy) given sent)
    (entity : Entity) : b.sortAttribute entity sent = b.trimSortBy.sortAttribute entity given := by
  have hname := sortName_of_filled hdefault h b.paging.defaultSortBy
  cases entity <;> simp only [sortAttribute, trimSortBy, hname]

/-- Who sends the defaults is served as if the default name had no blanks around it. -/
theorem Builder.requestOfParams_of_explicit (hcount : 0 < b.paging.defaultCount)
    (hdefault : Text.isBlankText b.paging.defaultSortBy = false) (h : params.Explicit b.paging sent)
    (baseDn : String) (entity : Entity) :
    b.requestOfParams baseDn entity sent = b.trimSortBy.requestOfParams baseDn entity params := by
  have hstart : startIndex sent.startIndex = startIndex params.startIndex :=
    getD_positive?_of_filled Nat.one_pos (fun i hi => by rw [hi]; rfl) h.startIndex
  have hpage : b.paging.count sent.count = b.trimSortBy.paging.count params.count :=
    congrArg (min · b.paging.maxCount) (getD_positive?_of_filled hcount (fun _ hi => hi) h.count)
  have hsort := sortAttribute_of_filled hdefault h.sortBy entity
  have horder := ofValue_of_filled h.sortOrder
  have hattributes : sent.returnAttributes = params.returnAttributes := by
    rw [Params.returnAttributes, Params.returnAttributes, h.attributes]
  simp only [requestOfParams, request, h.filter, hstart, hpage, hsort, horder, hattributes]
  rfl

/-- What asks for one entry and sends all that could be left out. -/
def Params.oneSent (p : Paging) : Params where
  startIndex := some 1
  count := some 1
  sortBy := some p.defaultSortBy
  sortOrder := some "ascending"

theorem Params.explicit_oneSent (p : Paging) : Params.Explicit p { count := some 1 } (.oneSent p) where
  filter := rfl
  startIndex := .inr ⟨nofun, 1, rfl, rfl⟩
  count := .inl ⟨1, rfl, by decide, rfl⟩
  sortBy := .inr ⟨nofun, _, rfl, rfl⟩
  sortOrder := .inr ⟨nofun, _, rfl, rfl⟩
  attributes := rfl

/-- **Only blanks around the configured name tell sending it from leaving it out.** Of every configuration that
    was loaded: who sends the defaults gets the request that the others would get if that name had no blanks
    around it, or the same error. So the two are served alike, whatever they ask for, exactly when it has
    none. -/
theorem defaults_sent_or_left_out {value : String → Option String} {text : String} {c : Config}
    (hload : Config.load value text = .ok c) :
    (∀ baseDn entity params sent, Params.Explicit c.paging params sent →
      c.builder.requestOfParams baseDn entity sent =
        c.builder.trimSortBy.requestOfParams baseDn entity params) ∧
    ((∀ baseDn entity params sent, Params.Explicit c.paging params sent →
        c.builder.requestOfParams baseDn entity sent = c.builder.requestOfParams baseDn entity params) ↔
      Text.trim c.paging.defaultSortBy = c.paging.defaultSortBy) ∧
    (c.paging.defaultCount < 2 ^ 63 → ∀ params, ∃ sent, Params.Explicit c.paging params sent) := by
  obtain ⟨-, -, -, hc⟩ := Config.load_eq_ok_iff.mp hload
  have hsent : ∀ baseDn entity params sent, Params.Explicit c.paging params sent →
      c.builder.requestOfParams baseDn entity sent =
        c.builder.trimSortBy.requestOfParams baseDn entity params := fun baseDn entity _ _ h =>
    Builder.requestOfParams_of_explicit (b := c.builder) hc.defaultCount hc.defaultSortBy h baseDn entity
  refine ⟨hsent, ⟨fun hall => ?_, fun htrim baseDn entity params sent h => ?_⟩, Params.exists_explicit⟩
  · -- Groups are sorted by the name as it stands, so the two requests show it with and without its blanks.
    have hone := Params.explicit_oneSent c.paging
    have hvisitor := Config.get?_visitors c .group
    have htrimmed := Builder.request_of_no_filter (b := c.builder.trimSortBy) hvisitor "" { count := some 1 } []
    have hbare := Builder.request_of_no_filter (b := c.builder) hvisitor "" { count := some 1 } []
    have heq := (hsent "" .group _ _ hone).symm.trans (hall "" .group _ _ hone)
    exact congrArg Request.sortBy (Except.ok.inj (htrimmed.symm.trans (heq.trans hbare)))
  · have hsame : c.builder.trimSortBy = c.builder := by
      rw [Builder.trimSortBy, show c.builder.paging = c.paging from rfl, htrim]
      rfl
    rw [hsent baseDn entity params sent h, hsame]

/-- The configuration of an empty text, whose name to sort by has no blanks. -/
theorem defaults_sent_or_left_out_builtin :
    let c : Config := {}
    Config.load (fun _ => none) "" = .ok c ∧
      ∀ baseDn entity,
        c.builder.requestOfParams baseDn entity (.oneSent c.paging) =
          c.builder.requestOfParams baseDn entity { count := some 1 } := by
  intro c
  have hall := (defaults_sent_or_left_out (Config.load_empty fun _ => none)).2.1.mpr (by decide +kernel)
  exact ⟨Config.load_empty _, fun baseDn entity => hall baseDn entity _ _ (Params.explicit_oneSent c.paging)⟩

/-- A blank before the configured name: users can be listed with the name sent, and not without it. -/
theorem defaults_not_as_sent :
    let text := "[paging]\ndefault_sort_by = \" displayName\""
    let c : Config := { paging := { defaultSortBy := " displayName" } }
    let sent := Params.oneSent c.paging
    Config.load (fun _ => none) text = .ok c ∧ Params.Explicit c.paging { count := some 1 } sent ∧
      (∃ r, c.builder.requestOfParams "ou=people,o=gluu" .user sent = .ok r ∧ r.sortBy = "displayName") ∧
      c.builder.requestOfParams "ou=people,o=gluu" .user { count := some 1 } =
        .error (.unmapped ⟨" displayName", .user⟩) := by
  intro text c sent
  have hload : Config.load (fun _ => none) text = .ok c := by
    refine Config.load_eq_ok_iff.mpr ⟨text, by cbv, ?_, Config.violation?_eq_none_iff.mp (by decide +kernel)⟩
    rw [show Toml.read? text = some [("paging", .table [("default_sort_by", .string " displayName")])] by cbv]
    rfl
  have hvisitor := Config.get?_visitors c .user
  have hsort : ∀ sortBy, c.builder.sortAttribute .user sortBy = (((c.table .user).resolveName
      (((Text.nonBlank? sortBy).map Text.trim).getD " displayName")).mapError .unmapped).map (·.name) := by
    intro sortBy
    simp only [Builder.sortAttribute, show c.builder.filters.mappings = c.registry from rfl,
      Config.get?_registry]
    rfl
  have hfound : c.builder.sortAttribute .user sent.sortBy = .ok "displayName" := by
    rw [hsort, Mapping.Table.resolveName,
      Mapping.Table.resolve_of_find? (m := ⟨"displayName", .string⟩) (by decide +kernel)]
    rfl
  have hmissing : c.builder.sortAttribute .user none = .error (.unmapped ⟨" displayName", .user⟩) := by
    rw [hsort, Mapping.Table.resolveName, Mapping.Table.resolve_of_find?_eq_none (by decide +kernel)]
    rfl
  have hsent := Builder.request_of_no_filter (b := c.builder) hvisitor "ou=people,o=gluu" sent []
  have hleft := Builder.request_of_no_filter (b := c.builder) hvisitor "ou=people,o=gluu"
    { count := some 1 } []
  rw [hfound] at hsent
  rw [hmissing] at hleft
  exact ⟨hload, Params.explicit_oneSent c.paging, ⟨_, hsent, rfl⟩, hleft⟩

end ScimLdap.Search
