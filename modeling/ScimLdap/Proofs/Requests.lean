import Mathlib
import ScimLdap.Proofs.Validity
import ScimLdap.Search.Page

/-!
# Requests — what reaches the directory, and how often

Whatever a client sends, a request that the builder makes is bounded (`Request.Within`), and that rests on
the checks of the configuration: without them a page could hold nothing, or results be sorted by nothing.
The directory is asked for each such request once and never otherwise. `recording` keeps the requests that a
directory was asked, beside all that it does itself, and `list_recording` says of every directory what is
kept and what the client gets.
-/

namespace ScimLdap.Search

variable {p : Paging} {b : Builder} {baseDn : String} {entity : Entity} {params : Params} {r : Request}

/-! ## The numbers -/

theorem one_le_of_positive? {n : Option Int64} {k : Nat} (h : positive? n = some k) : 1 ≤ k := by
  obtain ⟨i, hi, rfl⟩ := Option.map_eq_some_iff.mp h
  have hi := (Option.filter_eq_some_iff.mp hi).2
  simp only [decide_eq_true_eq] at hi
  omega

theorem positive?_of_one_le {i : Int64} (h : 1 ≤ i.toInt) : positive? (some i) = some i.toInt.toNat := by
  show Option.map _ (if decide (1 ≤ i.toInt) = true then some i else none) = _
  rw [if_pos (decide_eq_true h)]
  rfl

/-- A page holds at least one entry and no more than may be, if the bounds make sense. -/
theorem Paging.count_bounds (hd : 0 < p.defaultCount) (hm : p.defaultCount ≤ p.maxCount)
    (count : Option Int64) : 1 ≤ p.count count ∧ p.count count ≤ p.maxCount := by
  refine ⟨Nat.le_min.mpr ⟨?_, Nat.le_trans hd hm⟩, Nat.min_le_right _ _⟩
  cases h : positive? count with
  | none => exact hd
  | some k => exact one_le_of_positive? h

theorem Paging.count_eq {i : Int64} (h : 1 ≤ i.toInt) (hm : i.toInt ≤ p.maxCount) :
    (p.count (some i) : Int) = i.toInt := by
  rw [Paging.count, positive?_of_one_le h, Option.getD_some, Nat.min_eq_left (by omega)]
  omega

theorem one_le_startIndex (start : Option Int64) : 1 ≤ startIndex start := by
  rw [startIndex]
  cases h : positive? start with
  | none => exact Nat.le_refl 1
  | some k => exact one_le_of_positive? h

theorem startIndex_eq {i : Int64} (h : 1 ≤ i.toInt) : (startIndex (some i) : Int) = i.toInt := by
  rw [startIndex, positive?_of_one_le h, Option.getD_some]
  omega

/-! ## The sort attribute -/

/-- The name to sort by is not empty: a blank parameter counts as absent. -/
theorem sortName_ne_empty {default : String} (hdefault : Text.isBlankText default = false)
    (sortBy : Option String) :
    ((Text.nonBlank? sortBy).map Text.trim).getD default ≠ "" := by
  cases h : Text.nonBlank? sortBy with
  | none => exact Text.ne_empty_of_not_blank hdefault
  | some s =>
    have hs := (Option.filter_eq_some_iff.mp h).2
    exact Text.trim_ne_empty (by simpa using hs)

theorem Builder.sortAttribute_ne_empty {sortBy : Option String} {s : String}
    (hdefault : Text.isBlankText b.paging.defaultSortBy = false)
    (hnamed : ∀ t, b.filters.mappings.get? .user = some t → t.All (fun m => m.name ≠ ""))
    (h : b.sortAttribute entity sortBy = .ok s) : s ≠ "" := by
  have hname := sortName_ne_empty hdefault sortBy
  cases entity with
  | group | fidoDevice => cases h; exact hname
  | user =>
    simp only [sortAttribute] at h
    split at h
    · cases h
    · next t ht =>
      obtain ⟨m, hm, rfl⟩ := Outcome.map_eq_ok_iff.mp h
      exact (hnamed t ht).find? (Mapping.Table.find?_of_resolve (Outcome.mapError_eq_ok_iff.mp hm))

/-! ## The request -/

/-- What a request has of the parameters, and within which bounds it is. -/
structure Request.Within (p : Paging) (baseDn : String) (entity : Entity) (params : Params) (r : Request) :
    Prop where
  baseDn : r.baseDn = baseDn
  entity : r.entity = entity
  one_le_count : 1 ≤ r.count
  count_le : r.count ≤ p.maxCount
  one_le_startIndex : 1 ≤ r.startIndex
  sortBy_ne_empty : r.sortBy ≠ ""
  count_kept : ∀ i, params.count = some i → 1 ≤ i.toInt → i.toInt ≤ p.maxCount → (r.count : Int) = i.toInt
  startIndex_kept : ∀ i, params.startIndex = some i → 1 ≤ i.toInt → (r.startIndex : Int) = i.toInt

/-- Of two errors the filter's comes first; otherwise the request is made up of the parts. -/
theorem Builder.requestOfParams_eq_ok_iff :
    b.requestOfParams baseDn entity params = .ok r ↔
      ∃ filter sortBy, b.filters.searchFilter params.filter entity = .ok filter ∧
        b.sortAttribute entity params.sortBy = .ok sortBy ∧
        r = { baseDn, entity, filter, startIndex := Search.startIndex params.startIndex,
              count := b.paging.count params.count, sortBy, sortOrder := .ofValue params.sortOrder,
              returnAttributes := params.returnAttributes } := by
  have hbind : b.requestOfParams baseDn entity params =
      (b.filters.searchFilter params.filter entity).bind fun filter =>
        (b.sortAttribute entity params.sortBy).bind fun sortBy => .ok {
          baseDn, entity, filter, startIndex := Search.startIndex params.startIndex,
          count := b.paging.count params.count, sortBy, sortOrder := .ofValue params.sortOrder,
          returnAttributes := params.returnAttributes } := rfl
  simp only [hbind, Outcome.bind_eq_ok_iff, Except.ok.injEq, exists_and_left, eq_comm (a := r)]

/-- A request without a filter fails only where there is nothing to sort by. -/
theorem Builder.request_of_no_filter {v : Ldap.Visitor}
    (hvisitor : b.filters.visitors.get? entity = some v) (baseDn : String) (params : Params)
    (returnAttributes : List String) :
    b.request baseDn entity { params with filter := none } returnAttributes =
      (b.sortAttribute entity params.sortBy).map fun sortBy => {
        baseDn, entity, filter := v.matchAll, startIndex := startIndex params.startIndex,
        count := b.paging.count params.count, sortBy, sortOrder := .ofValue params.sortOrder,
        returnAttributes } := by
  have hfilter : b.filters.searchFilter none entity = .ok v.matchAll := by
    rw [FilterService.searchFilter, FilterService.visitor, hvisitor]
    rfl
  rw [request]
  simp only [hfilter]
  cases b.sortAttribute entity params.sortBy <;> rfl

/-- **Every request is bounded** that the builder of a valid configuration makes. -/
theorem within_of_requestOfParams {c : Config} (hc : c.Valid)
    (h : c.builder.requestOfParams baseDn entity params = .ok r) :
    r.Within c.paging baseDn entity params := by
  obtain ⟨filter, sortBy, -, hsort, rfl⟩ := Builder.requestOfParams_eq_ok_iff.mp h
  obtain ⟨hone, hmax⟩ := Paging.count_bounds hc.defaultCount hc.maxCount params.count
  have hnamed : ∀ t, c.registry.get? .user = some t → t.All (fun m => m.name ≠ "") := fun t ht => by
    rw [Config.get?_registry] at ht
    cases ht
    exact hc.named_table .user
  exact {
    baseDn := rfl
    entity := rfl
    one_le_count := hone
    count_le := hmax
    one_le_startIndex := one_le_startIndex params.startIndex
    sortBy_ne_empty := Builder.sortAttribute_ne_empty (b := c.builder) hc.defaultSortBy hnamed hsort
    count_kept := fun i hi h hm => by
      show ((c.paging.count params.count : Nat) : Int) = i.toInt
      rw [hi]
      exact Paging.count_eq h hm
    startIndex_kept := fun i hi h => by
      show ((startIndex params.startIndex : Nat) : Int) = i.toInt
      rw [hi]
      exact startIndex_eq h }

/-! ## The directory -/

section
variable {m : Type → Type} [Monad m] {α : Type}

/-- A directory that also keeps the requests it was asked, in order. -/
def recording (directory : Directory m α) : Directory (StateT (List Request) m) α :=
  fun r asked => (fun answer => (answer, asked ++ [r])) <$> directory r

/-- What a client gets for a request, by the answer of the directory. -/
def outcome (r : Request) : Except DirectoryFailure (Found α) → Except Error (Page α)
  | .ok found => .ok {
      schemas := [Page.schema]
      totalResults := found.total
      itemsPerPage := found.entries.length
      startIndex := r.startIndex
      entries := found.entries }
  | .error failure => .error (.directory failure)

variable (directory : Directory m α)

theorem list_eq_search {b : Builder} {baseDn : String} {entity : Entity} {params : Params} {r : Request}
    (h : b.requestOfParams baseDn entity params = .ok r) :
    b.list directory baseDn entity params = search directory r := by
  rw [Builder.list, h]

theorem list_eq_pure {b : Builder} {baseDn : String} {entity : Entity} {params : Params} {e : Error}
    (h : b.requestOfParams baseDn entity params = .error e) :
    b.list directory baseDn entity params = pure (.error e) := by
  rw [Builder.list, h]

variable [LawfulMonad m] (asked : List Request)

theorem search_eq (r : Request) : search directory r = outcome r <$> directory r := by
  rw [map_eq_pure_bind, search]
  congr
  funext answer
  cases answer <;> rfl

theorem run_search_recording (r : Request) : (search (recording directory) r).run asked
    = (fun answer => (outcome r answer, asked ++ [r])) <$> directory r := by
  rw [search_eq, StateT.run_map]
  show _ <$> (_ <$> directory r) = _
  rw [Functor.map_map]

/-- To keep the requests changes nothing else. -/
theorem fst_run_list_recording (b : Builder) (baseDn : String) (entity : Entity) (params : Params) :
    Prod.fst <$> (b.list (recording directory) baseDn entity params).run asked
      = b.list directory baseDn entity params := by
  cases h : b.requestOfParams baseDn entity params with
  | error e => rw [list_eq_pure _ h, list_eq_pure _ h, StateT.run_pure, map_pure]
  | ok r => rw [list_eq_search _ h, list_eq_search _ h, run_search_recording, Functor.map_map, search_eq]

/-- **A list request asks the directory once, within bounds, or not at all.** The configuration is any that was
    loaded, and the directory may do whatever its monad allows. Where the parameters make no request, the client
    is told why and nothing is asked. Where they make one, exactly that one is asked, it is within the bounds of
    the configuration, and what the directory answers to it is what the client gets. -/
theorem list_asks_once_within_bounds {value : String → Option String} {text : String} {c : Config}
    (hload : Config.load value text = .ok c) (baseDn : String) (entity : Entity) (params : Params) :
    (∀ e, c.builder.requestOfParams baseDn entity params = .error e →
      (c.builder.list (recording directory) baseDn entity params).run asked = pure (.error e, asked)) ∧
    ∀ r, c.builder.requestOfParams baseDn entity params = .ok r →
      (c.builder.list (recording directory) baseDn entity params).run asked
          = (fun answer => (outcome r answer, asked ++ [r])) <$> directory r ∧
        r.Within c.paging baseDn entity params := by
  obtain ⟨-, -, -, hc⟩ := Config.load_eq_ok_iff.mp hload
  refine ⟨fun e h => ?_, fun r h => ⟨?_, within_of_requestOfParams hc h⟩⟩
  · rw [list_eq_pure _ h, StateT.run_pure]
  · rw [list_eq_search _ h, run_search_recording]

end

/-- The configuration of an empty text, a directory that always answers, and a client that asks for too many
    entries from before the first. -/
theorem list_asks_once_within_bounds_defaults :
    let c : Config := {}
    let params : Params := { count := some 1000, startIndex := some (-5) }
    let directory : Directory Id String := fun _ => .ok ⟨["cn=a", "cn=b"], 7⟩
    Config.load (fun _ => none) "" = .ok c ∧
      ∃ r, c.builder.requestOfParams "ou=groups,o=gluu" .group params = .ok r ∧
        (c.builder.list (recording directory) "ou=groups,o=gluu" .group params).run []
          = (.ok ⟨[Page.schema], 7, 2, 1, ["cn=a", "cn=b"]⟩, [r]) ∧
        r.Within c.paging "ou=groups,o=gluu" .group params ∧ r.count = 200 := by
  intro c params directory
  have hload : Config.load (fun _ => none) "" = .ok c := Config.load_empty _
  have hfilter : c.service.searchFilter none .group
      = .ok (Ldap.Visitor.ofTable (c.table .group)).matchAll := by
    rw [FilterService.searchFilter,
      show c.service.visitor .group = .ok (.ofTable (c.table .group)) from rfl]
    rfl
  have hrequest : c.builder.requestOfParams "ou=groups,o=gluu" .group params = .ok
      { baseDn := "ou=groups,o=gluu", entity := .group
        filter := (Ldap.Visitor.ofTable (c.table .group)).matchAll
        startIndex := 1, count := 200, sortBy := "displayName", sortOrder := .ascending
        returnAttributes := [] } :=
    Builder.requestOfParams_eq_ok_iff.mpr ⟨_, "displayName", hfilter, rfl, rfl⟩
  have hall := (list_asks_once_within_bounds directory [] hload "ou=groups,o=gluu" .group params).2 _ hrequest
  exact ⟨hload, _, hrequest, hall.1, hall.2, rfl⟩

end ScimLdap.Search
