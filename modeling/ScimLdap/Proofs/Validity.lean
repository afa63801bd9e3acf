import Mathlib.Data.List.TakeWhile
import ScimLdap.Config.Loading
import ScimLdap.Config.Service
import ScimLdap.Proofs.Outcomes
import ScimLdap.Proofs.Tables

/-!
# Validity — what a configuration that was loaded can be relied on for

The checks stand in a chain and the first that fails is told, so that none fails is the conjunction of them
all (`violation?_eq_none_iff`). `Valid` has a field for each. What the service is built over inherits it:
every mapping of every table names an attribute, with nothing blank around it (`Valid.trimmed_table`), the
configured ones because their names are not blank and are trimmed, the built-in ones as they stand.
-/

namespace ScimLdap

namespace Text

theorem ne_empty_of_not_blank {s : String} (h : isBlankText s = false) : s ≠ "" := by
  rintro rfl
  cases h

/-- Whether a text has characters, of which neither the first nor the last is a blank. -/
def isTrimmed (s : String) : Bool :=
  s.toList.head?.any (fun c => !isBlank c) && s.toList.getLast?.any (fun c => !isBlank c)

theorem ne_empty_of_isTrimmed {s : String} (h : isTrimmed s = true) : s ≠ "" := by
  rintro rfl
  cases h

theorem head?_dropWhile_blank {cs : List Char} {b : Char} (hb : b ∈ cs) (hblank : isBlank b = false) :
    ∃ c, (cs.dropWhile isBlank).head? = some c ∧ isBlank c = false := by
  rw [← List.find?_not_eq_head?_dropWhile]
  have hsome : (cs.find? (fun c => !isBlank c)).isSome = true := by
    rw [List.find?_isSome]
    exact ⟨b, hb, by rw [hblank]; rfl⟩
  obtain ⟨c, hc⟩ := Option.isSome_iff_exists.mp hsome
  exact ⟨c, hc, by simpa using List.find?_some hc⟩

theorem getLast?_dropWhile_blank {cs : List Char} {c : Char} (hlast : cs.getLast? = some c)
    (hc : isBlank c = false) : (cs.dropWhile isBlank).getLast? = some c := by
  obtain ⟨front, rfl⟩ := List.getLast?_eq_some_iff.mp hlast
  rw [List.dropWhile_append]
  split
  · simp [hc]
  · exact List.getLast?_concat

/-- A text that is not blank begins and ends with other characters when it is trimmed. -/
theorem isTrimmed_trim {s : String} (h : isBlankText s = false) : isTrimmed (trim s) = true := by
  obtain ⟨b, hb, hblank⟩ := List.all_eq_false.mp h
  obtain ⟨c, hfirst, hc⟩ := head?_dropWhile_blank hb (Bool.not_eq_true _ ▸ hblank)
  -- The blanks behind are dropped from what is left, and its first character stays where it is.
  have hkept : c ∈ (s.toList.dropWhile isBlank).reverse :=
    List.mem_reverse.mpr (List.mem_of_head? hfirst)
  obtain ⟨d, hlast, hd⟩ := head?_dropWhile_blank hkept hc
  have hstays := getLast?_dropWhile_blank (List.getLast?_reverse.trans hfirst) hc
  rw [isTrimmed, trim, String.toList_ofList, trimChars, List.head?_reverse, List.getLast?_reverse, hstays,
    hlast]
  simp [hc, hd]

theorem trim_ne_empty {s : String} (h : isBlankText s = false) : trim s ≠ "" :=
  ne_empty_of_isTrimmed (isTrimmed_trim h)

end Text

namespace Config

/-- What the checks ask of a configuration. -/
structure Valid (c : Config) : Prop where
  baseDn : Text.isBlankText c.directory.baseDn = false
  maxLength : 0 < c.filter.maxLength
  maxDepth : 0 < c.filter.maxDepth
  defaultCount : 0 < c.paging.defaultCount
  maxCount : c.paging.defaultCount ≤ c.paging.maxCount
  defaultSortBy : Text.isBlankText c.paging.defaultSortBy = false
  entries : ∀ entity, ∀ e ∈ (c.mappings.of entity).toList, Text.isBlankText e.1 = false ∧
    Text.isBlankText e.2.name = false ∧ e.2.hasStrayWords = false

variable {c : Config}

theorem entryViolation?_eq_none_iff {entity : Entity} {key : String} {entry : Entry} :
    entryViolation? entity key entry = none ↔
      Text.isBlankText key = false ∧ Text.isBlankText entry.name = false ∧
        entry.hasStrayWords = false := by
  unfold entryViolation?
  cases Text.isBlankText key <;> cases Text.isBlankText entry.name <;>
    cases entry.hasStrayWords <;> simp

theorem check_eq_none_iff {p : Prop} [Decidable p] {v : Violation} {rest : Option Violation} :
    (if p then some v else rest) = none ↔ ¬p ∧ rest = none := by
  split <;> simp [*]

/-- No check fails exactly where every one is met. -/
theorem violation?_eq_none_iff : c.violation? = none ↔ c.Valid := by
  have hentries : Entity.all.findSome? (mappingsViolation? c.mappings) = none ↔
      ∀ entity, ∀ e ∈ (c.mappings.of entity).toList, Text.isBlankText e.1 = false ∧
        Text.isBlankText e.2.name = false ∧ e.2.hasStrayWords = false := by
    have hmem : ∀ entity : Entity, entity ∈ Entity.all := fun entity => by cases entity <;> decide
    simp only [List.findSome?_eq_none_iff, mappingsViolation?, entryViolation?_eq_none_iff]
    exact ⟨fun h entity => h entity (hmem entity), fun h entity _ => h entity⟩
  simp only [violation?, check_eq_none_iff, hentries, Bool.not_eq_true, ← Nat.pos_iff_ne_zero,
    Nat.not_lt]
  exact ⟨fun ⟨hdn, hlength, hdepth, hcount, hmax, hsort, h⟩ =>
      ⟨hdn, hlength, hdepth, hcount, hmax, hsort, h⟩,
    fun ⟨hdn, hlength, hdepth, hcount, hmax, hsort, h⟩ =>
      ⟨hdn, hlength, hdepth, hcount, hmax, hsort, h⟩⟩

/-- A text that is loaded holds the configuration, and every check is met. -/
theorem load_eq_ok_iff {value : String → Option String} {text : String} :
    load value text = .ok c ↔ ∃ expanded, expand value text = .ok expanded ∧
      (Toml.read? expanded).bind read? = some c ∧ c.Valid := by
  constructor
  · intro h
    obtain ⟨expanded, hexpand, h⟩ := Outcome.bind_eq_ok_iff.mp h
    refine ⟨expanded, Outcome.mapError_eq_ok_iff.mp hexpand, ?_⟩
    split at h
    · cases h
    next d hread =>
    split at h
    · cases h
    next hnone =>
    cases h
    exact ⟨hread, violation?_eq_none_iff.mp hnone⟩
  · rintro ⟨expanded, hexpand, hread, hvalid⟩
    refine Outcome.bind_eq_ok_iff.mpr ⟨expanded, Outcome.mapError_eq_ok_iff.mpr hexpand, ?_⟩
    rw [hread]
    simp only [violation?_eq_none_iff.mpr hvalid]

/-- The empty text is a configuration: every setting has a default, and the defaults meet every check. -/
theorem load_empty (value : String → Option String) : load value "" = .ok {} := by
  refine load_eq_ok_iff.mpr ⟨"", by cbv, ?_, violation?_eq_none_iff.mp (by decide +kernel)⟩
  rw [show Toml.read? "" = some [] by cbv]
  rfl

/-! ## The tables -/

theorem Entry.name_toMapping (e : Entry) : e.toMapping.name = Text.trim e.name := by
  cases e with
  | plain name => rfl
  | detailed name kind trueValue falseValue => cases kind <;> rfl

/-- The table of each entity, under that entity. -/
theorem get?_registry (c : Config) (entity : Entity) : c.registry.get? entity = some (c.table entity) := by
  have hentity : ∀ e, (c.table e).entity = e := fun e => by
    rw [table, Mapping.Table.entity_insertAll, Mapping.Table.builtin, Mapping.Table.entity_insertAll]
  have hregistry : c.registry = (((({} : Mapping.Registry).insert .user (c.table .user)).insert .group
      (c.table .group)).insert .fidoDevice (c.table .fidoDevice)) := by
    simp only [registry, Entity.all, Mapping.Registry.ofTables, List.map_cons, List.map_nil,
      List.foldl_cons, List.foldl_nil, hentity]
  rw [hregistry]
  cases entity <;> rfl

theorem get?_visitors (c : Config) (entity : Entity) :
    c.service.visitors.get? entity = some (.ofTable (c.table entity)) := by
  show (c.registry.map Ldap.Visitor.ofTable).get? entity = _
  rw [ByEntity.get?_map, get?_registry, Option.map_some]

/-- In the tables of a valid configuration every mapping names an attribute, without blanks around it. -/
theorem Valid.trimmed_table (h : c.Valid) (entity : Entity) :
    (c.table entity).All (fun m => Text.isTrimmed m.name = true) := by
  have hbuiltin : ∀ e ∈ Mapping.builtinEntries entity, Text.isTrimmed e.2.name = true := by
    cases entity <;> decide +kernel
  refine ((Mapping.Table.all_empty _ entity _).insertAll hbuiltin).insertAll ?_
  simp only [List.forall_mem_map, Entry.name_toMapping]
  exact fun e he => Text.isTrimmed_trim (h.entries entity e he).2.1

theorem Valid.named_table (h : c.Valid) (entity : Entity) : (c.table entity).All (fun m => m.name ≠ "") :=
  fun e he => Text.ne_empty_of_isTrimmed (h.trimmed_table entity e he)

end Config

end ScimLdap
