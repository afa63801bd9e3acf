import Mathlib
import ScimLdap.Proofs.Validity
import ScimLdap.Proofs.Writes

/-!
# Overlay — the configured mappings over the built-in ones

The configured mappings are written over the built-in table, in the order of their keys, each under the normal
form of its trimmed key. So a name is answered by the configured entries where one of them was written under
its normal form, and as the built-in table answers it where none was (`configured_overlays_builtin`). Names
that were answered stay so, because a write takes no other away.
-/

namespace ScimLdap

/-! ## Bare names -/

theorem pointFirst_append {cs : List Char} (h : cs.all (fun c => c != ':' && c != '.') = true)
    (ds : List Char) : pointFirst (cs ++ ds) = cs ++ pointFirst ds := by
  induction cs with
  | nil => rfl
  | cons c cs ih =>
    rw [List.all_cons, Bool.and_eq_true, Bool.and_eq_true, bne_iff_ne, bne_iff_ne] at h
    obtain ⟨⟨hcolon, hpoint⟩, hcs⟩ := h
    rw [List.cons_append, pointFirst, if_neg (not_or.mpr ⟨hcolon, hpoint⟩), ih hcs]
    rfl

theorem dotted_append {name : String} (h : isBare name = true) (more : String) :
    dotted (name ++ more) = name ++ dotted more := by
  apply String.toList_inj.mp
  rw [dotted, String.toList_ofList, String.toList_append, pointFirst_append h]
  simp [dotted]

/-- The normal form of the `value` of a bare name. -/
theorem normalName_value {caseSensitive : Bool} {name : String} (h : isBare name = true) :
    normalName caseSensitive (name ++ ".value") = normalName caseSensitive name ++ ".value" := by
  have hname : dotted name = name := by
    simpa [dotted, pointFirst] using dotted_append h ""
  have hvalue : dotted ".value" = ".value" := by decide +kernel
  rw [normalName, normalName, dotted_append h, hvalue, hname]
  split
  · rfl
  · rw [Text.foldCase_append, foldCase_value]

/-! ## Writing over a table -/

namespace Mapping.Table

variable {t : Table} {writes : List (String × Mapping)} {name : String} {m : Mapping}

theorem resolveName_eq_ok_iff : t.resolveName name = .ok m ↔
    (t.entries.get? (normalName t.caseSensitive name)).or
      (if isBare name then t.entries.get? (normalName t.caseSensitive name ++ ".value") else none) =
        some m := by
  rw [resolveName_eq]
  split
  next m' hm => simp [hm]
  next hnone => simp [hnone]

/-- A name that was answered stays so, whatever is written. -/
theorem resolveName_insertAll_of_ok (h : t.resolveName name = .ok m) (writes : List (String × Mapping)) :
    ∃ m', (t.insertAll writes).resolveName name = .ok m' := by
  have hkeeps : ∀ k, (t.entries.get? k).isSome = true →
      ((t.insertAll writes).entries.get? k).isSome = true := by
    intro k hk
    rw [get?_insertAll, Option.isSome_or, hk, Bool.or_true]
  have hsome := Option.isSome_of_eq_some (resolveName_eq_ok_iff.mp h)
  simp only [resolveName_eq_ok_iff, caseSensitive_insertAll, ← Option.isSome_iff_exists]
  rw [Option.isSome_or, Bool.or_eq_true] at hsome ⊢
  apply hsome.imp (hkeeps _)
  intro hvalue
  by_cases hbare : isBare name = true
  · rw [if_pos hbare] at hvalue ⊢
    exact hkeeps _ hvalue
  · rw [if_neg hbare] at hvalue
    cases hvalue

/-- A name is answered as before where nothing is written under its normal form, nor, for a bare name, under
    that of its `value`. -/
theorem resolveName_insertAll_of_unwritten
    (h : ∀ w ∈ writes, normalName t.caseSensitive w.1 ≠ normalName t.caseSensitive name)
    (hvalue : isBare name = true →
      ∀ w ∈ writes, normalName t.caseSensitive w.1 ≠ normalName t.caseSensitive (name ++ ".value")) :
    (t.insertAll writes).resolveName name = t.resolveName name := by
  have hsame : (t.insertAll writes).entries.get? (normalName t.caseSensitive name) =
      t.entries.get? (normalName t.caseSensitive name) := by
    rw [get?_insertAll, lastWrite_eq_none_iff.mpr h, Option.none_or]
  rw [resolveName_eq, resolveName_eq, caseSensitive_insertAll, entity_insertAll, hsame]
  by_cases hbare : isBare name = true
  · rw [if_pos hbare, if_pos hbare, get?_insertAll, ← normalName_value hbare,
      lastWrite_eq_none_iff.mpr (hvalue hbare), Option.none_or]
  · rw [if_neg hbare, if_neg hbare]

/-- A name is answered with what was last written under its normal form. -/
theorem resolveName_insertAll_of_written
    (h : lastWrite t.caseSensitive writes (normalName t.caseSensitive name) = some m) :
    (t.insertAll writes).resolveName name = .ok m := by
  rw [resolveName_eq_ok_iff, caseSensitive_insertAll, get?_insertAll, h]
  rfl

end Mapping.Table

/-! ## The configured entries -/

namespace Config

variable {c : Config} {entity : Entity}

/-- What an entry says that its attribute is. The attribute loses the blanks around it. Values are texts unless
    the entry names another kind, and a two-valued attribute without words of its own has `true` and `false`. -/
inductive Entry.Says : Entry → Mapping → Prop
  | plain (name : String) : (Entry.plain name).Says ⟨Text.trim name, .string⟩
  | string (name : String) (yes no : Option String) :
      (Entry.detailed name .string yes no).Says ⟨Text.trim name, .string⟩
  | number (name : String) (yes no : Option String) :
      (Entry.detailed name .number yes no).Says ⟨Text.trim name, .number⟩
  | boolean (name : String) (yes no : Option String) : (Entry.detailed name .boolean yes no).Says
      ⟨Text.trim name, .boolean (yes.getD "true") (no.getD "false")⟩

theorem Entry.says_toMapping (e : Entry) : e.Says e.toMapping := by
  cases e with
  | plain name => exact .plain name
  | detailed name kind yes no =>
    cases kind with
    | string => exact .string name yes no
    | number => exact .number name yes no
    | boolean => exact .boolean name yes no

/-- The normal form under which a configured key is put in. -/
def normalKey (c : Config) (key : String) : String :=
  normalName c.filter.attributesCaseSensitive (Text.trim key)

/-- The entry, of those that are put in under a normal form, whose key has the highest bytes. -/
structure IsLast (c : Config) (entity : Entity) (k : String) (e : String × Entry) : Prop where
  mem : e ∈ (c.mappings.of entity).toList
  normalKey : c.normalKey e.1 = k
  last : ∀ e' ∈ (c.mappings.of entity).toList, c.normalKey e'.1 = k → e'.1 ≠ e.1 →
    Text.bytes e'.1 < Text.bytes e.1

/-- The built-in table of an entity, with names told apart as configured. -/
def base (c : Config) (entity : Entity) : Mapping.Table :=
  .builtin entity c.filter.attributesCaseSensitive

/-- How a table answers that has the configured mappings of an entity laid over the built-in ones. -/
structure Overlays (c : Config) (entity : Entity) (t : Mapping.Table) : Prop where
  keeps : ∀ name m, (c.base entity).resolveName name = .ok m → ∃ m', t.resolveName name = .ok m'
  untouched : ∀ name,
    (∀ e ∈ (c.mappings.of entity).toList,
      c.normalKey e.1 ≠ normalName c.filter.attributesCaseSensitive name ∧
      (isBare name = true →
        c.normalKey e.1 ≠ normalName c.filter.attributesCaseSensitive (name ++ ".value"))) →
    t.resolveName name = (c.base entity).resolveName name
  configured : ∀ e ∈ (c.mappings.of entity).toList, ∃ last m, c.IsLast entity (c.normalKey e.1) last ∧
    last.2.Says m ∧ t.resolveName (Text.trim e.1) = .ok m
  trimmed : t.All (fun m => Text.isTrimmed m.name = true)

/-- What is written over the built-in table of an entity. -/
def writes (c : Config) (entity : Entity) : List (String × Mapping) :=
  (c.mappings.of entity).toList.map (fun e => (Text.trim e.1, e.2.toMapping))

theorem table_eq (c : Config) (entity : Entity) :
    c.table entity = (c.base entity).insertAll (c.writes entity) :=
  rfl

theorem caseSensitive_base (c : Config) (entity : Entity) :
    (c.base entity).caseSensitive = c.filter.attributesCaseSensitive :=
  Mapping.Table.caseSensitive_insertAll _ _

/-- As the entries are listed by their bytes, the last write is that of the last of them. -/
theorem exists_isLast {k : String} (h : ∃ e ∈ (c.mappings.of entity).toList, c.normalKey e.1 = k) :
    ∃ last, c.IsLast entity k last ∧
      Mapping.lastWrite c.filter.attributesCaseSensitive (c.writes entity) k = some last.2.toMapping := by
  obtain ⟨e, he, hk⟩ := h
  have hwritten : k ∈ (c.writes entity).map (fun w => normalName c.filter.attributesCaseSensitive w.1) := by
    rw [writes, List.map_map]
    exact List.mem_map.mpr ⟨e, he, hk⟩
  obtain ⟨m, hm⟩ := Option.isSome_iff_exists.mp (Mapping.lastWrite_isSome_iff.mpr hwritten)
  obtain ⟨before, name, after, hsplit, hname, hafter⟩ := Mapping.lastWrite_eq_some_iff.mp hm
  obtain ⟨front, rest, hlist, rfl, hrest⟩ := List.map_eq_append_iff.mp hsplit
  obtain ⟨last, back, rfl, hlast, rfl⟩ := List.map_eq_cons_iff.mp hrest
  cases hlast
  refine ⟨last, ⟨?_, hname, ?_⟩, hm⟩
  · simp [hlist]
  · intro e' he' hk' hne
    have hrising := (c.mappings.of entity).rising
    rw [hlist] at he' hrising
    rcases List.mem_append.mp he' with he' | he'
    · exact Text.lt_iff_bytes_lt.mp ((List.pairwise_append.mp hrising).2.2 e' he' last List.mem_cons_self)
    rcases List.mem_cons.mp he' with rfl | he'
    · exact absurd rfl hne
    · exact absurd hk' (hafter (Text.trim e'.1, e'.2.toMapping) (List.mem_map.mpr ⟨e', he', rfl⟩))

/-- **Configured mappings only extend or override the built-in ones**, in the table of every entity of a
    configuration that was loaded. -/
theorem configured_overlays_builtin {value : String → Option String} {text : String}
    (hload : load value text = .ok c) (entity : Entity) :
    ∃ t, c.registry.get? entity = some t ∧ c.Overlays entity t := by
  obtain ⟨_, _, _, hvalid⟩ := load_eq_ok_iff.mp hload
  have hcase := caseSensitive_base c entity
  refine ⟨c.table entity, get?_registry c entity, ?_, ?_, ?_, hvalid.trimmed_table entity⟩
  · intro name m hm
    exact Mapping.Table.resolveName_insertAll_of_ok hm (c.writes entity)
  · intro name h
    rw [table_eq]
    apply Mapping.Table.resolveName_insertAll_of_unwritten
    · rw [hcase, writes, List.forall_mem_map]
      exact fun e he => (h e he).1
    · intro hbare
      rw [hcase, writes, List.forall_mem_map]
      exact fun e he => (h e he).2 hbare
  · intro e he
    have hkey : ∃ e' ∈ (c.mappings.of entity).toList, c.normalKey e'.1 = c.normalKey e.1 := ⟨e, he, rfl⟩
    obtain ⟨last, hlast, hm⟩ := exists_isLast hkey
    refine ⟨last, last.2.toMapping, hlast, last.2.says_toMapping, ?_⟩
    rw [table_eq]
    apply Mapping.Table.resolveName_insertAll_of_written
    rw [hcase]
    exact hm

set_option maxRecDepth 4096 in
/-- Two keys that come to the same, of which the later one in the order of bytes counts, and it holds numbers;
    and a two-valued attribute with one word of its own. -/
theorem configured_overlays_builtin_colliding :
    let text := "[mappings.group]\nID=\x7battribute=\"no \",syntax=\"number\"\x7d\n\" id\"=\"uid\"\n" ++
      "on=\x7battribute=\"a\",syntax=\"boolean\",false_value=\"-\"\x7d"
    let c : Config := { mappings := { group := .ofList [(" id", .plain "uid"),
      ("ID", .detailed "no " .number none none), ("on", .detailed "a" .boolean none (some "-"))] } }
    load (fun _ => none) text = .ok c ∧
      ∃ t, c.registry.get? .group = some t ∧ c.Overlays .group t ∧
        t.resolveName "Id" = .ok ⟨"no", .number⟩ ∧
        t.resolveName "on" = .ok ⟨"a", .boolean "true" "-"⟩ := by
  intro text c
  have hload : load (fun _ => none) text = .ok c := by
    refine load_eq_ok_iff.mpr ⟨text, by cbv, ?_, violation?_eq_none_iff.mp (by decide +kernel)⟩
    rw [show Toml.read? text = some [("mappings", .table [("group", .table
      [("ID", .table [("attribute", .string "no "), ("syntax", .string "number")]),
       (" id", .string "uid"),
       ("on", .table [("attribute", .string "a"), ("syntax", .string "boolean"),
         ("false_value", .string "-")])])])] by cbv]
    rfl
  obtain ⟨t, ht, hover⟩ := configured_overlays_builtin hload .group
  have htable : t = c.table .group := Option.some.inj (ht.symm.trans (get?_registry c .group))
  have hwritten : ∀ name m, Mapping.lastWrite false (c.writes .group) (normalName false name) = some m →
      t.resolveName name = .ok m := by
    intro name m h
    rw [htable, table_eq]
    apply Mapping.Table.resolveName_insertAll_of_written
    rwa [caseSensitive_base]
  exact ⟨hload, t, ht, hover, hwritten _ _ (by decide +kernel), hwritten _ _ (by decide +kernel)⟩

end Config

end ScimLdap
