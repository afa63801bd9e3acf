import Mathlib.Data.List.Dedup
import ScimLdap.Proofs.Bytes
import ScimLdap.Proofs.Tables

/-!
# Writes — a table holds what was last written under each name

A table is made by writes, and a name may be written more than once, in either case and with either separator.
`normalName` says which names a table takes for one and the same, and `lastWrite` which of the writes counts
for them. One write changes what is held under one normal form (`Table.get?_insert`), a run of writes leaves
the last one for each (`Table.get?_insertAll`), and by that a table is known as a whole: what it answers, how
many mappings it has, and what comes out when it is listed (`table_of_writes`).
-/

namespace ScimLdap

/-! ## Names -/

/-- A text with a point in the place of its first colon or point, whichever comes first. -/
def pointFirst : List Char → List Char
  | [] => []
  | c :: cs => if c = ':' ∨ c = '.' then '.' :: cs else c :: pointFirst cs

/-- A name as a table shows it: its first separator, if it has one, is a point. -/
def dotted (name : String) : String :=
  String.ofList (pointFirst name.toList)

/-- Whether a name has neither of the two separators in it. -/
def isBare (name : String) : Bool :=
  name.toList.all (fun c => c != ':' && c != '.')

/-- The normal form of a name, which is the same for all names that a table takes for one. -/
def normalName (caseSensitive : Bool) (name : String) : String :=
  if caseSensitive then dotted name else Text.foldCase (dotted name)

example : normalName false "Name:FamilyName" = "name.familyname" := by decide +kernel

theorem foldCase_value : Text.foldCase ".value" = ".value" := by decide +kernel

theorem isSeparator_iff {c : Char} : AttrPath.isSeparator c = true ↔ c = ':' ∨ c = '.' := by
  simp [AttrPath.isSeparator]

theorem pointFirst_eq (cs : List Char) :
    pointFirst cs = (Text.splitOnce AttrPath.isSeparator cs).1 ++
      ((Text.splitOnce AttrPath.isSeparator cs).2.map ('.' :: ·)).getD [] := by
  induction cs with
  | nil => rfl
  | cons c cs ih =>
    rw [pointFirst, Text.splitOnce]
    by_cases hc : c = ':' ∨ c = '.'
    · rw [if_pos hc, if_pos (isSeparator_iff.mpr hc)]
      rfl
    · rw [if_neg hc, if_neg (mt isSeparator_iff.mp hc), ih]
      rfl

theorem splitOnce_isNone (cs : List Char) :
    (Text.splitOnce AttrPath.isSeparator cs).2.isNone = cs.all (fun c => c != ':' && c != '.') := by
  induction cs with
  | nil => rfl
  | cons c cs ih =>
    have hsep : (c != ':' && c != '.') = !AttrPath.isSeparator c := by
      rw [AttrPath.isSeparator, Bool.not_or]
      rfl
    rw [Text.splitOnce, List.all_cons, hsep]
    cases hc : AttrPath.isSeparator c with
    | true => rfl
    | false => simpa using ih

namespace AttrPath

theorem logicalName_ofLogical (name : String) : (ofLogical name).logicalName = dotted name := by
  rw [dotted, pointFirst_eq, ofLogical]
  obtain ⟨attr, sub⟩ := Text.splitOnce isSeparator name.toList
  apply String.toList_inj.mp
  cases sub <;> simp [logicalName]

theorem sub_ofLogical_isNone (name : String) : (ofLogical name).sub.isNone = isBare name := by
  rw [isBare, ← splitOnce_isNone, ofLogical, Option.isNone_map]

end AttrPath

namespace Mapping

variable {caseSensitive : Bool} {writes : List (String × Mapping)} {k : String} {m : Mapping}

/-! ## The last write -/

/-- The mapping that was written last under a normal form. -/
def lastWrite (caseSensitive : Bool) (writes : List (String × Mapping)) (k : String) : Option Mapping :=
  (writes.findRev? (fun w => normalName caseSensitive w.1 == k)).map Prod.snd

theorem lastWrite_cons (w : String × Mapping) (writes : List (String × Mapping)) (k : String) :
    lastWrite caseSensitive (w :: writes) k =
      (lastWrite caseSensitive writes k).or (if normalName caseSensitive w.1 = k then some w.2 else none) := by
  rw [lastWrite, List.findRev?, lastWrite]
  cases writes.findRev? (fun w => normalName caseSensitive w.1 == k) with
  | some v => rfl
  | none => by_cases h : normalName caseSensitive w.1 = k <;> simp [h]

theorem lastWrite_append (writes more : List (String × Mapping)) (k : String) :
    lastWrite caseSensitive (writes ++ more) k =
      (lastWrite caseSensitive more k).or (lastWrite caseSensitive writes k) := by
  induction writes with
  | nil => exact (Option.or_none).symm
  | cons w writes ih => rw [List.cons_append, lastWrite_cons, lastWrite_cons, ih, Option.or_assoc]

theorem lastWrite_eq_none_iff :
    lastWrite caseSensitive writes k = none ↔ ∀ w ∈ writes, normalName caseSensitive w.1 ≠ k := by
  rw [lastWrite, Option.map_eq_none_iff, List.findRev?_eq_find?_reverse, List.find?_eq_none]
  simp

/-- The last write is one after which no other is made under the same normal form. -/
theorem lastWrite_eq_some_iff :
    lastWrite caseSensitive writes k = some m ↔
      ∃ before name after, writes = before ++ (name, m) :: after ∧ normalName caseSensitive name = k ∧
        ∀ w ∈ after, normalName caseSensitive w.1 ≠ k := by
  constructor
  · intro h
    induction writes with
    | nil => cases h
    | cons w writes ih =>
      rw [lastWrite_cons, Option.or_eq_some_iff] at h
      rcases h with h | ⟨hnone, h⟩
      · obtain ⟨before, name, after, rfl, hname, hafter⟩ := ih h
        exact ⟨w :: before, name, after, rfl, hname, hafter⟩
      · split at h
        · next hw =>
          cases h
          exact ⟨[], w.1, writes, rfl, hw, lastWrite_eq_none_iff.mp hnone⟩
        · cases h
  · rintro ⟨before, name, after, rfl, hname, hafter⟩
    rw [lastWrite_append, lastWrite_cons, lastWrite_eq_none_iff.mpr hafter, if_pos hname]
    rfl

theorem lastWrite_isSome_iff :
    (lastWrite caseSensitive writes k).isSome = true ↔
      k ∈ writes.map (fun w => normalName caseSensitive w.1) := by
  rw [← Option.ne_none_iff_isSome, Ne, lastWrite_eq_none_iff]
  simp

/-! ## Tables -/

namespace Table

variable {t : Table}

theorem keyOfName_eq (t : Table) (name : String) : t.keyOfName name = normalName t.caseSensitive name := by
  rw [keyOfName, AttrPath.logicalName_ofLogical]
  rfl

theorem get?_insert (t : Table) (name : String) (m : Mapping) (k : String) :
    (t.insert name m).entries.get? k =
      if normalName t.caseSensitive name = k then some m else t.entries.get? k := by
  rw [insert, Text.Dictionary.get?_insert, keyOfName_eq]
  simp only [eq_comm]

theorem caseSensitive_insertAll (t : Table) (writes : List (String × Mapping)) :
    (t.insertAll writes).caseSensitive = t.caseSensitive := by
  induction writes generalizing t with
  | nil => rfl
  | cons w writes ih => exact ih (t.insert w.1 w.2)

/-- A run of writes leaves under each normal form the last that was written, or what was there before. -/
theorem get?_insertAll (t : Table) (writes : List (String × Mapping)) (k : String) :
    (t.insertAll writes).entries.get? k =
      (lastWrite t.caseSensitive writes k).or (t.entries.get? k) := by
  induction writes generalizing t with
  | nil => rfl
  | cons w writes ih =>
    show ((t.insert w.1 w.2).insertAll writes).entries.get? k = _
    rw [ih, get?_insert, lastWrite_cons, Option.or_assoc]
    congr 1
    split <;> rfl

theorem insertAll_append (t : Table) (writes more : List (String × Mapping)) :
    t.insertAll (writes ++ more) = (t.insertAll writes).insertAll more :=
  List.foldl_append

/-- What a table answers to a name: the mapping of its normal form; for a bare name without one that of its
    `value`; and otherwise the name itself, with a point for its separator. -/
theorem resolveName_eq (t : Table) (name : String) :
    t.resolveName name =
      match (t.entries.get? (normalName t.caseSensitive name)).or
        (if isBare name then t.entries.get? (normalName t.caseSensitive name ++ ".value") else none) with
      | some m => .ok m
      | none => .error ⟨dotted name, t.entity⟩ := by
  have hkey : t.key (dotted name) = normalName t.caseSensitive name := rfl
  have hvalue : t.key (dotted name ++ ".value") = normalName t.caseSensitive name ++ ".value" := by
    rw [key, normalName]
    split
    · rfl
    · rw [Text.foldCase_append, foldCase_value]
  have hfind : t.find? (AttrPath.ofLogical name) =
      (t.entries.get? (normalName t.caseSensitive name)).or
        (if isBare name then t.entries.get? (normalName t.caseSensitive name ++ ".value") else none) := by
    rw [find?, AttrPath.logicalName_ofLogical, AttrPath.sub_ofLogical_isNone, hkey, hvalue]
  rw [resolveName, ← hfind]
  cases hfound : t.find? (AttrPath.ofLogical name) with
  | some m => exact resolve_of_find? hfound
  | none =>
    have hnone := resolve_of_find?_eq_none hfound
    rw [AttrPath.logicalName_ofLogical] at hnone
    exact hnone

/-- The attribute that every entry has is that of `id`. -/
theorem matchAllAttribute_eq (t : Table) :
    t.matchAllAttribute = ((t.entries.get? "id").map Mapping.name).getD "objectClass" := by
  have hid : t.key "id" = "id" := by
    have hfold : Text.foldCase "id" = "id" := by decide +kernel
    rw [key, hfold, ite_self]
  rw [matchAllAttribute, hid]
  cases t.entries.get? "id" <;> rfl

/-- A table that begins empty holds what was last written. -/
theorem get?_written (entity : Entity) (caseSensitive : Bool) (writes : List (String × Mapping)) (k : String) :
    (insertAll { entity, caseSensitive } writes).entries.get? k = lastWrite caseSensitive writes k := by
  rw [get?_insertAll]
  exact Option.or_none

/-- Each normal form that was written is listed once. -/
theorem keys_written_perm (entity : Entity) (caseSensitive : Bool) (writes : List (String × Mapping)) :
    ((insertAll { entity, caseSensitive } writes).entries.toList.map Prod.fst).Perm
      (writes.map (fun w => normalName caseSensitive w.1)).dedup := by
  let entries := (insertAll { entity, caseSensitive } writes).entries
  have hnodup : (entries.toList.map Prod.fst).Nodup := by
    apply List.pairwise_map.mpr
    apply entries.rising.imp
    intro a b hlt heq
    rw [heq] at hlt
    exact String.lt_irrefl _ hlt
  apply (List.perm_ext_iff_of_nodup hnodup (List.nodup_dedup _)).mpr
  intro k
  rw [List.mem_dedup, ← lastWrite_isSome_iff, ← get?_written entity]
  constructor
  · intro hk
    obtain ⟨e, he, rfl⟩ := List.mem_map.mp hk
    rw [Text.Dictionary.get?_eq_some_iff.mpr he]
    rfl
  · intro hk
    obtain ⟨m, hm⟩ := Option.isSome_iff_exists.mp hk
    exact List.mem_map.mpr ⟨(k, m), Text.Dictionary.get?_eq_some_iff.mp hm, rfl⟩

end Table

/-- **A table is a map from normal forms to what was last written.** It may begin empty or with the built-in
    mappings, which count as written first. -/
theorem table_of_writes (entity : Entity) (caseSensitive builtin : Bool) (writes : List (String × Mapping)) :
    let start : Table := if builtin then .builtin entity caseSensitive else { entity, caseSensitive }
    let t := start.insertAll writes
    let written := (if builtin then builtinEntries entity else []) ++ writes
    let last := lastWrite caseSensitive written
    (∀ name, t.resolveName name =
      match (last (normalName caseSensitive name)).or
        (if isBare name then last (normalName caseSensitive name ++ ".value") else none) with
      | some m => .ok m
      | none => .error ⟨dotted name, entity⟩) ∧
    t.size = (written.map (fun w => normalName caseSensitive w.1)).dedup.length ∧
    (∀ k m, (k, m) ∈ t.entries.toList ↔ last k = some m) ∧
    t.entries.toList.Pairwise (fun a b => Text.bytes a.1 < Text.bytes b.1) ∧
    t.matchAllAttribute = ((last "id").map Mapping.name).getD "objectClass" := by
  intro start t written last
  have ht : t = Table.insertAll { entity, caseSensitive } written := by
    cases builtin <;> simp only [t, start, written, Table.insertAll_append] <;> rfl
  have hget : ∀ k, t.entries.get? k = last k := by
    intro k
    rw [ht]
    exact Table.get?_written entity caseSensitive written k
  have hcase : t.caseSensitive = caseSensitive := by
    rw [ht, Table.caseSensitive_insertAll]
  have hentity : t.entity = entity := by
    rw [ht, Table.entity_insertAll]
  refine ⟨?_, ?_, ?_, ?_, ?_⟩
  · intro name
    rw [Table.resolveName_eq, hcase, hentity, hget, hget]
  · rw [ht]
    have hperm := Table.keys_written_perm entity caseSensitive written
    rw [← hperm.length_eq, List.length_map]
    rfl
  · intro k m
    rw [← hget, Text.Dictionary.get?_eq_some_iff]
  · exact t.entries.rising.imp Text.lt_iff_bytes_lt.mp
  · rw [Table.matchAllAttribute_eq, hget]

end Mapping

end ScimLdap
