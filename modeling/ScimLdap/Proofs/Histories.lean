import ScimLdap.Pool
import ScimLdap.Proofs.Requests
import ScimLdap.Proofs.Tables

/-!
# Histories — whom the service in a slot asks

Visitors are put into services and services are copied, in any order and any number of times. What a slot
answers then depends on its line of descent alone: the visitors put into it since it was made, before them
those put into the slot that it was copied from until that moment, and so on back to the service at the start,
where the tables come in. Sorting asks the tables of the start, whatever came in since.

The pool keeps no history, so a history is a list of steps here, and `lineage` is read off it by recursion
with the latest step first. `Tracks` says that a pool is what its history makes of it; a step keeps it
(`Tracks.after`), so a whole run does, and each of its answers can be told from the history alone.
-/

namespace ScimLdap

namespace Ldap.Visitor.Registry

/-- The entities in the order of their names. -/
def byName : List Entity :=
  [.fidoDevice, .group, .user]

theorem mergeSort_names (r : Registry) :
    (r.entities.map Entity.name).mergeSort (fun a b => decide (a ≤ b)) =
      (byName.filter fun e => (r.get? e).isSome).map Entity.name := by
  have hperm : (r.entities.map Entity.name).Perm
      ((byName.filter fun e => (r.get? e).isSome).map Entity.name) := by
    have hall : Entity.all.Perm byName := by decide
    exact (hall.filter _).map _
  have hsorted : ((byName.filter fun e => (r.get? e).isSome).map Entity.name).Pairwise (· ≤ ·) := by
    have hall : (byName.map Entity.name).Pairwise (· ≤ ·) := by decide +kernel
    exact hall.sublist (List.filter_sublist.map _)
  have hmerged :
      ((r.entities.map Entity.name).mergeSort (fun a b => decide (a ≤ b))).Pairwise (· ≤ ·) := by
    refine (List.pairwise_mergeSort ?_ ?_ _).imp of_decide_eq_true
    · intro a b c hab hbc
      exact decide_eq_true (String.le_trans (of_decide_eq_true hab) (of_decide_eq_true hbc))
    · intro a b
      simpa using String.le_total a b
  exact ((List.mergeSort_perm _ _).trans hperm).eq_of_pairwise
    (fun _ _ _ _ => String.le_antisymm) hmerged hsorted

theorem render_eq (r : Registry) :
    r.render = "VisitorRegistry \x7b entity_types: [" ++ String.intercalate ", "
      ((byName.filter fun e => (r.get? e).isSome).map fun e => "\"" ++ e.name ++ "\"") ++ "] \x7d" := by
  unfold render
  rw [mergeSort_names]
  dsimp only
  rw [List.map_map]
  simp only [Function.comp_def]

end Ldap.Visitor.Registry

namespace Pool

open Ldap (Visitor SearchFilter)

/-! ## Steps and answers -/

/-- What can be done with the service in a slot. -/
inductive Act where
  | register (visitor : Visitor)
  | copy
  | translate (text : Option String) (entity : Entity)
  | matchAll (entity : Entity)
  | request (paging : Search.Paging) (baseDn : String) (entity : Entity) (params : Search.Params)
  | visitors

structure Step where
  slot : Nat
  act : Act

inductive Answer where
  | absent
  | done
  | copied (slot : Nat)
  | filter (outcome : Except Error SearchFilter)
  | request (outcome : Except Error Search.Request)
  | visitors (entities : List Entity) (shown : String)

/-- The pool that a step leaves. Only two kinds of step change anything. -/
def after (p : Pool) (s : Step) : Pool :=
  match s.act with
  | .register v => p.register s.slot v
  | .copy => p.copy s.slot
  | _ => p

/-- What the pool answers to a step, and nothing where the slot does not exist. -/
def answer (p : Pool) (s : Step) : Answer :=
  match p.get? s.slot with
  | none => .absent
  | some service =>
    match s.act with
    | .register _ => .done
    | .copy => .copied p.slots.length
    | .translate text entity => .filter (service.searchFilter text entity)
    | .matchAll entity => .filter (service.matchAll entity)
    | .request paging baseDn entity params =>
      .request (Search.Builder.requestOfParams ⟨service, paging⟩ baseDn entity params)
    | .visitors => .visitors service.visitors.entities service.visitors.render

/-- The answers to steps taken one after the other. -/
def answers (p : Pool) : List Step → List Answer
  | [] => []
  | s :: steps => p.answer s :: (p.after s).answers steps

theorem get?_copy (p : Pool) (slot i : Nat) :
    (p.copy slot).get? i = p.get? (if i = p.slots.length then slot else i) := by
  simp only [copy, get?, List.getElem?_append]
  rcases Nat.lt_trichotomy i p.slots.length with hlt | rfl | hgt
  · rw [if_pos hlt, if_neg hlt.ne]
  · rw [if_neg (Nat.lt_irrefl _), if_pos rfl, Nat.sub_self]
    cases p.slots[slot]? <;> rfl
  · have hnone : p.slots[i]? = none := List.getElem?_eq_none hgt.le
    rw [if_neg hgt.not_gt, if_neg hgt.ne', hnone]
    apply List.getElem?_eq_none
    cases p.slots[slot]? with
    | none => simp
    | some service => exact Nat.sub_pos_of_lt hgt

/-! ## What a history says -/

/-- How many slots there are after some steps, the latest first. -/
def slotCount : List Step → Nat
  | [] => 1
  | ⟨slot, .copy⟩ :: before => if slot < slotCount before then slotCount before + 1 else slotCount before
  | _ :: before => slotCount before

/-- The visitors put into a slot along its line of descent, the latest first. A copy is a new slot, and what it
    has behind it is what the slot had that it was made from. -/
def lineage : List Step → Nat → List Visitor
  | [], _ => []
  | ⟨slot, .register v⟩ :: before, i => if slot = i then v :: lineage before i else lineage before i
  | ⟨slot, .copy⟩ :: before, i => lineage before (if i = slotCount before then slot else i)
  | _ :: before, i => lineage before i

/-- Who answers for an entity: the last one put in for it along the line of descent, or else the way through the
    last table of it at the start. -/
def visitorOf (tables : List Mapping.Table) (before : List Step) (slot : Nat) (entity : Entity) :
    Option Visitor :=
  ((lineage before slot).find? (fun v => v.entity == entity)).or
    ((tables.findRev? (fun t => t.entity == entity)).map .ofTable)

/-- The translation of a text by whoever answers for its entity. Where there is nobody, the text is not looked
    at. -/
def translation (options : Filter.Options) (entity : Entity) (text : Option String) :
    Option Visitor → Except Error SearchFilter
  | none => .error (.unregistered entity)
  | some v =>
    match Text.nonBlank? text with
    | none => .ok v.matchAll
    | some input => ((Filter.parse options input).mapError .malformed).bind fun f =>
        (v.visit f).mapError .ofLeaf

/-- The attribute to sort by, through the last table of users at the start. -/
def sorting (tables : List Mapping.Table) (name : String) : Entity → Except Error String
  | .user =>
    match tables.findRev? (fun t => t.entity == .user) with
    | none => .error (.unregistered .user)
    | some t => ((t.resolveName name).mapError .unmapped).map (·.name)
  | _ => .ok name

/-- What the history before a step says that its answer is. -/
def predicted (options : Filter.Options) (tables : List Mapping.Table) (before : List Step) (s : Step) :
    Answer :=
  if s.slot < slotCount before then
    let visitor := visitorOf tables before s.slot
    match s.act with
    | .register _ => .done
    | .copy => .copied (slotCount before)
    | .translate text entity => .filter (translation options entity text (visitor entity))
    | .matchAll entity => .filter (translation options entity none (visitor entity))
    | .request paging baseDn entity params => .request (
        (translation options entity params.filter (visitor entity)).bind fun filter =>
        (sorting tables (((Text.nonBlank? params.sortBy).map Text.trim).getD paging.defaultSortBy) entity).bind
          fun sortBy => .ok {
            baseDn, entity, filter, startIndex := Search.startIndex params.startIndex,
            count := paging.count params.count, sortBy, sortOrder := .ofValue params.sortOrder,
            returnAttributes := params.returnAttributes })
    | .visitors => .visitors (Entity.all.filter fun e => (visitor e).isSome)
        ("VisitorRegistry \x7b entity_types: [" ++ String.intercalate ", "
          ((Visitor.Registry.byName.filter fun e => (visitor e).isSome).map fun e => "\"" ++ e.name ++ "\"") ++
          "] \x7d")
  else .absent

/-! ## The pool and its history -/

section
variable {options : Filter.Options} {tables : List Mapping.Table} {before : List Step} {slot : Nat}
  {service : FilterService} {p : Pool}

/-- A service is what the history of its slot makes of it. -/
structure Follows (options : Filter.Options) (tables : List Mapping.Table) (before : List Step) (slot : Nat)
    (service : FilterService) : Prop where
  options : service.options = options
  mappings : service.mappings = .ofTables tables
  visitor : ∀ e, service.visitors.get? e = visitorOf tables before slot e

/-- A pool is what its history makes of it. -/
structure Tracks (options : Filter.Options) (tables : List Mapping.Table) (before : List Step) (p : Pool) :
    Prop where
  length : p.slots.length = slotCount before
  follows : ∀ slot service, p.get? slot = some service → Follows options tables before slot service

theorem follows_ofMappings (options : Filter.Options) (tables : List Mapping.Table) (slot : Nat) :
    Follows options tables [] slot (.ofMappings options (.ofTables tables)) where
  options := rfl
  mappings := rfl
  visitor := by
    intro e
    rw [FilterService.ofMappings, Visitor.Registry.ofTables, ByEntity.get?_map,
      Mapping.Registry.get?_ofTables]
    rfl

theorem tracks_single (options : Filter.Options) (tables : List Mapping.Table) :
    Tracks options tables [] (single (.ofMappings options (.ofTables tables))) where
  length := rfl
  follows := by
    intro slot service h
    obtain rfl : FilterService.ofMappings options (.ofTables tables) = service := by
      cases slot with
      | zero => exact Option.some.inj h
      | succ n => cases h
    exact follows_ofMappings options tables slot

theorem Follows.register (h : Follows options tables before slot service) (v : Visitor) :
    Follows options tables (⟨slot, .register v⟩ :: before) slot (service.register v) where
  options := h.options
  mappings := h.mappings
  visitor := by
    intro e
    have hnew : (service.register v).visitors.get? e =
        if e = v.entity then some v else service.visitors.get? e := ByEntity.get?_insert ..
    rw [hnew, h.visitor, visitorOf, visitorOf, lineage, if_pos rfl, List.find?_cons]
    by_cases he : e = v.entity
    · simp [he]
    · simp [he, beq_eq_false_iff_ne.mpr (Ne.symm he)]

/-- A slot that a step leaves alone goes on with the same line of descent. -/
theorem Follows.of_lineage_eq {before' : List Step} {slot' : Nat}
    (h : Follows options tables before slot service) (hl : lineage before' slot' = lineage before slot) :
    Follows options tables before' slot' service where
  options := h.options
  mappings := h.mappings
  visitor := by
    intro e
    rw [h.visitor, visitorOf, visitorOf, hl]

theorem Tracks.register (h : Tracks options tables before p) (slot : Nat) (v : Visitor) :
    Tracks options tables (⟨slot, .register v⟩ :: before) (p.register slot v) where
  length := by
    rw [Pool.register, List.length_modify]
    exact h.length
  follows := by
    intro i service hi
    rw [get?_register] at hi
    by_cases hs : slot = i
    · subst hs
      rw [if_pos rfl, Option.map_eq_some_iff] at hi
      obtain ⟨old, hold, rfl⟩ := hi
      exact (h.follows slot old hold).register v
    · rw [if_neg hs] at hi
      refine (h.follows i service hi).of_lineage_eq ?_
      rw [lineage, if_neg hs]

theorem Tracks.copy (h : Tracks options tables before p) (slot : Nat) :
    Tracks options tables (⟨slot, .copy⟩ :: before) (p.copy slot) where
  length := by
    rw [Pool.copy, List.length_append, slotCount, ← h.length, get?]
    by_cases hs : slot < p.slots.length
    · rw [if_pos hs, List.getElem?_eq_getElem hs]
      rfl
    · rw [if_neg hs, List.getElem?_eq_none (by omega)]
      rfl
  follows := by
    intro i service hi
    rw [get?_copy, h.length] at hi
    exact (h.follows _ service hi).of_lineage_eq rfl

/-- **A step keeps a pool with its history.** -/
theorem Tracks.after (h : Tracks options tables before p) (s : Step) :
    Tracks options tables (s :: before) (p.after s) := by
  obtain ⟨slot, act⟩ := s
  have hasked : slotCount (⟨slot, act⟩ :: before) = slotCount before →
      (∀ i, lineage (⟨slot, act⟩ :: before) i = lineage before i) →
      Tracks options tables (⟨slot, act⟩ :: before) p := fun hcount hlineage =>
    ⟨h.length.trans hcount.symm, fun i service hi => (h.follows i service hi).of_lineage_eq (hlineage i)⟩
  cases act with
  | register v => exact h.register slot v
  | copy => exact h.copy slot
  | translate => exact hasked rfl fun _ => rfl
  | matchAll => exact hasked rfl fun _ => rfl
  | request => exact hasked rfl fun _ => rfl
  | visitors => exact hasked rfl fun _ => rfl

theorem Follows.searchFilter_eq (h : Follows options tables before slot service) (text : Option String)
    (entity : Entity) :
    service.searchFilter text entity =
      translation options entity text (visitorOf tables before slot entity) := by
  rw [FilterService.searchFilter, FilterService.visitor, h.visitor]
  cases visitorOf tables before slot entity with
  | none => rfl
  | some v =>
    rw [← h.options]
    cases htext : Text.nonBlank? text with
    | none => simp only [translation, htext]; rfl
    | some input => simp only [translation, htext]; rfl

theorem Follows.matchAll_eq (h : Follows options tables before slot service) (entity : Entity) :
    service.matchAll entity = translation options entity none (visitorOf tables before slot entity) := by
  rw [FilterService.matchAll, FilterService.visitor, h.visitor]
  cases visitorOf tables before slot entity <;> rfl

theorem Follows.sortAttribute_eq (h : Follows options tables before slot service) (paging : Search.Paging)
    (entity : Entity) (sortBy : Option String) :
    (⟨service, paging⟩ : Search.Builder).sortAttribute entity sortBy =
      sorting tables (((Text.nonBlank? sortBy).map Text.trim).getD paging.defaultSortBy) entity := by
  cases entity with
  | user =>
    have htable : service.mappings.get? .user = tables.findRev? (fun t => t.entity == .user) := by
      rw [h.mappings, Mapping.Registry.get?_ofTables]
    cases hlast : tables.findRev? (fun t => t.entity == .user) with
    | none => simp only [Search.Builder.sortAttribute, sorting, htable, hlast]
    | some t => simp only [Search.Builder.sortAttribute, sorting, htable, hlast]
  | group => rfl
  | fidoDevice => rfl

theorem Follows.entities_eq (h : Follows options tables before slot service) :
    service.visitors.entities = Entity.all.filter fun e => (visitorOf tables before slot e).isSome := by
  simp only [ByEntity.entities, h.visitor]

theorem Tracks.answer_eq (h : Tracks options tables before p) (s : Step) :
    p.answer s = predicted options tables before s := by
  obtain ⟨slot, act⟩ := s
  rw [answer, predicted, ← h.length]
  cases hs : p.get? slot with
  | none =>
    have hout : ¬slot < p.slots.length := Nat.not_lt.mpr (List.getElem?_eq_none_iff.mp hs)
    rw [if_neg hout]
  | some service =>
    have hin : slot < p.slots.length := (List.getElem?_eq_some_iff.mp hs).1
    have hf := h.follows slot service hs
    rw [if_pos hin]
    cases act with
    | register v => rfl
    | copy => rfl
    | translate text entity => simp only [hf.searchFilter_eq]
    | matchAll entity => simp only [hf.matchAll_eq]
    | request paging baseDn entity params =>
      simp only [← hf.searchFilter_eq, ← hf.sortAttribute_eq]
      rfl
    | visitors => simp only [hf.entities_eq, Visitor.Registry.render_eq, hf.visitor]

theorem Tracks.getElem?_answers (h : Tracks options tables before p) (steps : List Step) (k : Nat) :
    (p.answers steps)[k]? =
      steps[k]?.map (predicted options tables ((steps.take k).reverse ++ before)) := by
  induction steps generalizing p before k with
  | nil => rfl
  | cons s steps ih =>
    cases k with
    | zero => simp [answers, h.answer_eq]
    | succ k =>
      simp only [answers, List.getElem?_cons_succ, List.take_succ_cons, List.reverse_cons,
        List.append_assoc, List.singleton_append]
      exact ih (h.after s) k

end

/-- **Every answer follows the line of descent of its slot.** From a service over some tables, whatever steps
    are taken with it and its copies, the answer to each is the one that the steps before it predict. -/
theorem answers_follow_lineage (options : Filter.Options) (tables : List Mapping.Table) (steps : List Step)
    (k : Nat) :
    ((single (.ofMappings options (.ofTables tables))).answers steps)[k]? =
      steps[k]?.map (predicted options tables (steps.take k).reverse) := by
  simpa using (tracks_single options tables).getElem?_answers steps k

/-- A visitor that comes in after a copy was made is not in the copy, and a copy of the slot has it. -/
example (v : Visitor) : lineage [⟨0, .register v⟩, ⟨0, .copy⟩] 1 = [] ∧
    lineage [⟨0, .copy⟩, ⟨0, .register v⟩, ⟨0, .copy⟩] 2 = [v] :=
  ⟨rfl, rfl⟩

end Pool

end ScimLdap
