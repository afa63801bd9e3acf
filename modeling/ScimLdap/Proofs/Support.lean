import ScimLdap.Ldap.Visitor
import ScimLdap.Proofs.Flattening
import ScimLdap.Proofs.Outcomes
import ScimLdap.Proofs.Tables

/-!
# Support — which filters the directory can be asked, and which leaf is to blame

A tree is answered when each of its leaves is. Otherwise it is refused for the first leaf, from the left, that
is not (`visit_fails_at_first_unsupported`). Whether a leaf is answered is a matter of its attribute and not
of the tree around it: `ValueKind.Supports` says which comparisons an attribute allows, by the kind of its
values, and `Refusal.Applies` when a reason against one is true of it. What no reason applies to is supported
and nothing else is (`ValueKind.supports_iff`).

Several reasons may apply at once. Which of them is reported is not said here, only that it applies. Reports
name a path in one of its two forms, and both are written out here (`AttrPath.withMark`).
-/

namespace ScimLdap

open Ldap (LeafError Refusal SearchFilter Visitor truthValue? valueOf)
open Ldap.SearchFilter (ofComparison ofScim ofScimAll)

/-! ## What an attribute supports -/

/-- A literal that is a truth value, or a string that is the word for one in any case of its letters. -/
def Literal.NamesTruth : Literal → Prop
  | .bool _ => True
  | .string s => Text.foldCase s = "true" ∨ Text.foldCase s = "false"
  | _ => False

/-- The comparisons that an attribute supports. Whether it has a value is asked of every kind alike, so `null`
    comes before the kind. -/
def ValueKind.Supports (op : CompareOp) : ValueKind → Literal → Prop
  | _, .null => op = .eq ∨ op = .ne
  | .boolean _ _, v => v.NamesTruth ∧ (op = .eq ∨ op = .ne)
  | .number, .bool _ => False
  | .number, _ => op ≠ .co ∧ op ≠ .sw ∧ op ≠ .ew
  | .string, .bool _ => op = .eq ∨ op = .ne
  | .string, _ => True

/-- When a reason is one against a comparison. -/
inductive Ldap.Refusal.Applies : Refusal → ValueKind → CompareOp → Literal → Prop
  | nullOperator {kind : ValueKind} {op : CompareOp} (hop : ¬(op = .eq ∨ op = .ne)) :
      Applies .nullOperator kind op .null
  | booleanExpected {yes no : String} {op : CompareOp} {v : Literal} (hv : v ≠ .null)
      (htruth : ¬v.NamesTruth) : Applies .booleanExpected (.boolean yes no) op v
  | booleanAttributeOperator {yes no : String} {op : CompareOp} {v : Literal}
      (hop : ¬(op = .eq ∨ op = .ne)) : Applies .booleanAttributeOperator (.boolean yes no) op v
  | numberExpected {op : CompareOp} {b : Bool} : Applies .numberExpected .number op (.bool b)
  | numberSubstring {op : CompareOp} {v : Literal} (hop : op = .co ∨ op = .sw ∨ op = .ew) :
      Applies .numberSubstring .number op v
  | booleanLiteralOperator {kind : ValueKind} {op : CompareOp} {b : Bool} (hop : ¬(op = .eq ∨ op = .ne)) :
      Applies .booleanLiteralOperator kind op (.bool b)

/-- A question that a table has an answer to. -/
inductive Mapping.Table.Supports (t : Mapping.Table) : Filter → Prop
  | present {p : AttrPath} {m : Mapping} (hp : t.find? p = some m) : Supports t (.present p)
  | compare {p : AttrPath} {m : Mapping} {op : CompareOp} {v : Literal} (hp : t.find? p = some m)
      (hv : m.kind.Supports op v) : Supports t (.compare p op v)

/-- A path as one text, with a mark in front of its sub-attribute if it has one. -/
def AttrPath.withMark (mark : String) (p : AttrPath) : String :=
  p.attr ++ (p.sub.map (mark ++ ·)).getD ""

/-- What is reported of a question without an answer: a path that has no mapping, by its dotted form and the
    entity, else the comparison and a reason that applies to it. -/
inductive Mapping.Table.Blames (t : Mapping.Table) : Filter → LeafError → Prop
  | present {p : AttrPath} (hp : t.find? p = none) :
      Blames t (.present p) (.unmapped ⟨p.withMark ".", t.entity⟩)
  | path {p : AttrPath} {op : CompareOp} {v : Literal} (hp : t.find? p = none) :
      Blames t (.compare p op v) (.unmapped ⟨p.withMark ".", t.entity⟩)
  | comparison {p : AttrPath} {m : Mapping} {op : CompareOp} {v : Literal} {r : Refusal}
      (hp : t.find? p = some m) (hr : r.Applies m.kind op v) :
      Blames t (.compare p op v) (.unsupported ⟨p, op, v, r⟩)

/-- A report of an unsupported comparison is one of the leaf that it is to blame, which it quotes: the path in
    its colon form, the operator and the value, as they are written in a filter. -/
structure Ldap.UnsupportedComparison.Quotes (u : Ldap.UnsupportedComparison) (l : Filter) : Prop where
  leaf : l = .compare u.path u.op u.value
  render : l.render = u.path.withMark ":" ++ " " ++ u.op.keyword ++ " " ++ u.value.render
  message : u.message = "Unsupported comparison '" ++ l.render ++ "': " ++ u.refusal.reason

/-- The error is that of the first leaf, from the left, that is not supported. -/
def Mapping.Table.BlamesFirst (t : Mapping.Table) (f : Filter) (e : LeafError) : Prop :=
  ∃ before l after, f.leaves = before ++ l :: after ∧ (∀ l' ∈ before, t.Supports l') ∧
    ¬t.Supports l ∧ t.Blames l e ∧ ∀ u, e = .unsupported u → u.Quotes l

variable {t : Mapping.Table} {m : Mapping} {kind : ValueKind} {op : CompareOp} {v : Literal} {r : Refusal}

theorem AttrPath.logicalName_eq (p : AttrPath) : p.logicalName = p.withMark "." := by
  obtain ⟨attr, _ | sub⟩ := p
  · exact (String.append_empty).symm
  · exact String.append_assoc

theorem AttrPath.render_eq (p : AttrPath) : p.render = p.withMark ":" := by
  obtain ⟨attr, _ | sub⟩ := p
  · exact (String.append_empty).symm
  · exact String.append_assoc

theorem CompareOp.isEquality_iff : op.isEquality = true ↔ op = .eq ∨ op = .ne := by
  cases op <;> decide

theorem CompareOp.isSubstring_iff : op.isSubstring = true ↔ op = .co ∨ op = .sw ∨ op = .ew := by
  cases op <;> decide

theorem Literal.namesTruth_iff : v.NamesTruth ↔ ∃ b, truthValue? v = some b := by
  have hfold : Text.foldCase "true" = "true" ∧ Text.foldCase "false" = "false" := by decide +kernel
  cases v with
  | string s =>
    simp only [NamesTruth, truthValue?, Text.sameFold_iff, hfold]
    by_cases htrue : Text.foldCase s = "true"
    · simp [htrue]
    · by_cases hfalse : Text.foldCase s = "false"
      · simp [hfalse]
      · simp [htrue, hfalse]
  | bool b => simp [NamesTruth, truthValue?]
  | number | null => simp [NamesTruth, truthValue?]

theorem ValueKind.supports_boolean {yes no : String} (hv : v ≠ .null) :
    (ValueKind.boolean yes no).Supports op v ↔ v.NamesTruth ∧ (op = .eq ∨ op = .ne) := by
  cases v with
  | null => exact absurd rfl hv
  | bool | string | number => rfl

/-- A comparison with a reason against it is not supported. -/
theorem Ldap.Refusal.Applies.not_supports (hr : r.Applies kind op v) : ¬kind.Supports op v := by
  intro h
  cases hr with
  | nullOperator hop => exact hop h
  | booleanExpected hv htruth => exact htruth ((ValueKind.supports_boolean hv).mp h).1
  | booleanAttributeOperator hop =>
    by_cases hv : v = .null
    · subst hv
      exact hop h
    · exact hop ((ValueKind.supports_boolean hv).mp h).2
  | numberExpected => exact h
  | numberSubstring hop =>
    cases v with
    | bool => exact h
    | null => rcases hop with rfl | rfl | rfl <;> rcases h with h | h <;> cases h
    | string | number =>
      obtain ⟨hco, hsw, hew⟩ := h
      rcases hop with rfl | rfl | rfl
      · exact hco rfl
      · exact hsw rfl
      · exact hew rfl
  | booleanLiteralOperator hop =>
    cases kind with
    | boolean => exact hop h.2
    | number => exact h
    | string => exact hop h

/-! ## Comparisons -/

/-- There is a value for what is supported, and a reason that applies for the rest. -/
theorem Ldap.valueOf_cases (hv : v ≠ .null) :
    (∃ w, valueOf kind op v = .ok w) ∧ kind.Supports op v ∨
      ∃ r : Refusal, valueOf kind op v = .error r ∧ r.Applies kind op v := by
  cases kind with
  | boolean yes no =>
    rw [ValueKind.supports_boolean hv]
    cases hb : truthValue? v with
    | none =>
      have htruth : ¬v.NamesTruth := by simp [Literal.namesTruth_iff, hb]
      exact .inr ⟨.booleanExpected, by simp only [valueOf, hb], .booleanExpected hv htruth⟩
    | some b =>
      have htruth := Literal.namesTruth_iff.mpr ⟨b, hb⟩
      by_cases hop : op.isEquality = true
      · refine .inl ⟨⟨.text (if b then yes else no), ?_⟩, htruth, CompareOp.isEquality_iff.mp hop⟩
        simp only [valueOf, hb, if_pos hop]
      · refine .inr ⟨.booleanAttributeOperator, ?_, .booleanAttributeOperator ?_⟩
        · simp only [valueOf, hb, if_neg hop]
        · rwa [← CompareOp.isEquality_iff]
  | number =>
    cases v with
    | bool b => exact .inr ⟨.numberExpected, rfl, .numberExpected⟩
    | null => exact absurd rfl hv
    | string | number =>
      by_cases hop : op.isSubstring = true
      · exact .inr ⟨_, if_pos hop, .numberSubstring (CompareOp.isSubstring_iff.mp hop)⟩
      · refine .inl ⟨⟨_, if_neg hop⟩, ?_⟩
        rw [CompareOp.isSubstring_iff, not_or, not_or] at hop
        exact hop
  | string =>
    cases v with
    | bool b =>
      by_cases hop : op.isEquality = true
      · exact .inl ⟨⟨_, if_pos hop⟩, CompareOp.isEquality_iff.mp hop⟩
      · refine .inr ⟨_, if_neg hop, .booleanLiteralOperator ?_⟩
        rwa [← CompareOp.isEquality_iff]
    | null => exact absurd rfl hv
    | string | number => exact .inl ⟨⟨_, rfl⟩, trivial⟩

theorem Ldap.SearchFilter.ofComparison_cases (m : Mapping) (op : CompareOp) (v : Literal) :
    (∃ g, ofComparison m op v = .ok g) ∧ m.kind.Supports op v ∨
      ∃ r : Refusal, ofComparison m op v = .error r ∧ r.Applies m.kind op v := by
  by_cases hv : v = .null
  · subst hv
    cases op with
    | eq => exact .inl ⟨⟨_, rfl⟩, .inl rfl⟩
    | ne => exact .inl ⟨⟨_, rfl⟩, .inr rfl⟩
    | co | sw | ew | gt | ge | lt | le => exact .inr ⟨_, rfl, .nullOperator (by decide)⟩
  · have heq : ofComparison m op v = (valueOf m.kind op v).map (ofOperator m.name · op) := by
      unfold ofComparison
      split
      · exact absurd rfl hv
      · exact absurd rfl hv
      · exact absurd rfl hv
      · rfl
    rw [heq]
    rcases Ldap.valueOf_cases hv with ⟨⟨w, hw⟩, hs⟩ | ⟨r, hr, happlies⟩
    · exact .inl ⟨⟨_, Outcome.map_eq_ok_iff.mpr ⟨w, hw, rfl⟩⟩, hs⟩
    · exact .inr ⟨r, Outcome.map_eq_error_iff.mpr hr, happlies⟩

/-- **An attribute supports what there is no reason against.** -/
theorem ValueKind.supports_iff : kind.Supports op v ↔ ∀ r : Refusal, ¬r.Applies kind op v := by
  constructor
  · intro h r hr
    exact hr.not_supports h
  · intro h
    rcases Ldap.SearchFilter.ofComparison_cases ⟨"", kind⟩ op v with ⟨-, hs⟩ | ⟨r, -, hr⟩
    · exact hs
    · exact absurd hr (h r)

/-! ## Trees -/

namespace Mapping.Table

variable {α β : Type} {l : Filter} {e : LeafError} {ls ms : List Filter} {g : β}
  {outcome : Except LeafError α}

theorem Blames.not_supports (h : t.Blames l e) : ¬t.Supports l := by
  intro hs
  cases h with
  | present hp =>
    cases hs with
    | present hp' => rw [hp] at hp'; cases hp'
  | path hp =>
    cases hs with
    | compare hp' => rw [hp] at hp'; cases hp'
  | comparison hp hr =>
    cases hs with
    | compare hp' hv =>
      rw [hp] at hp'
      cases hp'
      exact hr.not_supports hv

theorem Blames.quotes {u : Ldap.UnsupportedComparison} (h : t.Blames l (.unsupported u)) : u.Quotes l := by
  have hquote : ∀ a p b o c v d r : String,
      a ++ p ++ b ++ o ++ c ++ v ++ d ++ r = a ++ (p ++ b ++ o ++ c ++ v) ++ d ++ r := by
    intros
    simp only [String.append_assoc]
  cases h with
  | comparison =>
    refine ⟨rfl, ?_, ?_⟩
    · rw [Filter.render, AttrPath.render_eq]
    · unfold Ldap.UnsupportedComparison.message Filter.render
      exact hquote ..

/-- The outcome for questions that are put one after the other: all are answered, or the first that is not is to
    blame. -/
inductive Settles (t : Mapping.Table) {α : Type} : List Filter → Except LeafError α → Prop
  | ok {ls : List Filter} (h : ∀ l ∈ ls, t.Supports l) (g : α) : Settles t ls (.ok g)
  | error {before after : List Filter} {l : Filter} {e : LeafError} (h : ∀ l ∈ before, t.Supports l)
      (hl : t.Blames l e) : Settles t (before ++ l :: after) (.error e)

theorem Settles.supports (h : t.Settles ls (.ok g : Except LeafError β)) : ∀ l ∈ ls, t.Supports l := by
  cases h with
  | ok h => exact h

theorem Settles.blames (h : t.Settles ls (.error e : Except LeafError α)) :
    ∃ before l after, ls = before ++ l :: after ∧ (∀ l' ∈ before, t.Supports l') ∧ t.Blames l e := by
  cases h with
  | error h hl => exact ⟨_, _, _, rfl, h, hl⟩

theorem Settles.map (h : t.Settles ls outcome) (k : α → β) : t.Settles ls (outcome.map k) := by
  cases h with
  | ok h g => exact .ok h (k g)
  | error h hl => exact .error h hl

/-- What comes after a question without an answer does not count. -/
theorem Settles.append_right (h : t.Settles ls (.error e : Except LeafError α)) (ms : List Filter) :
    t.Settles (ls ++ ms) (.error e : Except LeafError β) := by
  cases h with
  | error h hl =>
    rw [List.append_assoc]
    exact .error h hl

/-- Questions that are all answered leave the outcome to those that come after. -/
theorem Settles.append_left (h : t.Settles ls (.ok g : Except LeafError β)) (hms : t.Settles ms outcome) :
    t.Settles (ls ++ ms) outcome := by
  cases h with
  | ok h =>
    cases hms with
    | ok hms g => exact .ok (List.forall_mem_append.mpr ⟨h, hms⟩) g
    | error hms hl =>
      rw [← List.append_assoc]
      exact .error (List.forall_mem_append.mpr ⟨h, hms⟩) hl

theorem Settles.singleton_error (hl : t.Blames l e) :
    t.Settles [l] (.error e : Except LeafError α) := by
  show t.Settles ([] ++ l :: []) _
  exact .error (List.forall_mem_nil _) hl

theorem Settles.singleton_ok (hl : t.Supports l) (g : α) : t.Settles [l] (.ok g) :=
  .ok (List.forall_mem_singleton.mpr hl) g

theorem settles_ofScim_present (t : Mapping.Table) (p : AttrPath) :
    t.Settles [.present p] (ofScim t (.present p)) := by
  rw [ofScim]
  cases hp : t.find? p with
  | none =>
    rw [resolve_of_find?_eq_none hp, AttrPath.logicalName_eq]
    exact .singleton_error (.present hp)
  | some m =>
    rw [resolve_of_find? hp]
    exact .singleton_ok (.present hp) _

theorem settles_ofScim_compare (t : Mapping.Table) (p : AttrPath) (op : CompareOp) (v : Literal) :
    t.Settles [.compare p op v] (ofScim t (.compare p op v)) := by
  rw [ofScim]
  cases hp : t.find? p with
  | none =>
    rw [resolve_of_find?_eq_none hp, AttrPath.logicalName_eq]
    exact .singleton_error (.path hp)
  | some m =>
    rw [resolve_of_find? hp]
    rcases Ldap.SearchFilter.ofComparison_cases m op v with ⟨⟨g, hg⟩, hv⟩ | ⟨r, hg, hr⟩
    · show t.Settles _ ((ofComparison m op v).mapError _)
      rw [hg]
      exact .singleton_ok (.compare hp hv) g
    · show t.Settles _ ((ofComparison m op v).mapError _)
      rw [hg]
      exact .singleton_error (.comparison hp hr)

theorem settles_ofScimAll {fs : List Filter} (ih : ∀ f ∈ fs, t.Settles f.leaves (ofScim t f)) :
    t.Settles (Filter.leavesOfAll fs) (ofScimAll t fs) := by
  induction fs with
  | nil => exact .ok (List.forall_mem_nil _) []
  | cons f fs ihs =>
    have hf := ih f List.mem_cons_self
    have hfs := ihs fun g hg => ih g (List.mem_cons_of_mem f hg)
    rw [Filter.leavesOfAll, ofScimAll]
    split
    · next e he =>
      rw [he] at hf
      exact hf.append_right _
    · next g hg =>
      rw [hg] at hf
      exact hf.append_left (hfs.map _)

/-- A tree is settled by its leaves, whatever joins them. -/
theorem settles_ofScim (t : Mapping.Table) (f : Filter) : t.Settles f.leaves (ofScim t f) := by
  induction f using Filter.inductOperands with
  | compare p op v => exact settles_ofScim_compare t p op v
  | present p => exact settles_ofScim_present t p
  | group f ih => exact ih
  | logical c fs ih => exact (settles_ofScimAll ih).map _

end Mapping.Table

/-- The leaves stand in the order of their paths, one for each. -/
theorem Filter.flatMap_paths_leaves (f : Filter) : f.leaves.flatMap paths = f.paths := by
  induction f using inductOperands with
  | compare | present => rfl
  | group f ih => exact ih
  | logical c fs ih =>
    rw [leaves, paths]
    induction fs with
    | nil => rfl
    | cons f fs ihs =>
      rw [leavesOfAll, List.flatMap_append, pathsOfAll, ih f List.mem_cons_self,
        ihs fun g hg => ih g (List.mem_cons_of_mem f hg)]

/-- **A tree is answered when all of its leaves are, and else refused for the first that is not.** The leaves
    are the comparisons and presence tests in the order of the tree's paths. The report names a path without a
    mapping in its dotted form, with the entity of the table, and quotes a comparison as it is written in a
    filter, with a reason that applies. -/
theorem visit_fails_at_first_unsupported (t : Mapping.Table) (f : Filter) :
    f.leaves.flatMap Filter.paths = f.paths ∧
      ((∃ g, (Visitor.ofTable t).visit f = .ok g) ↔ ∀ l ∈ f.leaves, t.Supports l) ∧
      ∀ e, (Visitor.ofTable t).visit f = .error e → t.BlamesFirst f e := by
  have hsettles := Mapping.Table.settles_ofScim t f
  change f.leaves.flatMap Filter.paths = f.paths ∧ ((∃ g, ofScim t f = .ok g) ↔ _) ∧
    ∀ e, ofScim t f = .error e → _
  refine ⟨f.flatMap_paths_leaves, ⟨?_, ?_⟩, ?_⟩
  · rintro ⟨g, hg⟩
    rw [hg] at hsettles
    exact hsettles.supports
  · intro h
    cases hf : ofScim t f with
    | ok g => exact ⟨g, rfl⟩
    | error e =>
      rw [hf] at hsettles
      obtain ⟨before, l, after, hleaves, -, hl⟩ := hsettles.blames
      have hmem : l ∈ f.leaves := by simp [hleaves]
      exact absurd (h l hmem) hl.not_supports
  · intro e he
    rw [he] at hsettles
    obtain ⟨before, l, after, hleaves, hbefore, hl⟩ := hsettles.blames
    refine ⟨before, l, after, hleaves, hbefore, hl.not_supports, hl, ?_⟩
    rintro u rfl
    exact hl.quotes

/-- An order on a two-valued attribute, under a negation, after a leaf that is answered and before two that are
    not; and a sub-attribute without a mapping, after an attribute that has one. -/
theorem visit_fails_at_first_unsupported_active :
    let t := Mapping.Table.insertAll ⟨.user, false, {}⟩
      [("userName", ⟨"uid", .string⟩), ("active", ⟨"active", .boolean "TRUE" "FALSE"⟩)]
    let f : Filter := .logical .or [
      .group (.compare ⟨"USERNAME", none⟩ .co (.string "x")),
      .logical .not [.logical .and [.compare ⟨"active", none⟩ .gt (.string "True"),
        .present ⟨"nickName", none⟩]],
      .compare ⟨"active", none⟩ .eq (.string "yes")]
    let e : LeafError := .unsupported ⟨⟨"active", none⟩, .gt, .string "True", .booleanAttributeOperator⟩
    let g : Filter := .logical .and [.present ⟨"active", none⟩, .present ⟨"Name", some "last"⟩]
    ((Visitor.ofTable t).visit f = .error e ∧ t.BlamesFirst f e) ∧
      (Visitor.ofTable t).visit g = .error (.unmapped ⟨"Name.last", .user⟩) ∧
        t.BlamesFirst g (.unmapped ⟨"Name.last", .user⟩) := by
  intro t f e g
  have hentries : t.entries.toList
      = [("active", ⟨"active", .boolean "TRUE" "FALSE"⟩), ("username", ⟨"uid", .string⟩)] := by
    decide +kernel
  have hkeys : t.key "USERNAME" = "username" ∧ t.key "active" = "active" ∧ t.key "Name.last" = "name.last" := by
    decide +kernel
  have huser : t.find? ⟨"USERNAME", none⟩ = some ⟨"uid", .string⟩ := by
    apply Mapping.Table.find?_of_get?
    rw [AttrPath.logicalName, hkeys.1, Text.Dictionary.get?, hentries]
    rfl
  have hactive : t.find? ⟨"active", none⟩ = some ⟨"active", .boolean "TRUE" "FALSE"⟩ := by
    apply Mapping.Table.find?_of_get?
    rw [AttrPath.logicalName, hkeys.2.1, Text.Dictionary.get?, hentries]
    rfl
  have hlast : t.find? ⟨"Name", some "last"⟩ = none := by
    rw [Mapping.Table.find?, show AttrPath.logicalName ⟨"Name", some "last"⟩ = "Name.last" from rfl,
      hkeys.2.2, Text.Dictionary.get?, hentries]
    rfl
  have hgt : ofComparison ⟨"active", .boolean "TRUE" "FALSE"⟩ .gt (.string "True")
      = .error .booleanAttributeOperator := by
    have hword : Text.foldCase "True" = "true" := by decide +kernel
    have htruth : (Literal.string "True").NamesTruth := Or.inl hword
    obtain ⟨b, hb⟩ := Literal.namesTruth_iff.mp htruth
    show (valueOf _ _ _).map _ = _
    rw [valueOf, hb]
    rfl
  have hfirst : ∃ g, ofScim t (.group (.compare ⟨"USERNAME", none⟩ .co (.string "x"))) = .ok g := by
    rw [ofScim, ofScim, Mapping.Table.resolve_of_find? huser]
    exact ⟨_, rfl⟩
  have hsecond : ofScim t (.compare ⟨"active", none⟩ .gt (.string "True")) = .error e := by
    rw [ofScim, Mapping.Table.resolve_of_find? hactive]
    show (ofComparison _ _ _).mapError _ = _
    rw [hgt]
    rfl
  -- The error passes through every connective, whatever the leaves after it are.
  have htree : ∀ f₁ f₂ f₃ f₄ g, ofScim t f₁ = .ok g → ofScim t f₂ = .error e →
      ofScim t (.logical .or [f₁, .logical .not [.logical .and [f₂, f₃]], f₄]) = .error e := by
    intro f₁ f₂ f₃ f₄ g h₁ h₂
    simp only [ofScim, ofScimAll, h₁, h₂]
    rfl
  obtain ⟨g₁, hg₁⟩ := hfirst
  have hf : (Visitor.ofTable t).visit f = .error e := htree _ _ _ _ g₁ hg₁ hsecond
  have hg : (Visitor.ofTable t).visit g = .error (.unmapped ⟨"Name.last", .user⟩) := by
    show ofScim t g = _
    simp only [g, ofScim, ofScimAll, Mapping.Table.resolve_of_find? hactive,
      Mapping.Table.resolve_of_find?_eq_none hlast]
    rfl
  exact ⟨⟨hf, (visit_fails_at_first_unsupported t f).2.2 e hf⟩, hg,
    (visit_fails_at_first_unsupported t g).2.2 _ hg⟩

end ScimLdap
