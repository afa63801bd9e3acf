import ScimLdap.Ldap.Visitor
import ScimLdap.Proofs.Canonical
import ScimLdap.Proofs.Rendering
import ScimLdap.Proofs.Tables

/-!
# The image of a filter in the directory

What a SCIM filter becomes, as a function of the tree alone: no text, no escapes, no order of errors. The
text of the visitor has this filter as its only reading (`visit_reads_only_as_image`), so a string literal
stays inside the one value it was given for, whatever it holds.

The function is partial where the tree has no image: an unmapped path, a literal that the attribute has no
text for, a connective without operands. The visitor refuses more than that, which is its own affair.
-/

namespace ScimLdap

open Ldap (DirectoryFilter IsKeyString Reads SearchFilter Value truthValue?)

/-- Every directory attribute of the table has a plain name: a letter, then letters, digits and hyphens. -/
def Mapping.Table.Plain (t : Mapping.Table) : Prop :=
  ∀ e ∈ t.entries.toList, IsKeyString e.2.name.toList

/-- A tree with operands under every connective and with numbers where it has numerals. Otherwise it may be any,
    also one that no text is read as. -/
inductive Filter.WellBuilt : Filter → Prop
  | compare {p : AttrPath} {op : CompareOp} {v : Literal} (hv : v.Writable) : WellBuilt (.compare p op v)
  | present (p : AttrPath) : WellBuilt (.present p)
  | group {f : Filter} (h : WellBuilt f) : WellBuilt (.group f)
  | logical {c : Connective} {fs : List Filter} (hne : fs ≠ []) (h : ∀ f ∈ fs, WellBuilt f) :
      WellBuilt (.logical c fs)

/-! ## The image -/

namespace Image

/-- The truth value that a literal is or names, in any case of its letters. -/
def truthOf? : Literal → Option Bool
  | .bool b => some b
  | .string s => [true, false].find? (fun b => Text.foldCase s == if b then "true" else "false")
  | _ => none

/-- The text that the directory has for a literal on an attribute of a kind. -/
def textOf? : ValueKind → Literal → Option String
  | .boolean trueValue falseValue, v => (truthOf? v).map (fun b => if b then trueValue else falseValue)
  | .string, .bool b => some (if b then "TRUE" else "FALSE")
  | .number, .bool _ => none
  | _, .string s => some s
  | _, .number lexeme => some lexeme
  | _, .null => none

/-- What an operator asks of an attribute, given the text of the literal. The directory has no strict order, and
    it cannot be asked for an empty part: every value has one. -/
def ofOperator (name text : String) : CompareOp → DirectoryFilter
  | .eq => .simple .equal name text
  | .ne => .not (.simple .equal name text)
  | .co => if text = "" then .present name else .substrings name "" [text] ""
  | .sw => if text = "" then .present name else .substrings name text [] ""
  | .ew => if text = "" then .present name else .substrings name "" [] text
  | .ge => .simple .atLeast name text
  | .le => .simple .atMost name text
  | .gt => .and [.simple .atLeast name text, .not (.simple .equal name text)]
  | .lt => .and [.simple .atMost name text, .not (.simple .equal name text)]

/-- The image of a comparison with a mapped attribute. -/
def ofComparison? (m : Mapping) (op : CompareOp) (v : Literal) : Option DirectoryFilter :=
  match op, v with
  | .eq, .null => some (.not (.present m.name))
  | .ne, .null => some (.present m.name)
  | op, v => (textOf? m.kind v).map (ofOperator m.name · op)

/-- The image of a connective over the images of its operands, in their order. -/
def join? : Connective → List DirectoryFilter → Option DirectoryFilter
  | _, [] => none
  | .not, [d] => some (.not d)
  | .and, [d] | .or, [d] => some d
  | .and, ds => some (.and ds)
  | .or, ds => some (.or ds)
  | .not, ds => some (.not (.and ds))

mutual

/-- The image of a filter under a table. -/
def of? (t : Mapping.Table) : Filter → Option DirectoryFilter
  | .compare path op v => (t.find? path).bind (ofComparison? · op v)
  | .present path => (t.find? path).map (fun m => .present m.name)
  | .group inner => of? t inner
  | .logical c fs => (ofAll? t fs).bind (join? c)

def ofAll? (t : Mapping.Table) : List Filter → Option (List DirectoryFilter)
  | [] => some []
  | f :: fs => (of? t f).bind (fun d => (ofAll? t fs).map (d :: ·))

end

end Image

/-! ## Names -/

section
variable {t : Mapping.Table} {path : AttrPath} {m : Mapping}

theorem Mapping.Table.plain_iff_all : t.Plain ↔ t.All (fun m => IsKeyString m.name.toList) :=
  Iff.rfl

theorem Mapping.Table.Plain.name (ht : t.Plain) (h : t.find? path = some m) :
    IsKeyString m.name.toList :=
  (plain_iff_all.mp ht).find? h

theorem Mapping.Table.plain_empty (entity : Entity) (caseSensitive : Bool) :
    (⟨entity, caseSensitive, {}⟩ : Mapping.Table).Plain :=
  plain_iff_all.mpr (all_empty _ entity caseSensitive)

theorem Mapping.Table.Plain.insertAll {entries : List (String × Mapping)} (ht : t.Plain)
    (h : ∀ e ∈ entries, IsKeyString e.2.name.toList) : (t.insertAll entries).Plain :=
  plain_iff_all.mpr ((plain_iff_all.mp ht).insertAll h)

theorem Mapping.Table.plain_builtin (entity : Entity) (caseSensitive : Bool) :
    (Mapping.Table.builtin entity caseSensitive).Plain := by
  apply (plain_empty entity caseSensitive).insertAll
  cases entity with
  | user | group | fidoDevice => decide +kernel

end

/-! ## The visitor writes the image -/

namespace Image

open Ldap (valueOf)
open Ldap.SearchFilter (denote denoteAll denoteAll_eq_map ofScim ofScimAll)

variable {m : Mapping} {op : CompareOp} {v : Literal} {g : SearchFilter}

theorem truthOf?_of_truthValue? {b : Bool} (h : truthValue? v = some b) : truthOf? v = some b := by
  -- The visitor folds the words as well as the literal; both are small already.
  have hfold : Text.foldCase "true" = "true" ∧ Text.foldCase "false" = "false" := by decide +kernel
  unfold truthValue? at h
  split at h
  · exact h
  · split at h
    · next hs =>
      rw [Text.sameFold_iff, hfold.1] at hs
      cases h
      simp [truthOf?, hs]
    split at h
    · next hs =>
      rw [Text.sameFold_iff, hfold.2] at hs
      cases h
      simp [truthOf?, hs]
    · cases h
  · cases h

theorem textOf?_of_valueOf {kind : ValueKind} {w : Value} (hv : v.Writable)
    (h : valueOf kind op v = .ok w) : textOf? kind v = some w.raw ∧ w.Readable := by
  -- In the order of the visitor's cases: two-valued attributes, truth values, numbers, strings, `null`.
  unfold valueOf at h
  split at h
  · next trueValue falseValue =>
    split at h
    · cases h
    · next b hb =>
      split at h
      · cases h
        exact ⟨by rw [textOf?, truthOf?_of_truthValue? hb]; rfl, trivial⟩
      · cases h
  · cases h
  · split at h
    · cases h
      exact ⟨rfl, trivial⟩
    · cases h
  · split at h
    · cases h
    · cases h
      exact ⟨rfl, hv⟩
  · split at h
    · cases h
    · cases h
      exact ⟨rfl, trivial⟩
  · cases h
    exact ⟨rfl, hv⟩
  · cases h
    exact ⟨rfl, trivial⟩
  · cases h

/-- A part of a value: the empty one is asked for as presence. -/
theorem holding_denotes {name : String} (hn : IsKeyString name.toList) {w : Value} (hw : w.Readable)
    (part : Ldap.Part) :
    (SearchFilter.holding name part w).Readable ∧
      denote (.holding name part w)
        = if w.raw = "" then .present name else denote (.substring name part w) := by
  rw [SearchFilter.holding]
  by_cases hempty : w.raw = ""
  · rw [if_pos hempty, if_pos (by rw [hempty]; rfl)]
    exact ⟨.present hn, rfl⟩
  · have hlive : ¬w.raw.isEmpty = true := fun h => hempty (String.isEmpty_iff.mp h)
    rw [if_neg hempty, if_neg hlive]
    exact ⟨.substring hn hw hempty, rfl⟩

theorem ofOperator_denotes {name : String} (hn : IsKeyString name.toList) {w : Value}
    (hw : w.Readable) (op : CompareOp) :
    (SearchFilter.ofOperator name w op).Readable ∧
      denote (.ofOperator name w op) = ofOperator name w.raw op := by
  have strict : ∀ f : SearchFilter, f.Readable →
      (SearchFilter.and [f, .not (.equal name w)]).Readable := by
    intro f hf
    refine .and (List.cons_ne_nil _ _) fun g hg => ?_
    simp only [List.mem_cons, List.not_mem_nil, or_false] at hg
    rcases hg with rfl | rfl
    · exact hf
    · exact .not (.equal hn hw)
  cases op with
  | eq => exact ⟨.equal hn hw, rfl⟩
  | ne => exact ⟨.not (.equal hn hw), rfl⟩
  | co => exact holding_denotes hn hw .any
  | sw => exact holding_denotes hn hw .initial
  | ew => exact holding_denotes hn hw .final
  | ge => exact ⟨.atLeast hn hw, rfl⟩
  | le => exact ⟨.atMost hn hw, rfl⟩
  | gt => exact ⟨strict _ (.atLeast hn hw), rfl⟩
  | lt => exact ⟨strict _ (.atMost hn hw), rfl⟩

theorem ofComparison_denotes (hn : IsKeyString m.name.toList) (hv : v.Writable)
    (h : SearchFilter.ofComparison m op v = .ok g) :
    g.Readable ∧ ofComparison? m op v = some g.denote := by
  unfold SearchFilter.ofComparison at h
  split at h
  · cases h
    exact ⟨.not (.present hn), rfl⟩
  · cases h
    exact ⟨.present hn, rfl⟩
  · cases h
  · next hnull _ _ =>
    obtain ⟨w, hw, rfl⟩ := Outcome.map_eq_ok_iff.mp h
    obtain ⟨htext, hread⟩ := textOf?_of_valueOf hv hw
    obtain ⟨hreadable, hdenote⟩ := ofOperator_denotes hn hread op
    refine ⟨hreadable, ?_⟩
    rw [hdenote]
    unfold ofComparison?
    split
    · exact absurd rfl hnull
    · exact absurd rfl hnull
    · rw [htext]; rfl

/-- Operands are combined in the directory's terms as they are in the visitor's. -/
theorem ofConnective_denotes {c : Connective} {gs : List SearchFilter} (hne : gs ≠ [])
    (h : ∀ g ∈ gs, g.Readable) :
    (SearchFilter.ofConnective c gs).Readable ∧
      join? c (denoteAll gs) = some (denote (.ofConnective c gs)) := by
  match gs with
  | [] => exact absurd rfl hne
  | [g] =>
    have hg := h g List.mem_cons_self
    cases c with
    | and | or => exact ⟨hg, rfl⟩
    | not => exact ⟨.not hg, rfl⟩
  | g :: g' :: gs =>
    cases c with
    | and => exact ⟨.and hne h, rfl⟩
    | or => exact ⟨.or hne h, rfl⟩
    | not => exact ⟨.not (.and hne h), rfl⟩

theorem ofAll?_eq_some {t : Mapping.Table} {f : Filter} {fs : List Filter} {d : DirectoryFilter}
    {ds : List DirectoryFilter} (hd : of? t f = some d) (hds : ofAll? t fs = some ds) :
    ofAll? t (f :: fs) = some (d :: ds) := by
  rw [ofAll?, hd, hds]
  rfl

variable {t : Mapping.Table} {f : Filter}

theorem ofScimAll_denotes {fs : List Filter} {gs : List SearchFilter}
    (ih : ∀ f ∈ fs, ∀ {g : SearchFilter}, ofScim t f = .ok g → g.Readable ∧ of? t f = some g.denote)
    (h : ofScimAll t fs = .ok gs) :
    (∀ g ∈ gs, g.Readable) ∧ ofAll? t fs = some (denoteAll gs) ∧ gs.length = fs.length := by
  induction fs generalizing gs with
  | nil =>
    cases h
    exact ⟨fun g hg => absurd hg List.not_mem_nil, rfl, rfl⟩
  | cons f fs ihs =>
    rw [ofScimAll] at h
    split at h
    · cases h
    · next g hg =>
      obtain ⟨rest, hs, rfl⟩ := Outcome.map_eq_ok_iff.mp h
      obtain ⟨hread, himage⟩ := ih f List.mem_cons_self hg
      obtain ⟨hreads, himages, hlen⟩ := ihs (fun a ha => ih a (List.mem_cons_of_mem f ha)) hs
      refine ⟨fun a ha => ?_, ofAll?_eq_some himage himages, congrArg (· + 1) hlen⟩
      rcases List.mem_cons.mp ha with rfl | ha
      · exact hread
      · exact hreads a ha

/-- What the visitor answers may be written, and it denotes the image. -/
theorem ofScim_denotes (ht : t.Plain) (hf : f.WellBuilt) {g : SearchFilter} (h : ofScim t f = .ok g) :
    g.Readable ∧ of? t f = some g.denote := by
  -- On the tree; the visitor and the image take it apart in the same way.
  induction hf generalizing g with
  | compare hv =>
    rw [ofScim] at h
    split at h
    · cases h
    · next m hm =>
      have hfind := Mapping.Table.find?_of_resolve hm
      have hcomp := Outcome.mapError_eq_ok_iff.mp h
      rw [of?, hfind]
      exact ofComparison_denotes (ht.name hfind) hv hcomp
  | present p =>
    rw [ofScim] at h
    split at h
    · cases h
    · next m hm =>
      cases h
      have hfind := Mapping.Table.find?_of_resolve hm
      rw [of?, hfind]
      exact ⟨.present (ht.name hfind), rfl⟩
  | group _ ih =>
    rw [ofScim] at h
    rw [of?]
    exact ih h
  | @logical c fs hne _ ih =>
    rw [ofScim] at h
    obtain ⟨gs, hs, rfl⟩ := Outcome.map_eq_ok_iff.mp h
    obtain ⟨hreads, himages, hlen⟩ := ofScimAll_denotes ih hs
    have hgs : gs ≠ [] := by
      rintro rfl
      exact hne (List.length_eq_zero_iff.mp hlen.symm)
    rw [of?, himages]
    exact ofConnective_denotes hgs hreads

end Image

/-- **The visitor's text has one reading, the image of the tree.** Strings in the tree may hold any characters,
    and the words of a two-valued attribute may too. -/
theorem visit_reads_only_as_image {t : Mapping.Table} (ht : t.Plain) {f : Filter} (hf : f.WellBuilt)
    {g : SearchFilter} (h : (Ldap.Visitor.ofTable t).visit f = .ok g) :
    ∃ d, Image.of? t f = some d ∧ ∀ d', Reads g.render.toList d' ↔ d' = d := by
  obtain ⟨hreadable, himage⟩ := Image.ofScim_denotes ht hf h
  exact ⟨g.denote, himage, fun d' => hreadable.reads_iff⟩

/-- A literal and a table's word that close the parentheses around them and open others, in a tree that no text
    is read as: each stays one value. -/
theorem visit_reads_only_as_image_injection :
    let t := Mapping.Table.insertAll ⟨.user, false, {}⟩
      [("userName", ⟨"uid", .string⟩), ("active", ⟨"status", .boolean "*" "no)"⟩)]
    let f : Filter := .logical .not [.compare ⟨"userName", none⟩ .sw (.string "*)(uid=*"),
      .compare ⟨"active", none⟩ .eq (.bool false)]
    ∃ g, (Ldap.Visitor.ofTable t).visit f = .ok g ∧
      g.render = "(!(&(uid=\\2a\\29\\28uid=\\2a*)(status=no\\29)))" ∧
      ∀ d', Reads g.render.toList d' ↔ d' = .not (.and
        [.substrings "uid" "*)(uid=*" [] "", .simple .equal "status" "no)"]) := by
  intro t f
  have ht : t.Plain := (Mapping.Table.plain_empty .user false).insertAll (by decide +kernel)
  have hf : f.WellBuilt := by
    refine .logical (List.cons_ne_nil _ _) fun x hx => ?_
    simp only [List.mem_cons, List.not_mem_nil, or_false] at hx
    rcases hx with rfl | rfl
    · exact .compare trivial
    · exact .compare trivial
  have huid : t.find? ⟨"userName", none⟩ = some ⟨"uid", .string⟩ := by decide +kernel
  have hstatus : t.find? ⟨"active", none⟩ = some ⟨"status", .boolean "*" "no)"⟩ := by
    decide +kernel
  have htext : ((Ldap.Visitor.ofTable t).visit f).toOption.map SearchFilter.render
      = some "(!(&(uid=\\2a\\29\\28uid=\\2a*)(status=no\\29)))" := by decide +kernel
  cases hg : (Ldap.Visitor.ofTable t).visit f with
  | error e => rw [hg] at htext; cases htext
  | ok g =>
    rw [hg] at htext
    obtain ⟨d, hd, hreads⟩ := visit_reads_only_as_image ht hf hg
    refine ⟨g, rfl, Option.some.inj htext, fun d' => ?_⟩
    rw [hreads d']
    simp only [f, Image.of?, Image.ofAll?, huid, hstatus, Option.bind_some] at hd
    cases hd
    rfl

end ScimLdap
