import ScimLdap.Proofs.Image

/-!
# What filters mean — the same of an entry on both sides

Two semantics over one entry. `DirectoryFilter.Holds` is the directory's: it has equality, presence, parts and
two orders that include equality, and it knows no table. `Filter.Holds` is SCIM's: it goes through the table
and asks of the values directly, with a strict order and `null`. They agree on a tree and its image
(`Image.holds_iff`), and the text of the visitor has the image as its only reading.

**One condition is left, and it is about the entry.** The image of `gt` asks for a value that is at least the
literal and for none that is equal to it. These are two questions to two values where an attribute has
several, so a strict order needs attributes with one value at most.
-/

namespace ScimLdap

namespace Ldap

/-- The values of each attribute. -/
abbrev Entry := String → List String

/-- A total order on values. -/
structure ValueOrder where
  le : String → String → Prop
  refl : ∀ a, le a a
  trans : ∀ {a b c}, le a b → le b c → le a c
  antisymm : ∀ {a b}, le a b → le b a → a = b
  total : ∀ a b, le a b ∨ le b a

def ValueOrder.lt (o : ValueOrder) (a b : String) : Prop :=
  ¬o.le b a

theorem ValueOrder.lt_iff (o : ValueOrder) {a b : String} : o.lt a b ↔ o.le a b ∧ a ≠ b := by
  constructor
  · intro h
    refine ⟨(o.total a b).resolve_right h, ?_⟩
    rintro rfl
    exact h (o.refl a)
  · rintro ⟨hle, hne⟩ hge
    exact hne (o.antisymm hle hge)

/-- What a directory decides for itself: the order of values, and what no filter here asks for. -/
structure Rules where
  order : ValueOrder
  approx : String → String → Prop
  extensible : String → String → Entry → Prop

/-! ## The directory's side -/

/-- A value against the one that is asserted. -/
def MatchType.Holds (rules : Rules) (value asserted : String) : MatchType → Prop
  | .equal => value = asserted
  | .approx => rules.approx value asserted
  | .atLeast => rules.order.le asserted value
  | .atMost => rules.order.le value asserted

/-- The parts stand one after the other, and the last of all at the end. -/
def InOrder : List String → String → List Char → Prop
  | [], final, cs => final.toList <:+ cs
  | part :: parts, final, cs =>
    ∃ before after, cs = before ++ part.toList ++ after ∧ InOrder parts final after

/-- A value against the parts of a pattern. -/
def HasParts (initial : String) (inner : List String) (final : String) (value : String) : Prop :=
  ∃ rest, value.toList = initial.toList ++ rest ∧ InOrder inner final rest

namespace DirectoryFilter

mutual

/-- Whether a directory finds an entry. -/
def Holds (rules : Rules) (entry : Entry) : DirectoryFilter → Prop
  | .and filters => AllHold rules entry filters
  | .or filters => SomeHolds rules entry filters
  | .not filter => ¬Holds rules entry filter
  | .simple type name asserted => ∃ v ∈ entry name, type.Holds rules v asserted
  | .present name => entry name ≠ []
  | .substrings name initial inner final => ∃ v ∈ entry name, HasParts initial inner final v
  | .extensible subject asserted => rules.extensible subject asserted entry

def AllHold (rules : Rules) (entry : Entry) : List DirectoryFilter → Prop
  | [] => True
  | d :: ds => Holds rules entry d ∧ AllHold rules entry ds

def SomeHolds (rules : Rules) (entry : Entry) : List DirectoryFilter → Prop
  | [] => False
  | d :: ds => Holds rules entry d ∨ SomeHolds rules entry ds

end

end DirectoryFilter

end Ldap

open Ldap (Entry ValueOrder Rules DirectoryFilter HasParts InOrder Reads SearchFilter)

/-! ## The side of SCIM -/

/-- An operator against the values of an attribute. -/
def CompareOp.Holds (o : ValueOrder) (values : List String) (text : String) : CompareOp → Prop
  | .eq => ∃ v ∈ values, v = text
  | .ne => ¬∃ v ∈ values, v = text
  | .co => ∃ v ∈ values, text.toList <:+: v.toList
  | .sw => ∃ v ∈ values, text.toList <+: v.toList
  | .ew => ∃ v ∈ values, text.toList <:+ v.toList
  | .ge => ∃ v ∈ values, o.le text v
  | .le => ∃ v ∈ values, o.le v text
  | .gt => ∃ v ∈ values, o.lt text v
  | .lt => ∃ v ∈ values, o.lt v text

/-- A comparison with a mapped attribute. To be `null` is to have no value. -/
def Mapping.Holds (m : Mapping) (o : ValueOrder) (entry : Entry) (op : CompareOp) (v : Literal) : Prop :=
  match op, v with
  | .eq, .null => entry m.name = []
  | .ne, .null => entry m.name ≠ []
  | op, v => ∃ text, Image.textOf? m.kind v = some text ∧ op.Holds o (entry m.name) text

namespace Filter

mutual

/-- Whether a filter is true of an entry whose attributes are read through a table. -/
def Holds (t : Mapping.Table) (o : ValueOrder) (entry : Entry) : Filter → Prop
  | .compare path op v => ∃ m, t.find? path = some m ∧ m.Holds o entry op v
  | .present path => ∃ m, t.find? path = some m ∧ entry m.name ≠ []
  | .group inner => Holds t o entry inner
  | .logical .and operands => AllHold t o entry operands
  | .logical .or operands => SomeHolds t o entry operands
  | .logical .not operands => ¬AllHold t o entry operands

def AllHold (t : Mapping.Table) (o : ValueOrder) (entry : Entry) : List Filter → Prop
  | [] => True
  | f :: fs => Holds t o entry f ∧ AllHold t o entry fs

def SomeHolds (t : Mapping.Table) (o : ValueOrder) (entry : Entry) : List Filter → Prop
  | [] => False
  | f :: fs => Holds t o entry f ∨ SomeHolds t o entry fs

end

mutual

/-- The comparisons of a filter, from left to right. -/
def comparisons : Filter → List (AttrPath × CompareOp × Literal)
  | .compare path op v => [(path, op, v)]
  | .present _ => []
  | .group inner => comparisons inner
  | .logical _ operands => comparisonsOfAll operands

def comparisonsOfAll : List Filter → List (AttrPath × CompareOp × Literal)
  | [] => []
  | f :: fs => comparisons f ++ comparisonsOfAll fs

end

/-- The entry has at most one value wherever the filter asks for a strict order. -/
def SingleValued (t : Mapping.Table) (entry : Entry) (f : Filter) : Prop :=
  ∀ path op v m, (path, op, v) ∈ f.comparisons → op = .gt ∨ op = .lt → t.find? path = some m →
    (entry m.name).length ≤ 1

theorem comparisons_subset {f : Filter} {fs : List Filter} (hf : f ∈ fs) :
    f.comparisons ⊆ comparisonsOfAll fs := by
  induction fs with
  | nil => exact absurd hf List.not_mem_nil
  | cons g fs ih =>
    rw [comparisonsOfAll]
    rcases List.mem_cons.mp hf with rfl | hf
    · exact List.subset_append_left _ _
    · exact fun c hc => List.mem_append_right _ (ih hf hc)

theorem SingleValued.operand {t : Mapping.Table} {entry : Entry} {c : Connective} {f : Filter}
    {fs : List Filter} (h : SingleValued t entry (.logical c fs)) (hf : f ∈ fs) :
    f.SingleValued t entry := by
  intro path op v m hmem
  apply h path op v m
  rw [comparisons]
  exact comparisons_subset hf hmem

end Filter

/-! ## They agree -/

namespace Image

section
variable {rules : Rules} {entry : Entry} {name text : String}

/-- A question to one value and the question whether it is the literal are one question. -/
theorem exists_and_ne_iff {values : List String} {p q : String → Prop} (h : values.length ≤ 1)
    (hq : ∀ v, q v ↔ p v ∧ v ≠ text) :
    ((∃ v ∈ values, p v) ∧ ¬∃ v ∈ values, v = text) ↔ ∃ v ∈ values, q v := by
  match values with
  | [] => simp
  -- With two values, one could be on the right side of the literal and the other equal to it.
  | [v] =>
    simp only [List.mem_singleton, exists_eq_left]
    exact (hq v).symm
  | _ :: _ :: _ => simp at h

theorem suffix_nil (cs : List Char) : "".toList <:+ cs :=
  List.nil_suffix

theorem hasParts_any {v : String} : HasParts "" [text] "" v ↔ text.toList <:+: v.toList := by
  constructor
  · rintro ⟨rest, hrest, before, after, rfl, -⟩
    exact ⟨before, after, hrest.symm⟩
  · rintro ⟨before, after, h⟩
    exact ⟨v.toList, rfl, before, after, h.symm, suffix_nil after⟩

theorem hasParts_initial {v : String} : HasParts text [] "" v ↔ text.toList <+: v.toList := by
  constructor
  · rintro ⟨rest, hrest, -⟩
    exact ⟨rest, hrest.symm⟩
  · rintro ⟨rest, hrest⟩
    exact ⟨rest, hrest.symm, suffix_nil rest⟩

theorem hasParts_final {v : String} : HasParts "" [] text v ↔ text.toList <:+ v.toList := by
  constructor
  · rintro ⟨rest, hrest, hfinal⟩
    rw [hrest]
    exact hfinal
  · intro h
    exact ⟨v.toList, rfl, h⟩

/-- Every value has the empty part, so to ask for it is to ask for a value. -/
theorem present_iff_exists {values : List String} {p : String → Prop} (hp : ∀ v, p v) :
    values ≠ [] ↔ ∃ v ∈ values, p v := by
  constructor
  · intro hne
    obtain ⟨v, vs, rfl⟩ := List.exists_cons_of_ne_nil hne
    exact ⟨v, List.mem_cons_self, hp v⟩
  · rintro ⟨v, hv, -⟩
    exact List.ne_nil_of_mem hv

/-- A part of a value, with presence for the empty one. -/
theorem part_holds_iff {d : DirectoryFilter} {p : List Char → List Char → Prop}
    (hempty : ∀ cs, p "".toList cs)
    (hd : d.Holds rules entry ↔ ∃ v ∈ entry name, p text.toList v.toList) :
    (if text = "" then DirectoryFilter.present name else d).Holds rules entry ↔
      ∃ v ∈ entry name, p text.toList v.toList := by
  by_cases ht : text = ""
  -- Presence asks for a value, and every value has the empty part.
  · subst ht
    rw [if_pos rfl, DirectoryFilter.Holds]
    exact present_iff_exists fun v => hempty v.toList
  · rw [if_neg ht]
    exact hd

theorem ofOperator_holds_iff {op : CompareOp} (h : op = .gt ∨ op = .lt → (entry name).length ≤ 1) :
    (ofOperator name text op).Holds rules entry ↔ op.Holds rules.order (entry name) text := by
  have simple : ∀ type : Ldap.MatchType, (DirectoryFilter.simple type name text).Holds rules entry ↔
      ∃ v ∈ entry name, type.Holds rules v text := by
    intro type
    rw [DirectoryFilter.Holds]
  have not_equal : (DirectoryFilter.not (.simple .equal name text)).Holds rules entry ↔
      ¬∃ v ∈ entry name, v = text := by
    rw [DirectoryFilter.Holds, simple]
    rfl
  have both : ∀ d e : DirectoryFilter, (DirectoryFilter.and [d, e]).Holds rules entry ↔
      d.Holds rules entry ∧ e.Holds rules entry := by
    intro d e
    simp [DirectoryFilter.Holds, DirectoryFilter.AllHold]
  cases op with
  | eq => exact simple .equal
  | ne => exact not_equal
  | ge => exact simple .atLeast
  | le => exact simple .atMost
  | co =>
    refine part_holds_iff (fun _ => List.nil_infix) ?_
    simp only [DirectoryFilter.Holds, hasParts_any]
  | sw =>
    refine part_holds_iff (fun _ => List.nil_prefix) ?_
    simp only [DirectoryFilter.Holds, hasParts_initial]
  | ew =>
    refine part_holds_iff (fun _ => List.nil_suffix) ?_
    simp only [DirectoryFilter.Holds, hasParts_final]
  | gt =>
    rw [ofOperator, both, simple, not_equal]
    exact exists_and_ne_iff (h (.inl rfl)) fun v => by rw [ValueOrder.lt_iff, ne_comm]; rfl
  | lt =>
    rw [ofOperator, both, simple, not_equal]
    exact exists_and_ne_iff (h (.inr rfl)) fun v => ValueOrder.lt_iff _

theorem ofComparison_holds_iff {m : Mapping} {op : CompareOp} {v : Literal} {d : DirectoryFilter}
    (h : op = .gt ∨ op = .lt → (entry m.name).length ≤ 1) (hd : ofComparison? m op v = some d) :
    d.Holds rules entry ↔ m.Holds rules.order entry op v := by
  unfold ofComparison? at hd
  split at hd
  · cases hd
    simp [DirectoryFilter.Holds, Mapping.Holds]
  · cases hd
    simp [DirectoryFilter.Holds, Mapping.Holds]
  · next heq hne =>
    obtain ⟨text, htext, rfl⟩ := Option.map_eq_some_iff.mp hd
    rw [ofOperator_holds_iff h]
    unfold Mapping.Holds
    split
    · exact (heq rfl rfl).elim
    · exact (hne rfl rfl).elim
    · simp [htext]

/-! ## Over the whole tree -/

variable {t : Mapping.Table}

/-- A connective of images means what it means of the operands. -/
theorem join?_holds_iff {c : Connective} {ds : List DirectoryFilter} {d : DirectoryFilter}
    (hd : join? c ds = some d) :
    d.Holds rules entry ↔ match c with
      | .and => DirectoryFilter.AllHold rules entry ds
      | .or => DirectoryFilter.SomeHolds rules entry ds
      | .not => ¬DirectoryFilter.AllHold rules entry ds := by
  match ds with
  | [] => cases c <;> cases hd
  | [e] =>
    cases c with
    | and | or | not =>
      cases hd
      simp [DirectoryFilter.Holds, DirectoryFilter.AllHold, DirectoryFilter.SomeHolds]
  | e :: e' :: ds =>
    cases c with
    | and | or | not =>
      cases hd
      simp only [DirectoryFilter.Holds]

theorem ofAll?_holds_iff {fs : List Filter} {ds : List DirectoryFilter}
    (ih : ∀ f ∈ fs, ∀ d, of? t f = some d → (d.Holds rules entry ↔ f.Holds t rules.order entry))
    (h : ofAll? t fs = some ds) :
    (DirectoryFilter.AllHold rules entry ds ↔ Filter.AllHold t rules.order entry fs) ∧
      (DirectoryFilter.SomeHolds rules entry ds ↔ Filter.SomeHolds t rules.order entry fs) := by
  induction fs generalizing ds with
  | nil =>
    cases h
    exact ⟨Iff.rfl, Iff.rfl⟩
  | cons f fs ihs =>
    rw [ofAll?, Option.bind_eq_some_iff] at h
    obtain ⟨d, hd, h⟩ := h
    obtain ⟨rest, hrest, rfl⟩ := Option.map_eq_some_iff.mp h
    have hf := ih f List.mem_cons_self d hd
    obtain ⟨hall, hsome⟩ := ihs (fun a ha => ih a (List.mem_cons_of_mem f ha)) hrest
    exact ⟨and_congr hf hall, or_congr hf hsome⟩

/-- **A tree and its image are true of the same entries.** -/
theorem holds_iff {f : Filter} (hs : f.SingleValued t entry) {d : DirectoryFilter}
    (hd : of? t f = some d) : d.Holds rules entry ↔ f.Holds t rules.order entry := by
  induction f using Filter.inductOperands generalizing d with
  | compare path op v =>
    rw [of?, Option.bind_eq_some_iff] at hd
    obtain ⟨m, hm, hd⟩ := hd
    have hsingle : op = .gt ∨ op = .lt → (entry m.name).length ≤ 1 := fun hop =>
      hs path op v m List.mem_cons_self hop hm
    rw [ofComparison_holds_iff hsingle hd, Filter.Holds]
    simp [hm]
  | present path =>
    rw [of?, Option.map_eq_some_iff] at hd
    obtain ⟨m, hm, rfl⟩ := hd
    simp [DirectoryFilter.Holds, Filter.Holds, hm]
  | group f ih =>
    rw [of?] at hd
    rw [Filter.Holds]
    exact ih hs hd
  | logical c fs ih =>
    rw [of?, Option.bind_eq_some_iff] at hd
    obtain ⟨ds, hds, hd⟩ := hd
    obtain ⟨hall, hsome⟩ := ofAll?_holds_iff (fun f hf d => ih f hf (hs.operand hf)) hds
    rw [join?_holds_iff hd]
    cases c with
    | and => exact hall
    | or => exact hsome
    | not => exact not_congr hall

end

end Image

theorem Filter.wellBuilt_of_parse {options : Filter.Options} {text : String} {f : Filter}
    (h : Filter.parse options text = .ok f) : f.WellBuilt := by
  obtain ⟨hn, hw, -⟩ := Filter.normal_and_writable_of_parse h
  clear h
  induction hn with
  | compare =>
    cases hw with
    | compare _ hv => exact .compare hv
  | present p => exact .present p
  | group _ ih =>
    cases hw with
    | group hw => exact .group (ih hw)
  | negation _ ih =>
    cases hw with
    | logical hw =>
      refine .logical (List.cons_ne_nil _ _) fun f hf => ?_
      rw [List.mem_singleton.mp hf]
      exact ih (hw _ List.mem_cons_self)
  | conjunction two _ _ ih | disjunction two _ _ ih =>
    cases hw with
    | logical hw =>
      refine .logical ?_ fun f hf => ih f hf (hw f hf)
      rintro rfl
      simp at two

/-- **What the visitor answers means what was asked.** For a filter that was read, the text has one reading in
    the directory, and the directory finds an entry by it exactly when the filter is true of the entry. -/
theorem visit_preserves_meaning {t : Mapping.Table} (ht : t.Plain) {options : Filter.Options}
    {text : String} {f : Filter} (hf : Filter.parse options text = .ok f) {g : SearchFilter}
    (h : (Ldap.Visitor.ofTable t).visit f = .ok g) (rules : Rules) (entry : Entry)
    (hs : f.SingleValued t entry) :
    ∃ d, (∀ d', Reads g.render.toList d' ↔ d' = d) ∧
      (d.Holds rules entry ↔ f.Holds t rules.order entry) := by
  obtain ⟨hreadable, himage⟩ := Image.ofScim_denotes ht (Filter.wellBuilt_of_parse hf) h
  exact ⟨g.denote, fun d' => hreadable.reads_iff, Image.holds_iff hs himage⟩

/-- A strict order and a part with a star in it, asked of an entry that has both. -/
theorem visit_preserves_meaning_counter :
    let t := Mapping.Table.insertAll ⟨.fidoDevice, false, {}⟩
      [("counter", ⟨"oxCounter", .number⟩), ("name", ⟨"cn", .string⟩)]
    let rules : Rules :=
      ⟨⟨(· ≤ ·), String.le_refl, String.le_trans, String.le_antisymm, String.le_total⟩, (· = ·),
        fun _ _ _ => False⟩
    let entry : Entry := fun name =>
      if name = "oxCounter" then ["7"] else if name = "cn" then ["a*b"] else []
    ∃ f g d, Filter.parse {} "counter gt 5 and name co \"*\"" = .ok f ∧
      (Ldap.Visitor.ofTable t).visit f = .ok g ∧
      g.render = "(&(&(oxCounter>=5)(!(oxCounter=5)))(cn=*\\2a*))" ∧
      (∀ d', Reads g.render.toList d' ↔ d' = d) ∧ d.Holds rules entry := by
  intro t rules entry
  let f : Filter := .logical .and [.compare ⟨"counter", none⟩ .gt (.number "5"),
    .compare ⟨"name", none⟩ .co (.string "*")]
  have ht : t.Plain := (Mapping.Table.plain_empty .fidoDevice false).insertAll (by decide +kernel)
  have hf : (Filter.parse {} "counter gt 5 and name co \"*\"").toOption = some f := by decide +kernel
  have hcounter : t.find? ⟨"counter", none⟩ = some ⟨"oxCounter", .number⟩ := by decide +kernel
  have hname : t.find? ⟨"name", none⟩ = some ⟨"cn", .string⟩ := by decide +kernel
  have htext : ((Ldap.Visitor.ofTable t).visit f).toOption.map SearchFilter.render
      = some "(&(&(oxCounter>=5)(!(oxCounter=5)))(cn=*\\2a*))" := by decide +kernel
  have hs : f.SingleValued t entry := by
    intro path op v m _ _ _
    show (if m.name = "oxCounter" then ["7"] else if m.name = "cn" then ["a*b"] else []).length ≤ 1
    split
    · exact Nat.le_refl 1
    split
    · exact Nat.le_refl 1
    · exact Nat.zero_le 1
  have htrue : f.Holds t rules.order entry := by
    refine ⟨⟨_, hcounter, "5", rfl, "7", List.mem_cons_self, ?_⟩,
      ⟨_, hname, "*", rfl, "a*b", List.mem_cons_self, ['a'], ['b'], rfl⟩, trivial⟩
    exact fun h => absurd h (by decide)
  cases hparse : Filter.parse {} "counter gt 5 and name co \"*\"" with
  | error e => rw [hparse] at hf; cases hf
  | ok f' =>
    rw [hparse] at hf
    cases hf
    cases hg : (Ldap.Visitor.ofTable t).visit f with
    | error e => rw [hg] at htext; cases htext
    | ok g =>
      rw [hg] at htext
      obtain ⟨d, hreads, hd⟩ := visit_preserves_meaning ht hparse hg rules entry hs
      exact ⟨f, g, d, rfl, hg, Option.some.inj htext, hreads, hd.mpr htrue⟩

end ScimLdap
