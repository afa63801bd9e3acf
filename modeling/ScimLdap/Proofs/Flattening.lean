import ScimLdap.Proofs.Canonical

/-!
# Flattening — what the text of any tree is read as, and what that means

A tree that was built by hand may hold what no text can say: an `and` under an `and`, an `or` under an `or`,
a connective with one operand. Its text is read as the tree without these, `flat`, once the groups stand
where the text has parentheses. Flattening keeps the questions of the tree and their order (`leaves_flat`),
its truth under every assignment to them (`truth_flat`), and its text (`Guarded.render_flat`), so nothing is
lost but the shape.

The one thing that could go wrong is an `or` that comes to stand under an `and` when what was between them
goes away. It does not: `Guarded` says that no `or` stands there to begin with, and what is not an `or`
does not flatten to one (`Guarded.normal_flat`).
-/

namespace ScimLdap

/-! ## Truth -/

/-- The truth of a connective by that of its operands. -/
def Connective.decide : Connective → List Bool → Bool
  | .and, bs => bs.all id
  | .or, bs => bs.any id
  | .not, bs => !bs.all id

theorem Connective.decide_append_congr {bs bs' ds ds' : List Bool} (c : Connective)
    (hb : c.decide bs = c.decide bs') (hd : c.decide ds = c.decide ds') :
    c.decide (bs ++ ds) = c.decide (bs' ++ ds') := by
  cases c <;> simp_all [Connective.decide]

theorem Connective.decide_singleton {c : Connective} (hc : c ≠ .not) (b : Bool) :
    c.decide [b] = b := by
  cases c with
  | and => exact Bool.and_true b
  | or => exact Bool.or_false b
  | not => exact absurd rfl hc

namespace Filter

mutual

/-- The questions that a filter asks, its comparisons and presence tests, from left to right. -/
def leaves : Filter → List Filter
  | .compare path op value => [.compare path op value]
  | .present path => [.present path]
  | .logical _ operands => leavesOfAll operands
  | .group inner => leaves inner

def leavesOfAll : List Filter → List Filter
  | [] => []
  | f :: fs => leaves f ++ leavesOfAll fs

end

mutual

/-- The truth of a filter when `a` answers its questions, numbered from `n` on from left to right. Two questions
    may be the same and be answered differently. -/
def truth (a : Nat → Bool) (n : Nat) : Filter → Bool
  | .compare _ _ _ => a n
  | .present _ => a n
  | .logical connective operands => connective.decide (truths a n operands)
  | .group inner => truth a n inner

def truths (a : Nat → Bool) (n : Nat) : List Filter → List Bool
  | [] => []
  | f :: fs => truth a n f :: truths a (n + f.leaves.length) fs

end

/-! ## Flattening -/

/-- The operands that a tree contributes to the connective above it: its own if it has the same connective, and
    `and` or `or` it is; else the tree itself. -/
def operandsUnder : Connective → Filter → List Filter
  | .and, .logical .and fs => fs
  | .or, .logical .or fs => fs
  | _, f => [f]

/-- A connective over operands, of which one alone stands for itself unless it is negated. -/
def assemble : Connective → List Filter → Filter
  | .not, fs => .logical .not fs
  | c, fs => combine c fs

mutual

/-- The tree without connectives that the text does not show. -/
def flat : Filter → Filter
  | .compare path op value => .compare path op value
  | .present path => .present path
  | .group inner => .group (flat inner)
  | .logical c fs => assemble c (spliced c fs)

/-- The operands of a connective flattened, those of the same connective in the place of the operand. -/
def spliced (c : Connective) : List Filter → List Filter
  | [] => []
  | f :: fs => operandsUnder c (flat f) ++ spliced c fs

end

variable {a : Nat → Bool} {n : Nat} {c : Connective} {f g : Filter} {fs gs : List Filter}
  {ts us : List Token} {options : Options}

/-- What is spliced, and what is left as it stands. -/
theorem operandsUnder_cases (c : Connective) (g : Filter) :
    (∃ gs, c ≠ .not ∧ g = .logical c gs ∧ operandsUnder c g = gs) ∨
      operandsUnder c g = [g] ∧ (c ≠ .not → ∀ gs, g ≠ .logical c gs) := by
  unfold operandsUnder
  split
  · exact .inl ⟨_, by decide, rfl, rfl⟩
  · exact .inl ⟨_, by decide, rfl, rfl⟩
  · next hand hor =>
    refine .inr ⟨rfl, ?_⟩
    rintro hc gs rfl
    cases c with
    | and => exact hand gs rfl rfl
    | or => exact hor gs rfl rfl
    | not => exact hc rfl

theorem assemble_eq_combine (hc : c ≠ .not) (fs : List Filter) : assemble c fs = combine c fs := by
  cases c with
  | and | or => rfl
  | not => exact absurd rfl hc

theorem mem_spliced : g ∈ spliced c fs ↔ ∃ f ∈ fs, g ∈ operandsUnder c f.flat := by
  induction fs with
  | nil => simp [spliced]
  | cons f fs ih => simp [spliced, ih]

/-! ## The questions and the truth stay -/

theorem leavesOfAll_append (fs gs : List Filter) :
    leavesOfAll (fs ++ gs) = leavesOfAll fs ++ leavesOfAll gs := by
  induction fs with
  | nil => rfl
  | cons f fs ih => rw [List.cons_append, leavesOfAll, leavesOfAll, ih, List.append_assoc]

theorem leavesOfAll_singleton (f : Filter) : leavesOfAll [f] = f.leaves :=
  List.append_nil _

theorem leavesOfAll_operandsUnder (c : Connective) (g : Filter) :
    leavesOfAll (operandsUnder c g) = g.leaves := by
  rcases operandsUnder_cases c g with ⟨gs, -, rfl, hgs⟩ | ⟨hgs, -⟩ <;> rw [hgs]
  · rfl
  · exact leavesOfAll_singleton g

theorem leaves_assemble (c : Connective) (fs : List Filter) :
    (assemble c fs).leaves = leavesOfAll fs := by
  match c, fs with
  | .and, [f] | .or, [f] => exact (leavesOfAll_singleton f).symm
  | .not, _ | .and, [] | .or, [] | .and, _ :: _ :: _ | .or, _ :: _ :: _ => rfl

theorem leaves_flat (f : Filter) : f.flat.leaves = f.leaves := by
  induction f using inductOperands with
  | compare | present => rfl
  | group f ih => exact ih
  | logical c fs ih =>
    rw [flat, leaves_assemble, leaves]
    induction fs with
    | nil => rfl
    | cons f fs ihs =>
      rw [spliced, leavesOfAll_append, leavesOfAll_operandsUnder, ih f List.mem_cons_self,
        ihs fun g hg => ih g (List.mem_cons_of_mem f hg), leavesOfAll]

theorem truths_append (a : Nat → Bool) (n : Nat) (fs gs : List Filter) :
    truths a n (fs ++ gs) = truths a n fs ++ truths a (n + (leavesOfAll fs).length) gs := by
  induction fs generalizing n with
  | nil => rfl
  | cons f fs ih =>
    rw [List.cons_append, truths, truths, ih, leavesOfAll, List.length_append, Nat.add_assoc]
    rfl

theorem truth_assemble (a : Nat → Bool) (n : Nat) (c : Connective) (fs : List Filter) :
    (assemble c fs).truth a n = c.decide (truths a n fs) := by
  match c, fs with
  | .and, [f] => exact (Connective.decide_singleton (by decide) _).symm
  | .or, [f] => exact (Connective.decide_singleton (by decide) _).symm
  | .not, _ | .and, [] | .or, [] | .and, _ :: _ :: _ | .or, _ :: _ :: _ => rfl

theorem decide_truths_operandsUnder (a : Nat → Bool) (n : Nat) (c : Connective) (g : Filter) :
    c.decide (truths a n (operandsUnder c g)) = c.decide [g.truth a n] := by
  rcases operandsUnder_cases c g with ⟨gs, hc, rfl, hgs⟩ | ⟨hgs, -⟩ <;> rw [hgs]
  · rw [Connective.decide_singleton hc]
    rfl
  · rfl

/-- Flattening keeps the truth, however the questions are answered. -/
theorem truth_flat (a : Nat → Bool) (n : Nat) (f : Filter) : f.flat.truth a n = f.truth a n := by
  induction f using inductOperands generalizing n with
  | compare | present => rfl
  | group f ih => exact ih n
  | logical c fs ih =>
    rw [flat, truth_assemble, truth]
    induction fs generalizing n with
    | nil => rfl
    | cons f fs ihs =>
      rw [spliced, truths_append, leavesOfAll_operandsUnder, leaves_flat, truths]
      have hhead : c.decide (truths a n (operandsUnder c f.flat)) = c.decide [f.truth a n] := by
        rw [decide_truths_operandsUnder, ih f List.mem_cons_self]
      exact c.decide_append_congr hhead (ihs (fun g hg => ih g (List.mem_cons_of_mem f hg)) _)

/-! ## The same tokens spell it -/

theorem Joined.append {c : Connective} {us : List Token} {gs : List Filter} {t : Token}
    (ht : t.kind = .joint c) (hg : Joined c us gs) :
    ∀ {ts : List Token} {fs : List Filter}, Joined c ts fs → Joined c (ts ++ t :: us) (fs ++ gs)
  | _, _, .one h => .more h ht hg
  | _, _, .more h ht' hs => by
    rw [List.append_assoc]
    exact .more h ht' (Joined.append ht hg hs)

/-- The tokens of a tree are those of the operands that it contributes, joined. -/
theorem Spells.operandsUnder (h : Spells ts g) (c : Connective) :
    Joined c ts (operandsUnder c g) := by
  rcases operandsUnder_cases c g with ⟨gs, hc, rfl, hgs⟩ | ⟨hgs, -⟩ <;> rw [hgs]
  · cases h with
    | negation => exact absurd rfl hc
    | joined _ h => exact h
  · exact .one h

mutual

theorem Spells.flat : ∀ {ts : List Token} {f : Filter}, Spells ts f → Spells ts f.flat
  | _, _, .present hp ht => .present hp ht
  | _, _, .compare hp ho hv => .compare hp ho hv
  | _, _, .group ho h hc => .group ho (Spells.flat h) hc
  | _, _, .negation hn ho h hc => .negation hn ho (Spells.flat h) hc
  | _, _, .joined hc h => by
    rw [Filter.flat, assemble_eq_combine hc]
    exact (Joined.spliced h).combine hc

theorem Joined.spliced : ∀ {c : Connective} {ts : List Token} {fs : List Filter}, Joined c ts fs →
    Joined c ts (spliced c fs)
  | c, _, _, .one h => by
    rw [Filter.spliced, Filter.spliced, List.append_nil]
    exact (Spells.flat h).operandsUnder c
  | c, _, _, .more h ht hs =>
    Joined.append ht (Joined.spliced hs) ((Spells.flat h).operandsUnder c)

end

/-! ## Trees whose text adds no parentheses -/

/-- A tree with operands where they are due and no `or` that is an operand of an `and`. -/
inductive Guarded : Filter → Prop
  | compare (p : AttrPath) (op : CompareOp) (v : Literal) : Guarded (.compare p op v)
  | present (p : AttrPath) : Guarded (.present p)
  | group {f : Filter} (h : Guarded f) : Guarded (.group f)
  | negation {f : Filter} (h : Guarded f) : Guarded (.logical .not [f])
  | joined {c : Connective} {fs : List Filter} (hc : c ≠ .not) (hne : fs ≠ [])
      (hor : c = .and → ∀ f ∈ fs, f.isDisjunction = false) (h : ∀ f ∈ fs, Guarded f) :
      Guarded (.logical c fs)

theorem groupedAll_eq_map (c : Connective) (fs : List Filter) : groupedAll c fs = fs.map fun f =>
    if c = .and ∧ isDisjunction f = true then .group f.grouped else f.grouped := by
  induction fs with
  | nil => rfl
  | cons f fs ih => rw [groupedAll, ih, List.map_cons]

theorem isDisjunction_grouped (f : Filter) : f.grouped.isDisjunction = f.isDisjunction := by
  cases f with
  | logical c fs => cases c <;> rfl
  | _ => rfl

/-- The groups of the text stand where an `or` would be an operand of an `and`. -/
theorem Filled.guarded_grouped (h : f.Filled) : f.grouped.Guarded := by
  induction h with
  | compare p op v => exact .compare p op v
  | present p => exact .present p
  | group _ ih => exact .group ih
  | negation _ ih => exact .negation ih
  | @joined c fs hc hne _ ih =>
    rw [grouped, groupedAll_eq_map]
    refine .joined hc (by simpa using hne) ?_ ?_
    · rintro rfl g hg
      obtain ⟨f, hf, rfl⟩ := List.mem_map.mp hg
      split
      · rfl
      · next hand => rw [isDisjunction_grouped]; simpa using hand
    · intro g hg
      obtain ⟨f, hf, rfl⟩ := List.mem_map.mp hg
      split
      · exact .group (ih f hf)
      · exact ih f hf

/-- What a tree in normal form contributes stands under the connective as normal form asks. -/
theorem Normal.operandsUnder (h : g.Normal) (hc : c ≠ .not) (hor : c = .and → g.isDisjunction = false) :
    operandsUnder c g ≠ [] ∧ ∀ f ∈ operandsUnder c g,
      f.Normal ∧ f.isDisjunction = false ∧ (c = .and → f.isOperand = true) := by
  rcases operandsUnder_cases c g with ⟨gs, -, rfl, hgs⟩ | ⟨hgs, hne⟩ <;> rw [hgs]
  · -- The operands of an `and` are operands of an `and` again, and the same of an `or`.
    cases h with
    | negation => exact absurd rfl hc
    | conjunction two operands h =>
      refine ⟨by rintro rfl; simp at two, fun f hf => ?_⟩
      exact ⟨h f hf, isDisjunction_of_isOperand (operands f hf), fun _ => operands f hf⟩
    | disjunction two operands h =>
      refine ⟨by rintro rfl; simp at two, fun f hf => ?_⟩
      exact ⟨h f hf, operands f hf, fun h => by cases h⟩
  · refine ⟨List.cons_ne_nil _ _, fun f hf => ?_⟩
    rw [List.mem_singleton.mp hf]
    have hother := hne hc
    have hdisj : g.isDisjunction = false := by
      cases c with
      | and => exact hor rfl
      | or =>
        unfold isDisjunction
        split
        · exact absurd rfl (hother _)
        · rfl
      | not => exact absurd rfl hc
    refine ⟨h, hdisj, ?_⟩
    rintro rfl
    unfold isOperand
    split
    · exact absurd rfl (hother _)
    · cases hdisj
    · rfl

theorem normal_spliced (hc : c ≠ .not) (hne : fs ≠ [])
    (h : ∀ f ∈ fs, f.flat.Normal ∧ (c = .and → f.flat.isDisjunction = false)) :
    spliced c fs ≠ [] ∧ ∀ g ∈ spliced c fs,
      g.Normal ∧ g.isDisjunction = false ∧ (c = .and → g.isOperand = true) := by
  constructor
  · obtain ⟨f, hf⟩ := List.exists_mem_of_ne_nil fs hne
    obtain ⟨g, hg⟩ := List.exists_mem_of_ne_nil _ ((h f hf).1.operandsUnder hc (h f hf).2).1
    exact List.ne_nil_of_mem (mem_spliced.mpr ⟨f, hf, hg⟩)
  · intro g hg
    obtain ⟨f, hf, hg⟩ := mem_spliced.mp hg
    exact ((h f hf).1.operandsUnder hc (h f hf).2).2 g hg

/-- **Flattening yields the normal form**, and no `or` where there was none. -/
theorem Guarded.normal_flat (h : f.Guarded) :
    f.flat.Normal ∧ (f.isDisjunction = false → f.flat.isDisjunction = false) := by
  induction h with
  | compare p op v => exact ⟨.compare p op v, fun _ => rfl⟩
  | present p => exact ⟨.present p, fun _ => rfl⟩
  | group _ ih => exact ⟨.group ih.1, fun _ => rfl⟩
  | negation _ ih => exact ⟨.negation ih.1, fun _ => rfl⟩
  | @joined c fs hc hne hor _ ih =>
    obtain ⟨hne', hall⟩ := normal_spliced hc hne fun f hf =>
      ⟨(ih f hf).1, fun hand => (ih f hf).2 (hor hand f hf)⟩
    rw [flat, assemble_eq_combine hc]
    cases c with
    | and =>
      obtain ⟨hdisj, hn⟩ := normal_combine_and hne' fun g hg => ⟨(hall g hg).2.2 rfl, (hall g hg).1⟩
      exact ⟨hn, fun _ => hdisj⟩
    | or =>
      exact ⟨normal_combine_or hne' fun g hg => ⟨(hall g hg).2.1, (hall g hg).1⟩, fun h => by cases h⟩
    | not => exact absurd rfl hc

theorem depth_flat_le (f : Filter) : f.flat.depth ≤ f.depth := by
  induction f using inductOperands with
  | compare | present => exact Nat.le_refl _
  | group f ih => exact Nat.succ_le_succ ih
  | logical c fs ih =>
    have hall : ∀ g ∈ spliced c fs, g.depth ≤ depthOfAll fs := fun g hg => by
      obtain ⟨f, hf, hg⟩ := mem_spliced.mp hg
      have hf' := Nat.le_trans (ih f hf) (depthOfAll_le_iff.mp (Nat.le_refl _) f hf)
      rcases operandsUnder_cases c f.flat with ⟨gs, hc, hgs, hunder⟩ | ⟨hunder, -⟩ <;>
        rw [hunder] at hg
      · rw [hgs, depth_logical hc] at hf'
        exact Nat.le_trans (depthOfAll_le_iff.mp (Nat.le_refl _) g hg) hf'
      · rwa [List.mem_singleton.mp hg]
    cases c with
    | and | or =>
      rw [flat, assemble_eq_combine (by decide), depth_logical (by decide)]
      exact depth_combine_le (by decide) hall
    | not => exact Nat.succ_le_succ (depthOfAll_le_iff.mpr hall)

/-! ## The text stays -/

/-- The texts of operands, with the keyword of their connective between each two. -/
def joinedText (c : Connective) (fs : List Filter) : String :=
  String.intercalate (" " ++ c.keyword ++ " ") (renderAll c fs)

theorem render_logical (hc : c ≠ .not) (fs : List Filter) :
    (logical c fs).render = joinedText c fs := by
  cases c with
  | and | or => rfl
  | not => exact absurd rfl hc

theorem renderAll_append (c : Connective) (fs gs : List Filter) :
    renderAll c (fs ++ gs) = renderAll c fs ++ renderAll c gs := by
  induction fs with
  | nil => rfl
  | cons f fs ih => rw [List.cons_append, renderAll, renderAll, ih, List.cons_append]

theorem joinedText_append (hf : fs ≠ []) (hg : gs ≠ []) :
    joinedText c (fs ++ gs) = joinedText c fs ++ (" " ++ c.keyword ++ " ") ++ joinedText c gs := by
  have hne : ∀ {hs : List Filter}, hs ≠ [] → renderAll c hs ≠ [] := fun {hs} h => by
    cases hs with
    | nil => exact absurd rfl h
    | cons => exact List.cons_ne_nil _ _
  rw [joinedText, renderAll_append, String.intercalate_append_of_ne_nil (hne hf) (hne hg)]
  rfl

theorem joinedText_singleton (hor : c = .and → g.isDisjunction = false) :
    joinedText c [g] = g.render := by
  have hno : ¬(c = .and ∧ isDisjunction g = true) := fun h => by simp [hor h.1] at h
  rw [joinedText, renderAll, renderAll, if_neg hno, String.intercalate_singleton]

theorem render_combine (hc : c ≠ .not) (hne : gs ≠ []) (hor : ∀ g ∈ gs, g.isDisjunction = false) :
    (combine c gs).render = joinedText c gs := by
  cases gs with
  | nil => exact absurd rfl hne
  | cons g gs =>
    cases gs with
    | nil => exact (joinedText_singleton fun _ => hor g List.mem_cons_self).symm
    | cons => exact render_logical hc _

theorem joinedText_operandsUnder (hor : c = .and → g.isDisjunction = false) :
    joinedText c (operandsUnder c g) = g.render := by
  rcases operandsUnder_cases c g with ⟨gs, hc, rfl, hgs⟩ | ⟨hgs, -⟩ <;> rw [hgs]
  · exact (render_logical hc gs).symm
  · exact joinedText_singleton hor

theorem joinedText_spliced (hc : c ≠ .not) (hne : fs ≠ [])
    (hor : c = .and → ∀ f ∈ fs, f.isDisjunction = false)
    (h : ∀ f ∈ fs, f.flat.Normal ∧ (c = .and → f.flat.isDisjunction = false))
    (ih : ∀ f ∈ fs, f.flat.render = f.render) : joinedText c (spliced c fs) = joinedText c fs := by
  induction fs with
  | nil => exact absurd rfl hne
  | cons f fs ihs =>
    have hf := h f List.mem_cons_self
    have hhead : joinedText c (operandsUnder c f.flat) = joinedText c [f] := by
      rw [joinedText_operandsUnder hf.2, ih f List.mem_cons_self,
        joinedText_singleton fun hand => hor hand f List.mem_cons_self]
    cases fs with
    | nil => rw [spliced, spliced, List.append_nil, hhead]
    | cons g gs =>
      have hrest : ∀ a ∈ g :: gs, _ := fun a ha => h a (List.mem_cons_of_mem f ha)
      have htail := ihs (List.cons_ne_nil g gs) (fun hand a ha => hor hand a (List.mem_cons_of_mem f ha))
        hrest fun a ha => ih a (List.mem_cons_of_mem f ha)
      rw [spliced, joinedText_append (hf.1.operandsUnder hc hf.2).1
        (normal_spliced hc (List.cons_ne_nil g gs) hrest).1, hhead, htail,
        ← joinedText_append (List.cons_ne_nil f []) (List.cons_ne_nil g gs)]
      rfl

theorem Guarded.render_flat (h : f.Guarded) : f.flat.render = f.render := by
  induction h with
  | compare | present => rfl
  | group _ ih => rw [flat, render, ih, render]
  | @negation f _ ih =>
    show (logical .not [f.flat]).render = (logical .not [f]).render
    simp only [render, renderAll, ih]
    rfl
  | @joined c fs hc hne hor h ih =>
    have hflat : ∀ f ∈ fs, f.flat.Normal ∧ (c = .and → f.flat.isDisjunction = false) := fun f hf =>
      ⟨(h f hf).normal_flat.1, fun hand => (h f hf).normal_flat.2 (hor hand f hf)⟩
    obtain ⟨hne', hall⟩ := normal_spliced hc hne hflat
    rw [render_logical hc, ← joinedText_spliced hc hne hor hflat ih, flat, assemble_eq_combine hc]
    exact render_combine hc hne' fun g hg => (hall g hg).2.1

/-! ## The groups of the text change nothing -/

theorem render_grouped (f : Filter) : f.grouped.render = f.render := by
  induction f using inductOperands with
  | compare | present => rfl
  | group f ih => rw [grouped, render, ih, render]
  | logical c fs ih =>
    have hall : renderAll c (groupedAll c fs) = renderAll c fs := by
      induction fs with
      | nil => rfl
      | cons f fs ihs =>
        have hf := ih f List.mem_cons_self
        rw [groupedAll, renderAll, renderAll, ihs fun g hg => ih g (List.mem_cons_of_mem f hg)]
        by_cases h : c = .and ∧ isDisjunction f = true
        · rw [if_pos h, if_pos h, if_neg (by simp [isDisjunction]), render, hf]
        · rw [if_neg h, if_neg h, isDisjunction_grouped, if_neg h, hf]
    rw [grouped]
    cases c <;> simp only [render, hall]

theorem leaves_grouped (f : Filter) : f.grouped.leaves = f.leaves := by
  induction f using inductOperands with
  | compare | present => rfl
  | group f ih => exact ih
  | logical c fs ih =>
    rw [grouped, leaves, leaves, groupedAll_eq_map]
    induction fs with
    | nil => rfl
    | cons f fs ihs =>
      have hf := ih f List.mem_cons_self
      rw [List.map_cons, leavesOfAll, leavesOfAll, ihs fun g hg => ih g (List.mem_cons_of_mem f hg)]
      split
      · rw [leaves, hf]
      · rw [hf]

theorem truth_grouped (a : Nat → Bool) (n : Nat) (f : Filter) :
    f.grouped.truth a n = f.truth a n := by
  induction f using inductOperands generalizing n with
  | compare | present => rfl
  | group f ih => exact ih n
  | logical c fs ih =>
    have hall : truths a n (groupedAll c fs) = truths a n fs := by
      rw [groupedAll_eq_map]
      induction fs generalizing n with
      | nil => rfl
      | cons f fs ihs =>
        have hf := ih f List.mem_cons_self n
        have hfs := ihs fun g hg => ih g (List.mem_cons_of_mem f hg)
        rw [List.map_cons, truths, truths]
        split
        · rw [truth, hf, leaves, leaves_grouped, hfs]
        · rw [hf, leaves_grouped, hfs]
    rw [grouped, truth, truth, hall]

/-! ## What the text of a tree means -/

/-- **The canonical text of any tree means what the tree means.** The tree may be built by hand, with any
    connective under any other and with one operand alone. Wherever the limits admit the text and the nesting of
    its parentheses, the text is read as one and the same tree. That tree asks the questions of the first, in
    their order, is true under the same answers to them, and has the same text. -/
theorem parse_render_same_meaning {caseSensitive : Bool} (hf : f.Filled) (hw : f.Writable caseSensitive) :
    ∃ g : Filter,
      (∀ options : Options, options.keywordsCaseSensitive = caseSensitive →
        f.render.utf8ByteSize ≤ options.maxLength → f.grouped.depth ≤ options.maxDepth →
        parse options f.render = .ok g) ∧
      (g.leaves = f.leaves ∧ ∀ a n, g.truth a n = f.truth a n) ∧ g.render = f.render := by
  have hguarded := hf.guarded_grouped
  refine ⟨f.grouped.flat, fun options hcase hlen hdepth => ?_, ⟨?_, fun a n => ?_⟩, ?_⟩
  · obtain ⟨ts, htok, hspells⟩ := (scans_render hf (hcase ▸ hw)).tokenize hlen
    rw [parse, htok]
    refine parseTokens_eq_ok_iff.mpr ⟨terminated_append_eof ts rfl, hguarded.normal_flat.1,
      Nat.le_trans (depth_flat_le _) hdepth, ?_⟩
    rw [beforeEnd_append_eof hspells.not_eof rfl]
    exact hspells.flat
  · rw [leaves_flat, leaves_grouped]
  · rw [truth_flat, truth_grouped]
  · rw [hguarded.render_flat, render_grouped]

/-- An `and` under an `and`, an `or` under it and one under that, and connectives with one operand: the text has
    parentheses around the first `or` alone. -/
theorem parse_render_same_meaning_nested :
    let f : Filter := .logical .and [
      .logical .and [.present ⟨"a", none⟩],
      .logical .or [.logical .or [.present ⟨"b", none⟩], .compare ⟨"c", none⟩ .eq (.string "x")],
      .logical .not [.logical .or [.present ⟨"a", none⟩]]]
    f.Filled ∧ f.Writable false ∧
      f.render = "a pr and (b pr or c eq \"x\") and not (a pr)" ∧
      ∃ g : Filter,
        (∀ options : Options, options.keywordsCaseSensitive = false →
          f.render.utf8ByteSize ≤ options.maxLength → f.grouped.depth ≤ options.maxDepth →
          parse options f.render = .ok g) ∧
        (g.leaves = f.leaves ∧ ∀ a n, g.truth a n = f.truth a n) ∧ g.render = f.render := by
  intro f
  have hpath : ∀ s ∈ ["a", "b", "c"], AttrPath.Writable false ⟨s, none⟩ := by
    intro s hs
    simp only [List.mem_cons, List.not_mem_nil, or_false] at hs
    rcases hs with rfl | rfl | rfl <;>
      exact ⟨⟨isWord_of_all (by decide) (by decide), by decide +kernel⟩, fun s hs => by cases hs⟩
  have hf : f.Filled := by
    refine .joined (by decide) (List.cons_ne_nil _ _) ?_
    simp only [List.mem_cons, List.not_mem_nil, or_false, forall_eq_or_imp, forall_eq]
    refine ⟨.joined (by decide) (List.cons_ne_nil _ _) ?_, .joined (by decide) (List.cons_ne_nil _ _) ?_,
      .negation (.joined (by decide) (List.cons_ne_nil _ _) ?_)⟩ <;>
      simp only [List.mem_cons, List.not_mem_nil, or_false, forall_eq_or_imp, forall_eq]
    · exact .present _
    · refine ⟨.joined (by decide) (List.cons_ne_nil _ _) ?_, .compare ..⟩
      simp only [List.mem_singleton, forall_eq]
      exact .present _
    · exact .present _
  have hw : f.Writable false := by
    refine .logical ?_
    simp only [List.mem_cons, List.not_mem_nil, or_false, forall_eq_or_imp, forall_eq]
    refine ⟨.logical ?_, .logical ?_, .logical ?_⟩ <;>
      simp only [List.mem_cons, List.not_mem_nil, or_false, forall_eq_or_imp, forall_eq]
    · exact .present (hpath _ (by simp))
    · refine ⟨.logical ?_, .compare (hpath _ (by simp)) trivial⟩
      simp only [List.mem_singleton, forall_eq]
      exact .present (hpath _ (by simp))
    · refine .logical ?_
      simp only [List.mem_singleton, forall_eq]
      exact .present (hpath _ (by simp))
  exact ⟨hf, hw, by decide +kernel, parse_render_same_meaning hf hw⟩

end Filter

end ScimLdap
