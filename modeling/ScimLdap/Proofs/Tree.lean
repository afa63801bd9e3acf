import ScimLdap.Filter.Printer

/-!
# Filter trees — induction, depth, and the shape that reading yields

`Filter` nests through lists, so its own recursor speaks of two motives. `Filter.inductOperands` is the
principle that proofs want: one motive, and under a connective the hypothesis for every operand.

`Normal` is the shape of a tree that was read. It is not a property of the text: a group is kept as a node,
so what is left to say is that no connective stands where the grammar would have merged it into the one
above, and that none has too few operands.
-/

namespace ScimLdap.Filter

/-- Induction over a filter, with the hypothesis for each operand of a connective. -/
theorem inductOperands {motive : Filter → Prop}
    (compare : ∀ p op v, motive (.compare p op v))
    (present : ∀ p, motive (.present p))
    (logical : ∀ c fs, (∀ f ∈ fs, motive f) → motive (.logical c fs))
    (group : ∀ f, motive f → motive (.group f)) : ∀ f, motive f
  | .compare p op v => compare p op v
  | .present p => present p
  | .logical c fs =>
    logical c fs (fun f _ => inductOperands compare present logical group f)
  | .group f => group f (inductOperands compare present logical group f)

/-! ## Depth -/

theorem depthOfAll_le_iff {fs : List Filter} {d : Nat} :
    depthOfAll fs ≤ d ↔ ∀ f ∈ fs, f.depth ≤ d := by
  induction fs with
  | nil => simp [depthOfAll]
  | cons f fs ih => rw [depthOfAll, Nat.max_le, ih, List.forall_mem_cons]

theorem depth_negation (f : Filter) : depth (.logical .not [f]) = f.depth + 1 := by
  simp [depth, depthOfAll]

theorem depth_logical {c : Connective} (hc : c ≠ .not) (fs : List Filter) :
    depth (.logical c fs) = depthOfAll fs := by
  cases c with
  | and | or => rfl
  | not => exact absurd rfl hc

/-! ## The shape that reading yields -/

/-- Whether a filter can be an operand of `and` as it stands: it is no `and` or `or` itself. -/
def isOperand : Filter → Bool
  | .logical .and _ => false
  | .logical .or _ => false
  | _ => true

theorem isDisjunction_of_isOperand {f : Filter} (h : f.isOperand = true) : f.isDisjunction = false := by
  cases f with
  | logical c fs => cases c <;> simp_all [isOperand, isDisjunction]
  | _ => rfl

/-- The shape of a tree that was read: at least two operands under `and` and `or`, one under `not`, nothing
    joined under `and`, and no `or` under `or`. -/
inductive Normal : Filter → Prop
  | compare (p : AttrPath) (op : CompareOp) (v : Literal) : Normal (.compare p op v)
  | present (p : AttrPath) : Normal (.present p)
  | group {f : Filter} (h : Normal f) : Normal (.group f)
  | negation {f : Filter} (h : Normal f) : Normal (.logical .not [f])
  | conjunction {fs : List Filter} (two : 2 ≤ fs.length) (operands : ∀ f ∈ fs, f.isOperand = true)
      (h : ∀ f ∈ fs, Normal f) : Normal (.logical .and fs)
  | disjunction {fs : List Filter} (two : 2 ≤ fs.length) (operands : ∀ f ∈ fs, f.isDisjunction = false)
      (h : ∀ f ∈ fs, Normal f) : Normal (.logical .or fs)

/-! ## Combining operands

`combine` is the only way in which reading makes an `and` or an `or`, so what it keeps is what every tree
that was read has. -/

theorem combine_of_two {c : Connective} {fs : List Filter} (h : 2 ≤ fs.length) :
    combine c fs = .logical c fs := by
  match fs, h with
  | _ :: _ :: _, _ => rfl

theorem depth_combine_le {c : Connective} {fs : List Filter} {d : Nat} (hc : c ≠ .not)
    (h : ∀ f ∈ fs, f.depth ≤ d) : (combine c fs).depth ≤ d := by
  match fs with
  | [f] => exact h f List.mem_cons_self
  | [] =>
    show depth (.logical c []) ≤ d
    rw [depth_logical hc]; exact depthOfAll_le_iff.mpr h
  | f :: g :: fs => rw [combine_of_two (by simp), depth_logical hc]; exact depthOfAll_le_iff.mpr h

theorem normal_combine_and {fs : List Filter} (hne : fs ≠ [])
    (h : ∀ f ∈ fs, f.isOperand = true ∧ f.Normal) :
    (combine .and fs).isDisjunction = false ∧ (combine .and fs).Normal := by
  match fs with
  | [] => exact absurd rfl hne
  | [f] =>
    obtain ⟨hop, hn⟩ := h f List.mem_cons_self
    exact ⟨isDisjunction_of_isOperand hop, hn⟩
  | f :: g :: fs =>
    rw [combine_of_two (by simp)]
    exact ⟨rfl, .conjunction (by simp) (fun a ha => (h a ha).1) (fun a ha => (h a ha).2)⟩

theorem normal_combine_or {fs : List Filter} (hne : fs ≠ [])
    (h : ∀ f ∈ fs, f.isDisjunction = false ∧ f.Normal) : (combine .or fs).Normal := by
  match fs with
  | [] => exact absurd rfl hne
  | [f] => exact (h f List.mem_cons_self).2
  | f :: g :: fs =>
    rw [combine_of_two (by simp)]
    exact .disjunction (by simp) (fun a ha => (h a ha).1) (fun a ha => (h a ha).2)

end ScimLdap.Filter
