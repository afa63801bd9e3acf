import ScimLdap.Filter.Sink
import ScimLdap.Proofs.Grammar
import ScimLdap.Proofs.Outcomes

/-!
# Reading — what the machine accepts is in the grammar

The machine reads a token at a time and its state holds what has been read. `State.Legible ts s` says which
tokens lead to a state, part by part: the open scopes, the operands of the innermost expression, and the few
tokens since the last operand. One step keeps it (`Legible.step`), so every run does (`Legible.feed`), and
where the text may end it says that the tokens spell the tree (`Legible.finished`).

`State.run` stops at the first token that marks the end; `run_eq_ok_iff` separates that from the steps
before it, which `feed` makes.
-/

namespace ScimLdap.Filter

/-! ## Steps, without the end -/

namespace State

def feed (maxDepth : Nat) (s : State) : List Token → Except SyntaxError State
  | [] => .ok s
  | t :: ts => (s.step maxDepth t).bind (fun s' => feed maxDepth s' ts)

variable {maxDepth : Nat} {s s' s'' : State} {t : Token} {ts us : List Token}

theorem feed_cons (h : s.step maxDepth t = .ok s') :
    feed maxDepth s (t :: ts) = feed maxDepth s' ts := by
  rw [feed, h]; rfl

theorem feed_singleton : feed maxDepth s [t] = s.step maxDepth t := by
  rw [feed]
  cases s.step maxDepth t <;> rfl

theorem feed_append (h : feed maxDepth s ts = .ok s') :
    feed maxDepth s (ts ++ us) = feed maxDepth s' us := by
  induction ts generalizing s with
  | nil => cases h; rfl
  | cons t ts ih =>
    rw [List.cons_append, feed]
    rw [feed] at h
    obtain ⟨s₁, hs, h⟩ := Outcome.bind_eq_ok_iff.mp h
    rw [hs]
    exact ih h

/-- What a step that succeeds says: not too many parentheses are open, and the place admits the token. -/
theorem step_eq_ok_iff :
    s.step maxDepth t = .ok s' ↔ s.tooDeep maxDepth = false ∧ s.next? t = some s' := by
  rw [step]
  cases s.tooDeep maxDepth <;> cases s.next? t <;> simp

/-- No place admits the token that marks the end. -/
theorem next?_eof (h : t.isEof = true) : s.next? t = none := by
  have hk : t.kind = .eof := by simpa [Token.isEof] using h
  rw [next?]
  cases s.place <;> simp [hk, afterPath?, afterOperand?, TokenKind.literal?]

/-- A run makes its steps up to the first token that marks the end, and there the text may end. -/
theorem run_eq_ok_iff {f : Filter} :
    run maxDepth s ts = .ok f ↔
      ∃ s', feed maxDepth s (ts.takeWhile (fun t => !t.isEof)) = .ok s' ∧ s'.finished? = some f ∧
        ∃ t ∈ ts, t.isEof = true := by
  induction ts generalizing s with
  | nil => simp [run]
  | cons t ts ih =>
    rw [run]
    cases he : t.isEof with
    | true =>
      have hstep : ∃ e, s.step maxDepth t = .error e := by
        rw [step, next?_eof he]
        cases s.tooDeep maxDepth <;> exact ⟨_, rfl⟩
      obtain ⟨e, hstep⟩ := hstep
      cases hf : s.finished? with
      | none => simp [he, hf, hstep, feed, Except.bind]
      | some g => simp [he, hf, feed]
    | false =>
      simp only [Bool.false_eq_true, if_false, he, Bool.not_false, List.takeWhile_cons_of_pos, feed,
        List.mem_cons, exists_eq_or_imp, false_or]
      cases hs : s.step maxDepth t with
      | error e => simp [Except.bind]
      | ok s₁ => exact ih

end State

/-! ## Soundness: what has been read

The tokens of an expression that is not finished fall into those of the conjunctions that an `or` has ended
and those of the conjunction at hand. Each part either waits for one more operand or ends with one. -/

/-- Tokens after which one more operand makes a list of joined operands. -/
def Awaits (c : Connective) (ts : List Token) (fs : List Filter) : Prop :=
  ∀ {us : List Token} {f : Filter}, Spells us f → Joined c (ts ++ us) (fs ++ [f])

theorem awaits_nil (c : Connective) : Awaits c [] [] :=
  fun h => .one h

theorem Joined.awaits {c : Connective} {ts : List Token} {fs : List Filter} {t : Token}
    (h : Joined c ts fs) (ht : t.kind = .joint c) : Awaits c (ts ++ [t]) fs := by
  intro us f hf
  rw [List.append_assoc]
  exact h.snoc ht hf

namespace Operands

/-- The tokens before the next operand of an expression. -/
def Begun (ts : List Token) (os : Operands) : Prop :=
  ∃ as bs, ts = as ++ bs ∧ Awaits .or as os.conjunctions.reverse ∧ Awaits .and bs os.current.reverse

/-- The tokens of an expression up to the end of an operand. -/
def Ended (ts : List Token) (os : Operands) : Prop :=
  ∃ as bs, ts = as ++ bs ∧ Awaits .or as os.conjunctions.reverse ∧ Joined .and bs os.current.reverse

variable {ts us : List Token} {os : Operands} {f : Filter} {t : Token}

theorem begun_nil : Begun [] {} :=
  ⟨[], [], rfl, awaits_nil .or, awaits_nil .and⟩

theorem Begun.push (h : Begun ts os) (hf : Spells us f) : Ended (ts ++ us) (os.push f) := by
  obtain ⟨as, bs, rfl, ha, hb⟩ := h
  refine ⟨as, bs ++ us, List.append_assoc .., ha, ?_⟩
  rw [show (os.push f).current.reverse = os.current.reverse ++ [f] from List.reverse_cons]
  exact hb hf

theorem Ended.and (h : Ended ts os) (ht : t.kind = .and) : Begun (ts ++ [t]) os := by
  obtain ⟨as, bs, rfl, ha, hb⟩ := h
  exact ⟨as, bs ++ [t], List.append_assoc .., ha, hb.awaits ht⟩

/-- Where a conjunction ends, what was read is a list of conjunctions. -/
theorem Ended.endConjunction (h : Ended ts os) :
    Joined .or ts os.endConjunction.conjunctions.reverse := by
  obtain ⟨as, bs, rfl, ha, hb⟩ := h
  rw [show os.endConjunction.conjunctions.reverse
    = os.conjunctions.reverse ++ [combine .and os.current.reverse] from List.reverse_cons]
  exact ha (hb.combine (by decide))

theorem Ended.or (h : Ended ts os) (ht : t.kind = .or) : Begun (ts ++ [t]) os.endConjunction :=
  ⟨ts ++ [t], [], (List.append_nil _).symm, h.endConjunction.awaits ht, awaits_nil .and⟩

theorem Ended.toFilter (h : Ended ts os) : Spells ts os.toFilter :=
  h.endConjunction.combine (by decide)

theorem Ended.current_ne_nil (h : Ended ts os) : os.current ≠ [] := by
  obtain ⟨as, bs, -, -, hb⟩ := h
  exact fun hnil => hb.ne_nil (by rw [hnil]; rfl)

/-! ### Normal form and depth

`depth` counts what is inside an operand, so an operand that stands in `k` open scopes may have `k` less
than the limit. -/

/-- The operands have the shape of operands, and with `k` scopes around them none is too deep. -/
structure Sound (maxDepth k : Nat) (os : Operands) : Prop where
  current : ∀ f ∈ os.current, (f.isOperand = true ∧ f.Normal) ∧ f.depth + k ≤ maxDepth
  conjunctions : ∀ f ∈ os.conjunctions, (f.isDisjunction = false ∧ f.Normal) ∧ f.depth + k ≤ maxDepth

variable {maxDepth k : Nat}

theorem sound_empty : Sound maxDepth k {} :=
  ⟨fun _ h => absurd h List.not_mem_nil, fun _ h => absurd h List.not_mem_nil⟩

theorem Sound.push (h : Sound maxDepth k os) (hop : f.isOperand = true) (hn : f.Normal)
    (hd : f.depth + k ≤ maxDepth) : Sound maxDepth k (os.push f) := by
  refine ⟨fun g hg => ?_, h.conjunctions⟩
  rcases List.mem_cons.mp hg with rfl | hg
  · exact ⟨⟨hop, hn⟩, hd⟩
  · exact h.current g hg

theorem Sound.endConjunction (h : Sound maxDepth k os) (hne : os.current ≠ []) :
    Sound maxDepth k os.endConjunction := by
  refine ⟨fun g hg => absurd hg List.not_mem_nil, fun g hg => ?_⟩
  rcases List.mem_cons.mp hg with rfl | hg
  · refine ⟨normal_combine_and (by simpa using hne) (fun a ha => (h.current a (by simpa using ha)).1), ?_⟩
    obtain ⟨a, ha⟩ := List.exists_mem_of_ne_nil _ hne
    have hk := (h.current a ha).2
    have hd : (combine .and os.current.reverse).depth ≤ maxDepth - k :=
      depth_combine_le (by decide) (fun b hb => by
        have := (h.current b (by simpa using hb)).2
        omega)
    omega
  · exact h.conjunctions g hg

theorem Sound.toFilter (h : Sound maxDepth k os) (hne : os.current ≠ []) :
    os.toFilter.Normal ∧ os.toFilter.depth + k ≤ maxDepth := by
  have hc := (h.endConjunction hne).conjunctions
  have hcons : combine .and os.current.reverse ∈ os.endConjunction.conjunctions := List.mem_cons_self
  refine ⟨normal_combine_or (by simp [Operands.endConjunction])
    (fun a ha => (hc a (by simpa using ha)).1), ?_⟩
  have hk := (hc _ hcons).2
  have hd : os.toFilter.depth ≤ maxDepth - k :=
    depth_combine_le (by decide) (fun b hb => by
      have := (hc b (by simpa using hb)).2
      omega)
  omega

end Operands

/-! ### A state and the tokens that lead to it -/

/-- The tokens that open a scope. -/
inductive SpellsOpening : List Token → Opening → Prop
  | group {o : Token} (ho : o.kind = .openParen) : SpellsOpening [o] .group
  | negation {n o : Token} (hn : n.kind = .not) (ho : o.kind = .openParen) :
      SpellsOpening [n, o] .negation

theorem SpellsOpening.close {os ts : List Token} {c : Token} {opening : Opening} {f : Filter}
    (ho : SpellsOpening os opening) (h : Spells ts f) (hc : c.kind = .closeParen) :
    Spells (os ++ ts ++ [c]) (opening.close f) := by
  cases ho with
  | group ho => exact .group ho h hc
  | negation hn ho => exact .negation hn ho h hc

theorem Opening.isOperand_close (opening : Opening) (f : Filter) :
    (opening.close f).isOperand = true := by
  cases opening <;> rfl

theorem Opening.normal_close (opening : Opening) {f : Filter} (h : f.Normal) :
    (opening.close f).Normal := by
  cases opening with
  | group => exact .group h
  | negation => exact .negation h

theorem Opening.depth_close (opening : Opening) (f : Filter) :
    (opening.close f).depth = f.depth + 1 := by
  cases opening with
  | group => rfl
  | negation => exact depth_negation f

/-- The tokens up to the innermost open parenthesis. -/
inductive Opened (maxDepth : Nat) : List Token → List Scope → Prop
  | nil : Opened maxDepth [] []
  | scope {ts us vs : List Token} {scopes : List Scope} {opening : Opening} {outer : Operands}
      (h : Opened maxDepth ts scopes) (hb : outer.Begun us) (hs : outer.Sound maxDepth scopes.length)
      (ho : SpellsOpening vs opening) : Opened maxDepth (ts ++ us ++ vs) (⟨opening, outer⟩ :: scopes)

/-- The tokens of an operand that has been begun. -/
inductive Since : List Token → Place → Prop
  | operand : Since [] .operand
  | negated {t : Token} (ht : t.kind = .not) : Since [t] .negated
  | name {t : Token} (ht : t.kind = .name) : Since [t] (.name t.text)
  | separator {t s : Token} (ht : t.kind = .name) (hs : s.kind = .colon ∨ s.kind = .dot) :
      Since [t, s] (.separator t.text)
  | path {ts : List Token} {p : AttrPath} (h : SpellsPath ts p) : Since ts (.path p)
  | operator {ts : List Token} {o : Token} {p : AttrPath} {op : CompareOp} (h : SpellsPath ts p)
      (ho : o.kind = .compareOp op) : Since (ts ++ [o]) (.operator p op)

namespace State

/-- The tokens that lead to a state. The bound on the open scopes is checked at the token after the one that
    opens a scope, so at the start of an operand it may still fail. -/
inductive Legible (maxDepth : Nat) : List Token → State → Prop
  | inside {as bs cs : List Token} {scopes : List Scope} {os : Operands} {place : Place}
      (ho : Opened maxDepth as scopes) (hb : os.Begun bs) (hs : os.Sound maxDepth scopes.length)
      (hp : Since cs place) (hd : place ≠ .operand → scopes.length ≤ maxDepth) :
      Legible maxDepth (as ++ bs ++ cs) ⟨scopes, os, place⟩
  | joint {as bs : List Token} {scopes : List Scope} {os : Operands}
      (ho : Opened maxDepth as scopes) (he : os.Ended bs) (hs : os.Sound maxDepth scopes.length)
      (hd : scopes.length ≤ maxDepth) : Legible maxDepth (as ++ bs) ⟨scopes, os, .joint⟩

variable {maxDepth : Nat} {s s' : State} {ts us : List Token} {t : Token}

theorem legible_start : Legible maxDepth [] {} :=
  .inside .nil Operands.begun_nil Operands.sound_empty .operand (fun h => absurd rfl h)

section
variable {as bs cs : List Token} {scopes : List Scope} {os : Operands} {place : Place}

theorem Legible.push {f : Filter} (ho : Opened maxDepth as scopes) (hb : os.Begun bs)
    (hs : os.Sound maxDepth scopes.length) (hf : Spells cs f) (hop : f.isOperand = true)
    (hn : f.Normal) (hd : f.depth + scopes.length ≤ maxDepth) :
    Legible maxDepth (as ++ bs ++ cs) ⟨scopes, os.push f, .joint⟩ := by
  rw [List.append_assoc]
  exact .joint ho (hb.push hf) (hs.push hop hn hd) (by omega)

/-- A path is followed by `pr`, which ends the operand, or by an operator. -/
theorem Legible.afterPath {p : AttrPath} (ho : Opened maxDepth as scopes) (hb : os.Begun bs)
    (hs : os.Sound maxDepth scopes.length) (hp : SpellsPath cs p) (hd : scopes.length ≤ maxDepth)
    (h : afterPath? ⟨scopes, os, place⟩ p t.kind = some s') :
    Legible maxDepth (as ++ bs ++ cs ++ [t]) s' := by
  rw [List.append_assoc]
  unfold afterPath? at h
  split at h
  · next hk =>
    cases h
    exact .push ho hb hs (.present hp hk) rfl (.present p) (by simpa [depth] using hd)
  · next op hk =>
    cases h
    exact .inside ho hb hs (.operator hp hk) (fun _ => hd)
  · cases h

/-- An operand is followed by a connective or by the end of the innermost scope. -/
theorem Legible.afterOperand (ho : Opened maxDepth as scopes) (he : os.Ended bs)
    (hs : os.Sound maxDepth scopes.length) (hd : scopes.length ≤ maxDepth)
    (h : afterOperand? ⟨scopes, os, .joint⟩ t.kind = some s') :
    Legible maxDepth (as ++ bs ++ [t]) s' := by
  unfold afterOperand? at h
  split at h
  · next hk =>
    cases h
    rw [List.append_assoc, ← List.append_nil (as ++ (bs ++ [t]))]
    exact .inside ho (he.and hk) hs .operand (fun h => absurd rfl h)
  · next hk =>
    cases h
    rw [List.append_assoc, ← List.append_nil (as ++ (bs ++ [t]))]
    exact .inside ho (he.or hk) (hs.endConjunction he.current_ne_nil) .operand
      (fun h => absurd rfl h)
  · next hk =>
    cases ho with
    | nil => cases h
    | @scope as us vs scopes opening outer ho hb houter hopen =>
      -- The scope closes. What it held is an expression, and the expression is one operand more outside.
      cases h
      obtain ⟨hn, hdepth⟩ := hs.toFilter he.current_ne_nil
      have hclose := hopen.close he.toFilter hk
      rw [List.append_assoc _ bs, List.append_assoc _ _ (bs ++ [t]), ← List.append_assoc _ bs]
      refine .push ho hb houter hclose (opening.isOperand_close _) (opening.normal_close hn) ?_
      rw [opening.depth_close]
      show os.toFilter.depth + 1 + scopes.length ≤ maxDepth
      have : (⟨opening, outer⟩ :: scopes : List Scope).length = scopes.length + 1 := rfl
      omega
  · cases h

end

/-- One step keeps the account of what has been read. -/
theorem Legible.step (h : Legible maxDepth ts s) (hstep : s.step maxDepth t = .ok s') :
    Legible maxDepth (ts ++ [t]) s' := by
  obtain ⟨hdeep, hnext⟩ := step_eq_ok_iff.mp hstep
  cases h with
  | joint ho he hs hd => exact .afterOperand ho he hs hd hnext
  | @inside as bs cs scopes os place ho hb hs hp hd =>
    -- What the token makes of the operand depends on where in it the token stands.
    cases hp with
    | operand =>
      -- Only here is the bound news: the scope may have been opened by the token before.
      have hd : scopes.length ≤ maxDepth := by simpa [tooDeep] using hdeep
      rw [List.append_nil]
      simp only [next?] at hnext
      split at hnext
      · next hk => cases hnext; exact .inside ho hb hs (.negated hk) (fun _ => hd)
      · next hk =>
        cases hnext
        rw [← List.append_nil (as ++ bs ++ [t]), ← List.append_nil (as ++ bs ++ [t])]
        exact .inside (.scope ho hb hs (.group hk)) Operands.begun_nil Operands.sound_empty .operand
          (fun h => absurd rfl h)
      · next hk => cases hnext; exact .inside ho hb hs (.name hk) (fun _ => hd)
      · cases hnext
    | negated hn =>
      simp only [next?] at hnext
      split at hnext
      · next hk =>
        cases hnext
        rw [List.append_assoc, ← List.append_nil (as ++ bs ++ _), ← List.append_nil (as ++ bs ++ _)]
        exact .inside (.scope ho hb hs (.negation hn hk)) Operands.begun_nil Operands.sound_empty
          .operand (fun h => absurd rfl h)
      · cases hnext
    | name ht =>
      have hd := hd (by simp)
      simp only [next?] at hnext
      split at hnext
      · next hk =>
        cases hnext
        rw [List.append_assoc]
        exact .inside ho hb hs (.separator ht hk) (fun _ => hd)
      · exact .afterPath ho hb hs (.plain ht) hd hnext
    | separator ht hsep =>
      have hd := hd (by simp)
      simp only [next?] at hnext
      split at hnext
      · next hk =>
        cases hnext
        rw [List.append_assoc]
        exact .inside ho hb hs (.path (.qualified ht hsep hk)) (fun _ => hd)
      · cases hnext
    | path hpath => exact .afterPath ho hb hs hpath (hd (by simp)) hnext
    | operator hpath hop =>
      have hd := hd (by simp)
      simp only [next?, Option.map_eq_some_iff] at hnext
      obtain ⟨v, hv, rfl⟩ := hnext
      rw [List.append_assoc _ _ [t], List.append_assoc _ [_] [t]]
      have hspells := Spells.compare hpath hop (spellsLiteral_iff.mpr hv)
      exact .push ho hb hs hspells rfl (.compare _ _ _) (by simpa [depth] using hd)

/-- A run of steps keeps it, too. -/
theorem Legible.feed (h : Legible maxDepth ts s) (hfeed : s.feed maxDepth us = .ok s') :
    Legible maxDepth (ts ++ us) s' := by
  induction us generalizing ts s with
  | nil => cases hfeed; rwa [List.append_nil]
  | cons u us ih =>
    rw [State.feed] at hfeed
    obtain ⟨s₁, hs, hfeed⟩ := Outcome.bind_eq_ok_iff.mp hfeed
    have := ih (h.step hs) hfeed
    rwa [List.append_assoc] at this

/-- Where a text may end, the tokens read spell a tree in normal form, within the limit on depth. -/
theorem Legible.finished {f : Filter} (h : Legible maxDepth ts s) (hf : s.finished? = some f) :
    Spells ts f ∧ f.Normal ∧ f.depth ≤ maxDepth := by
  cases h with
  -- In the middle of an operand no text may end.
  | inside ho hb hs hp hd => cases hp <;> cases hf
  | joint ho he hs hd =>
    cases ho with
    | nil =>
      cases hf
      obtain ⟨hn, hdepth⟩ := hs.toFilter he.current_ne_nil
      exact ⟨he.toFilter, hn, hdepth⟩
    | scope => cases hf

end State

end ScimLdap.Filter
