import ScimLdap.Proofs.Reading

/-!
# Acceptance — the machine accepts all that is in the grammar, and nothing else

The other direction: the tokens of a tree in normal form take the machine from the start of an expression to
its end, and the expression is the tree. Trees come in three kinds by what may stand above them, and the
machine's state looks different after each: an operand is one more operand of the conjunction at hand, a
conjunction is the whole of it, and an expression is all that its scope holds. One induction over the normal
form carries all three at once, since a scope takes an operand back to an expression.
-/

namespace ScimLdap.Filter

namespace State

variable {maxDepth : Nat} {s s' : State} {t : Token} {ts : List Token} {f : Filter}

/-- A step from a place that admits the token, with few enough scopes open. -/
theorem step_of_next? (s s' : State) (hd : s.scopes.length ≤ maxDepth) (h : s.next? t = some s') :
    s.step maxDepth t = .ok s' :=
  step_eq_ok_iff.mpr ⟨by simp [tooDeep, hd], h⟩

/-! ## Leaves -/

/-- After the tokens of a path the machine stands where `pr` and the operators are admitted. -/
theorem feed_path {p : AttrPath} (h : SpellsPath ts p) (hp : s.place = .operand)
    (hd : s.scopes.length ≤ maxDepth) :
    ∃ place, feed maxDepth s ts = .ok (s.moveTo place) ∧
      (∀ u : Token, u.kind = .present → (s.moveTo place).next? u = some (s.push (.present p))) ∧
      ∀ (u : Token) (op : CompareOp), u.kind = .compareOp op →
        (s.moveTo place).next? u = some (s.moveTo (.operator p op)) := by
  cases h with
  | @plain t ht =>
    refine ⟨.name t.text, ?_, fun u hu => ?_, fun u op hu => ?_⟩
    · rw [feed_singleton]
      exact step_of_next? _ _ hd (by simp [next?, hp, ht])
    · simp [next?, moveTo, hu, afterPath?, push]
    · simp [next?, moveTo, hu, afterPath?]
  | @qualified t sep u ht hs hu =>
    refine ⟨.path ⟨t.text, some u.text⟩, ?_, fun v hv => ?_, fun v op hv => ?_⟩
    · have hname : s.step maxDepth t = .ok (s.moveTo (.name t.text)) :=
        step_of_next? _ _ hd (by simp [next?, hp, ht])
      have hsep : (s.moveTo (.name t.text)).step maxDepth sep = .ok (s.moveTo (.separator t.text)) :=
        step_of_next? _ _ hd (by simp [next?, moveTo, hs])
      rw [feed_cons hname, feed_cons hsep, feed_singleton]
      exact step_of_next? _ _ hd (by simp [next?, moveTo, hu])
    · simp [next?, moveTo, hv, afterPath?, push]
    · simp [next?, moveTo, hv, afterPath?]

theorem feed_present {p : AttrPath} {t : Token} (h : SpellsPath ts p) (ht : t.kind = .present)
    (hp : s.place = .operand) (hd : s.scopes.length ≤ maxDepth) :
    feed maxDepth s (ts ++ [t]) = .ok (s.push (.present p)) := by
  obtain ⟨place, hfeed, hpresent, -⟩ := feed_path h hp hd
  rw [feed_append hfeed, feed_singleton]
  exact step_of_next? _ _ hd (hpresent t ht)

theorem feed_compare {p : AttrPath} {op : CompareOp} {value : Literal} {o v : Token}
    (h : SpellsPath ts p) (ho : o.kind = .compareOp op) (hv : SpellsLiteral v.kind value)
    (hp : s.place = .operand) (hd : s.scopes.length ≤ maxDepth) :
    feed maxDepth s (ts ++ [o, v]) = .ok (s.push (.compare p op value)) := by
  obtain ⟨place, hfeed, -, hcompare⟩ := feed_path h hp hd
  have hop : (s.moveTo place).step maxDepth o = .ok (s.moveTo (.operator p op)) :=
    step_of_next? _ _ hd (hcompare o op ho)
  rw [feed_append hfeed, feed_cons hop, feed_singleton]
  exact step_of_next? _ _ hd (by simp [next?, moveTo, spellsLiteral_iff.mp hv, push])

/-! ## The three kinds of tree -/

/-- The tokens of an operand add it to the operands at hand. -/
def ReadsOperand (maxDepth : Nat) (f : Filter) : Prop :=
  ∀ ⦃ts : List Token⦄ ⦃s : State⦄, Spells ts f → s.place = .operand →
    f.depth + s.scopes.length ≤ maxDepth → feed maxDepth s ts = .ok (s.push f)

/-- The tokens of a conjunction, read where one may begin, are all of the conjunction at hand. -/
def ReadsConjunction (maxDepth : Nat) (f : Filter) : Prop :=
  ∀ ⦃ts : List Token⦄ ⦃s : State⦄, Spells ts f → s.place = .operand →
    f.depth + s.scopes.length ≤ maxDepth → s.operands.current = [] →
    ∃ current, feed maxDepth s ts =
        .ok { s with operands := ⟨s.operands.conjunctions, current⟩, place := .joint } ∧
      combine .and current.reverse = f

/-- The tokens of an expression, read at the start of a scope, are all that the scope holds. -/
def ReadsExpression (maxDepth : Nat) (f : Filter) : Prop :=
  ∀ ⦃ts : List Token⦄ ⦃s : State⦄, Spells ts f → s.place = .operand →
    f.depth + s.scopes.length ≤ maxDepth → s.operands = {} →
    ∃ os : Operands, feed maxDepth s ts = .ok { s with operands := os, place := .joint } ∧
      os.toFilter = f

theorem ReadsOperand.conjunction (h : ReadsOperand maxDepth f) : ReadsConjunction maxDepth f := by
  intro ts s hts hp hd hcur
  refine ⟨[f], ?_, rfl⟩
  rw [h hts hp hd, push, Operands.push, hcur]

theorem ReadsConjunction.expression (h : ReadsConjunction maxDepth f) :
    ReadsExpression maxDepth f := by
  intro ts s hts hp hd hos
  obtain ⟨current, hfeed, hcur⟩ := h hts hp hd (by rw [hos])
  refine ⟨⟨s.operands.conjunctions, current⟩, hfeed, ?_⟩
  rw [hos, Operands.toFilter, Operands.endConjunction, hcur]
  rfl

/-- Operands joined by `and` are added one after the other. -/
theorem feed_conjunction {fs : List Filter} (hread : ∀ f ∈ fs, ReadsOperand maxDepth f)
    (h : Joined .and ts fs) (hp : s.place = .operand)
    (hd : ∀ f ∈ fs, f.depth + s.scopes.length ≤ maxDepth) :
    feed maxDepth s ts = .ok { s with
      operands := ⟨s.operands.conjunctions, fs.reverse ++ s.operands.current⟩, place := .joint } := by
  induction fs generalizing ts s with
  | nil => cases h
  | cons f fs ih =>
    have hf := hread f List.mem_cons_self
    have hdf := hd f List.mem_cons_self
    cases h with
    | one h => exact hf h hp hdf
    | @more _ us vs t _ _ h ht hs =>
      -- One operand, the keyword, and then the others from a state with one operand more.
      have hle : s.scopes.length ≤ maxDepth := by omega
      have hstep : (s.push f).step maxDepth t = .ok ((s.push f).moveTo .operand) :=
        step_of_next? _ _ hle (by simp [next?, push, ht, TokenKind.joint, afterOperand?])
      have hrest := ih (s := (s.push f).moveTo .operand)
        (fun g hg => hread g (List.mem_cons_of_mem f hg)) hs rfl
        (fun g hg => hd g (List.mem_cons_of_mem f hg))
      rw [feed_append (hf h hp hdf), feed_cons hstep, hrest]
      simp [moveTo, push, Operands.push]

/-- Conjunctions joined by `or` are ended one after the other; the last one is still at hand. -/
theorem feed_disjunction {fs : List Filter} (hread : ∀ f ∈ fs, ReadsConjunction maxDepth f)
    (h : Joined .or ts fs) (hp : s.place = .operand)
    (hd : ∀ f ∈ fs, f.depth + s.scopes.length ≤ maxDepth) (hcur : s.operands.current = []) :
    ∃ os : Operands, feed maxDepth s ts = .ok { s with operands := os, place := .joint } ∧
      os.endConjunction.conjunctions.reverse = s.operands.conjunctions.reverse ++ fs := by
  induction fs generalizing ts s with
  | nil => cases h
  | cons f fs ih =>
    have hf := hread f List.mem_cons_self
    have hdf := hd f List.mem_cons_self
    cases h with
    | one h =>
      obtain ⟨current, hfeed, hcomb⟩ := hf h hp hdf hcur
      exact ⟨_, hfeed, by simp [Operands.endConjunction, hcomb]⟩
    | @more _ us vs t _ _ h ht hs =>
      obtain ⟨current, hfeed, hcomb⟩ := hf h hp hdf hcur
      -- The keyword ends the conjunction at hand, so the next one begins with nothing at hand.
      let os : Operands := ⟨s.operands.conjunctions, current⟩
      have hstep : step maxDepth { s with operands := os, place := .joint } t
          = .ok { s with operands := os.endConjunction, place := .operand } := by
        refine step_of_next? _ _ ?_ (by simp [next?, ht, TokenKind.joint, afterOperand?])
        show s.scopes.length ≤ maxDepth
        omega
      obtain ⟨os', hfeed', hos'⟩ :=
        ih (s := { s with operands := os.endConjunction, place := .operand })
          (fun g hg => hread g (List.mem_cons_of_mem f hg)) hs rfl
          (fun g hg => hd g (List.mem_cons_of_mem f hg)) rfl
      refine ⟨os', ?_, ?_⟩
      · rw [feed_append hfeed, feed_cons hstep, hfeed']
      · rw [hos']
        simp [os, Operands.endConjunction, hcomb]

/-- What stands in a scope is an expression, and the scope makes an operand of it. -/
theorem feed_scope {opening : Opening} {os : List Token} {c : Token} (hopen : SpellsOpening os opening)
    (hread : ReadsExpression maxDepth f) (h : Spells ts f) (hc : c.kind = .closeParen)
    (hp : s.place = .operand) (hd : f.depth + 1 + s.scopes.length ≤ maxDepth) :
    feed maxDepth s (os ++ ts ++ [c]) = .ok (s.push (opening.close f)) := by
  have hle : s.scopes.length ≤ maxDepth := by omega
  have henter : feed maxDepth s os = .ok (s.enter opening) := by
    cases hopen with
    | group ho =>
      rw [feed_singleton]
      exact step_of_next? _ _ hle (by simp [next?, hp, ho])
    | @negation n o hn ho =>
      have hnot : s.step maxDepth n = .ok (s.moveTo .negated) :=
        step_of_next? _ _ hle (by simp [next?, hp, hn])
      rw [feed_cons hnot, feed_singleton]
      exact step_of_next? _ _ hle (by simp [next?, moveTo, ho, enter])
  -- The parentheses count one in the depth of the tree and one in the open scopes.
  have hinner : f.depth + (s.enter opening).scopes.length ≤ maxDepth := by
    show f.depth + (s.scopes.length + 1) ≤ maxDepth
    omega
  obtain ⟨inner, hfeed, rfl⟩ := hread h (s := s.enter opening) rfl hinner rfl
  rw [List.append_assoc, feed_append henter, feed_append hfeed, feed_singleton]
  refine step_of_next? _ _ ?_ (by simp [next?, enter, hc, afterOperand?, push])
  show s.scopes.length + 1 ≤ maxDepth
  omega

/-- The tokens of a tree in normal form are read as that tree, at whichever of the three places the tree may
    stand. -/
theorem reads_of_normal (hn : f.Normal) :
    (f.isOperand = true → ReadsOperand maxDepth f) ∧
      (f.isDisjunction = false → ReadsConjunction maxDepth f) ∧ ReadsExpression maxDepth f := by
  -- An operand is a conjunction and an expression as well, and a conjunction is an expression.
  have ofOperand : ∀ {g : Filter}, ReadsOperand maxDepth g →
      (g.isOperand = true → ReadsOperand maxDepth g) ∧
        (g.isDisjunction = false → ReadsConjunction maxDepth g) ∧ ReadsExpression maxDepth g :=
    fun h => ⟨fun _ => h, fun _ => h.conjunction, h.conjunction.expression⟩
  induction hn with
  | compare p op v =>
    refine ofOperand fun ts s h hp hd => ?_
    cases h with
    | compare hpath ho hv => exact feed_compare hpath ho hv hp (by omega)
  | present p =>
    refine ofOperand fun ts s h hp hd => ?_
    cases h with
    | present hpath ht => exact feed_present hpath ht hp (by omega)
  | group _ ih =>
    refine ofOperand fun ts s h hp hd => ?_
    cases h with
    | group ho h hc => exact feed_scope (.group ho) ih.2.2 h hc hp (by rwa [depth] at hd)
  | negation _ ih =>
    refine ofOperand fun ts s h hp hd => ?_
    rw [depth_negation] at hd
    cases h with
    | negation hn ho h hc => exact feed_scope (.negation hn ho) ih.2.2 h hc hp hd
    | joined hc h => exact absurd rfl hc
  | @conjunction fs two operands _ ih =>
    have hconj : ReadsConjunction maxDepth (.logical .and fs) := by
      intro ts s h hp hd hcur
      cases h with
      | joined hc h =>
        refine ⟨fs.reverse, ?_, by rw [List.reverse_reverse, combine_of_two two]⟩
        rw [feed_conjunction (fun f hf => (ih f hf).1 (operands f hf)) h hp (fun f hf => ?_), hcur,
          List.append_nil]
        have := depthOfAll_le_iff.mp (Nat.le_refl (depthOfAll fs)) f hf
        rw [depth_logical hc] at hd
        omega
    exact ⟨fun h => absurd h (by simp [isOperand]), fun _ => hconj, hconj.expression⟩
  | @disjunction fs two operands _ ih =>
    -- An `or` is neither an operand nor a conjunction, and the first two places are closed to it.
    refine ⟨fun h => absurd h (by simp [isOperand]), fun h => absurd h (by simp [isDisjunction]), ?_⟩
    intro ts s h hp hd hos
    cases h with
    | joined hc h =>
      obtain ⟨os, hfeed, hall⟩ :=
        feed_disjunction (fun f hf => (ih f hf).2.1 (operands f hf)) h hp (fun f hf => by
          have := depthOfAll_le_iff.mp (Nat.le_refl (depthOfAll fs)) f hf
          rw [depth_logical hc] at hd
          omega) (by rw [hos])
      refine ⟨os, hfeed, ?_⟩
      rw [hos] at hall
      rw [Operands.toFilter, hall]
      exact combine_of_two two

end State

/-! ## Token lists -/

def beforeEnd (ts : List Token) : List Token :=
  ts.takeWhile (fun t => !t.isEof)

/-- A list of tokens whose last one marks the end. -/
def Terminated (ts : List Token) : Prop :=
  ∃ last, ts.getLast? = some last ∧ last.isEof = true

theorem Terminated.exists_eof {ts : List Token} (h : Terminated ts) : ∃ t ∈ ts, t.isEof = true := by
  obtain ⟨last, hlast, heof⟩ := h
  exact ⟨last, List.mem_of_getLast? hlast, heof⟩

theorem terminated_append_eof (ts : List Token) {t : Token} (h : t.isEof = true) :
    Terminated (ts ++ [t]) :=
  ⟨t, List.getLast?_concat, h⟩

theorem beforeEnd_append_eof {ts : List Token} (hts : ∀ t ∈ ts, t.isEof = false) {t : Token}
    (h : t.isEof = true) : beforeEnd (ts ++ [t]) = ts := by
  rw [beforeEnd, List.takeWhile_append_of_pos (by simpa using hts)]
  simp [h]

theorem parseTokens_eq_ok_iff {options : Options} {tokens : List Token} {f : Filter} :
    parseTokens options tokens = .ok f ↔
      Terminated tokens ∧ f.Normal ∧ f.depth ≤ options.maxDepth ∧ Spells (beforeEnd tokens) f := by
  constructor
  · intro h
    unfold parseTokens at h
    split at h
    · cases h
    next last hlast =>
    split at h
    next heof =>
      obtain ⟨s, hfeed, hfin, -⟩ := State.run_eq_ok_iff.mp h
      obtain ⟨hspells, hn, hd⟩ := (State.legible_start.feed hfeed).finished hfin
      exact ⟨⟨last, hlast, heof⟩, hn, hd, hspells⟩
    · cases h
  · rintro ⟨hterm, hn, hd, hspells⟩
    obtain ⟨os, hfeed, htree⟩ :=
      (State.reads_of_normal hn).2.2 hspells (s := {}) rfl (by simpa using hd) rfl
    have hrun : State.run options.maxDepth {} tokens = .ok f :=
      State.run_eq_ok_iff.mpr ⟨_, hfeed, by simp [State.finished?, htree], hterm.exists_eof⟩
    obtain ⟨last, hlast, heof⟩ := hterm
    simp [parseTokens, hlast, heof, hrun]

/-- Tokens spell at most one tree in normal form: both are what the machine reads. -/
theorem Spells.unique {ts : List Token} {f g : Filter} (hf : Spells ts f) (hg : Spells ts g)
    (hnf : f.Normal) (hng : g.Normal) : f = g := by
  let eof : Token := ⟨.eof, "", 0⟩
  let options : Options := { maxDepth := max f.depth g.depth }
  have hterm : Terminated (ts ++ [eof]) := terminated_append_eof ts rfl
  have hbefore : beforeEnd (ts ++ [eof]) = ts := beforeEnd_append_eof hf.not_eof rfl
  have hpf : parseTokens options (ts ++ [eof]) = .ok f :=
    parseTokens_eq_ok_iff.mpr ⟨hterm, hnf, Nat.le_max_left .., by rwa [hbefore]⟩
  have hpg : parseTokens options (ts ++ [eof]) = .ok g :=
    parseTokens_eq_ok_iff.mpr ⟨hterm, hng, Nat.le_max_right .., by rwa [hbefore]⟩
  rw [hpf] at hpg
  exact Except.ok.inj hpg

theorem parseTokensInto_fst_eq_some_iff {σ : Type} [ErrorSink σ] {options : Options}
    {tokens : List Token} {sink : σ} {f : Filter} :
    (parseTokensInto options tokens sink).1 = some f ↔ parseTokens options tokens = .ok f := by
  unfold parseTokensInto deliver
  cases parseTokens options tokens <;> simp

/-- **Reading accepts exactly the grammar.** A list of tokens yields a tree exactly when it is terminated, the
    tree has the normal form, its parentheses nest within the limit, and the tokens before the first that marks
    the end spell it. There is at most one such tree, and none for a list that is not terminated. -/
theorem parseTokensInto_accepts_grammar {σ : Type} [ErrorSink σ] (options : Options)
    (tokens : List Token) (sink : σ) :
    (∀ f, (parseTokensInto options tokens sink).1 = some f ↔
      Terminated tokens ∧ f.Normal ∧ f.depth ≤ options.maxDepth ∧ Spells (beforeEnd tokens) f) ∧
    (¬ Terminated tokens → (parseTokensInto options tokens sink).1 = none) ∧
    ∀ f g, f.Normal → g.Normal → Spells (beforeEnd tokens) f → Spells (beforeEnd tokens) g → f = g := by
  have hiff : ∀ f, (parseTokensInto options tokens sink).1 = some f ↔
      Terminated tokens ∧ f.Normal ∧ f.depth ≤ options.maxDepth ∧ Spells (beforeEnd tokens) f :=
    fun f => parseTokensInto_fst_eq_some_iff.trans parseTokens_eq_ok_iff
  refine ⟨hiff, fun hterm => ?_, fun f g hnf hng hf hg => hf.unique hg hnf hng⟩
  rw [Option.eq_none_iff_forall_ne_some]
  exact fun f h => hterm ((hiff f).mp h).1

/-- A negated conjunction is read with the end marked, also when another filter follows the mark, and not
    without the mark. -/
theorem parseTokensInto_accepts_grammar_negation :
    let filter : List Token := [⟨.not, "not", 0⟩, ⟨.openParen, "(", 4⟩, ⟨.name, "a", 5⟩, ⟨.dot, ".", 6⟩,
      ⟨.name, "b", 7⟩, ⟨.compareOp .gt, "gt", 9⟩, ⟨.number "1e3", "1e3", 12⟩, ⟨.and, "AND", 16⟩,
      ⟨.name, "c", 20⟩, ⟨.present, "pr", 22⟩, ⟨.closeParen, ")", 24⟩]
    let eof : Token := ⟨.eof, "", 25⟩
    let tree : Filter := .logical .not [.logical .and
      [.compare ⟨"a", some "b"⟩ .gt (.number "1e3"), .present ⟨"c", none⟩]]
    (parseTokensInto {} (filter ++ eof :: filter ++ [eof]) ({} : FailFast)).1 = some tree ∧
      (parseTokensInto {} filter ({} : FailFast)).1 = none ∧
      ∀ g, g.Normal → Spells filter g → g = tree := by
  intro filter eof tree
  have hleft : SpellsPath [⟨.name, "a", 5⟩, ⟨.dot, ".", 6⟩, ⟨.name, "b", 7⟩] ⟨"a", some "b"⟩ :=
    .qualified rfl (.inr rfl) rfl
  have hright : SpellsPath [⟨.name, "c", 20⟩] ⟨"c", none⟩ := .plain rfl
  have hjoined := Joined.more (c := .and) (t := ⟨.and, "AND", 16⟩)
    (.compare (o := ⟨.compareOp .gt, "gt", 9⟩) (v := ⟨.number "1e3", "1e3", 12⟩) hleft rfl (.number "1e3")) rfl
    (.one (.present (t := ⟨.present, "pr", 22⟩) hright rfl))
  have hspells : Spells filter tree := .negation rfl rfl (.joined (by decide) hjoined) rfl
  have hn : tree.Normal := by
    refine .negation (.conjunction (by decide) (by decide) ?_)
    simp only [List.forall_mem_cons]
    exact ⟨.compare .., .present _, List.forall_mem_nil _⟩
  refine ⟨((parseTokensInto_accepts_grammar {} _ _).1 tree).mpr
      ⟨⟨eof, rfl, rfl⟩, hn, by decide, hspells⟩,
    (parseTokensInto_accepts_grammar {} _ _).2.1 ?_,
    fun g hng hg => (parseTokensInto_accepts_grammar {} (filter ++ [eof]) ({} : FailFast)).2.2
      g tree hng hn hg hspells⟩
  rintro ⟨last, hlast, heof⟩
  cases hlast
  exact absurd heof (by decide)

end ScimLdap.Filter
