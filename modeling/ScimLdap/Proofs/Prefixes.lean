import Mathlib
import ScimLdap.Proofs.Acceptance
import ScimLdap.Proofs.Renaming
import ScimLdap.Proofs.Scanning

/-!
# Prefixes — an error stands at the first token that rules the text out

A text that is refused is refused at a token up to which it could still have become a filter, and with which
it no longer can (`error_at_first_offending_token`). Both halves are facts about the state that reading has
reached when it fails. Every state can be completed: a few words, and one parenthesis for each open scope,
lead from it to where the text may end (`State.completable`). And the state depends on no more than the kinds
of the tokens read, up to names, so a token that one text cannot have in this place no text can have.
-/

namespace ScimLdap.Filter

open Text (Stops stops_nil stops_cons)

namespace State

variable {options : Options} {maxDepth : Nat} {s s' : State} {t : Token} {ts us : List Token}
  {kind : TokenKind}

/-! ## Where a run fails -/

theorem isEof_eq_false_of_next? (h : s.next? t = some s') : t.isEof = false := by
  cases he : t.isEof with
  | false => rfl
  | true => rw [next?_eof he] at h; cases h

theorem isEof_eq_false_of_follow (h : s.follow ts = some s') : ∀ t ∈ ts, t.isEof = false := by
  induction ts generalizing s with
  | nil => exact fun t ht => absurd ht List.not_mem_nil
  | cons t ts ih =>
    obtain ⟨s₁, hs, h⟩ := Option.bind_eq_some_iff.mp h
    exact List.forall_mem_cons.mpr ⟨isEof_eq_false_of_next? hs, ih h⟩

theorem follow_append : s.follow (ts ++ us) = (s.follow ts).bind (fun s' => s'.follow us) := by
  induction ts generalizing s with
  | nil => rfl
  | cons t ts ih =>
    rw [List.cons_append, follow, follow, Option.bind_assoc]
    congr 1
    funext s₁
    exact ih

/-- A run that fails makes its steps up to one token, and fails there: the text may not end there and the step
    to it fails. -/
theorem run_eq_error {e : SyntaxError} (h : run maxDepth s ts = .error e)
    (hend : ∃ t ∈ ts, t.isEof = true) :
    ∃ before k after s', ts = before ++ k :: after ∧ feed maxDepth s before = .ok s' ∧
      (k.isEof = true → s'.finished? = none) ∧ s'.step maxDepth k = .error e := by
  induction ts generalizing s with
  | nil =>
    obtain ⟨t, ht, -⟩ := hend
    exact absurd ht List.not_mem_nil
  | cons t ts ih =>
    rw [run] at h
    cases hfin : if t.isEof = true then s.finished? else none with
    | some f => rw [hfin] at h; cases h
    | none =>
      rw [hfin] at h
      simp only at h
      have hopen : t.isEof = true → s.finished? = none := fun he => by rwa [if_pos he] at hfin
      cases hstep : s.step maxDepth t with
      | error e' =>
        rw [hstep] at h
        cases h
        exact ⟨[], t, ts, s, rfl, rfl, hopen, hstep⟩
      | ok s₁ =>
        rw [hstep] at h
        have hte := isEof_eq_false_of_next? (step_eq_ok_iff.mp hstep).2
        obtain ⟨u, hu, hue⟩ := hend
        have hend' : ∃ t ∈ ts, t.isEof = true := by
          rcases List.mem_cons.mp hu with rfl | hu
          · rw [hte] at hue; cases hue
          · exact ⟨u, hu, hue⟩
        obtain ⟨before, k, after, s', rfl, hfeed, hk, herr⟩ := ih h hend'
        exact ⟨t :: before, k, after, s', rfl, by rw [feed_cons hstep, hfeed], hk, herr⟩

/-! ## The limit on depth -/

theorem scopes_afterPath? {p : AttrPath} (h : s.afterPath? p kind = some s') :
    s'.scopes = s.scopes := by
  unfold afterPath? at h
  split at h <;> cases h <;> rfl

theorem length_scopes_afterOperand? (h : s.afterOperand? kind = some s') :
    s'.scopes.length ≤ s.scopes.length := by
  unfold afterOperand? at h
  split at h
  · cases h; exact Nat.le_refl _
  · cases h; exact Nat.le_refl _
  · split at h
    · cases h
    · next scope scopes hs => cases h; rw [hs]; exact Nat.le_succ _
  · cases h

/-- A token opens one scope at most. -/
theorem length_scopes_next? (h : s.next? t = some s') :
    s'.scopes.length ≤ s.scopes.length + 1 := by
  have hpath : ∀ p, s.afterPath? p t.kind = some s' → s'.scopes.length ≤ s.scopes.length + 1 :=
    fun p h => by rw [scopes_afterPath? h]; exact Nat.le_succ _
  unfold next? at h
  split at h
  · split at h <;> cases h <;> simp [moveTo, enter]
  · split at h <;> cases h; simp [enter]
  · split at h
    · cases h; exact Nat.le_succ _
    · exact hpath _ h
  · split at h <;> cases h; exact Nat.le_succ _
  · exact hpath _ h
  · obtain ⟨v, -, rfl⟩ := Option.map_eq_some_iff.mp h
    exact Nat.le_succ _
  · exact Nat.le_succ_of_le (length_scopes_afterOperand? h)

/-- Where parentheses may nest as deep as there are tokens, the limit does not show. -/
theorem feed_of_follow (h : s.follow ts = some s') (hd : s.scopes.length + ts.length ≤ maxDepth) :
    feed maxDepth s ts = .ok s' ∧ s'.scopes.length ≤ s.scopes.length + ts.length := by
  induction ts generalizing s with
  | nil => cases h; exact ⟨rfl, Nat.le_refl _⟩
  | cons t ts ih =>
    obtain ⟨s₁, hs, h⟩ := Option.bind_eq_some_iff.mp h
    have hlen := length_scopes_next? hs
    rw [List.length_cons] at hd ⊢
    have hstep : s.step maxDepth t = .ok s₁ := step_of_next? s s₁ (by omega) hs
    obtain ⟨hfeed, hle⟩ := ih h (by omega)
    exact ⟨by rw [feed_cons hstep, hfeed], by omega⟩

/-! ## What may still come

A word at a time, each after a blank, so that none of them continues what stands before it. -/

/-- Some text leads from the state to an end, at which the given tree has been read. -/
def EndsAt (options : Options) (s : State) (f : Filter) : Prop :=
  ∃ cs, Stops joins cs ∧ Scans options cs (fun ts => (s.follow ts).bind finished? = some f)

theorem EndsAt.next {w : String} {f : Filter}
    (hw : IsLexeme options kind w.toList)
    (hnext : ∀ position, s.next? ⟨kind, w, position⟩ = some s') (h : s'.EndsAt options f) :
    s.EndsAt options f := by
  obtain ⟨cs, hcs, h⟩ := h
  refine ⟨' ' :: (w.toList ++ cs), stops_cons (by decide) _, Scans.blank fun position rest hr => ?_⟩
  -- The word, and then the text that leads on from the next state.
  obtain ⟨us, hus, at', rfl⟩ := hw.scans position (cs ++ rest) (hcs.append hr)
  obtain ⟨vs, hvs, hf⟩ := h (position + Text.width w.toList) rest hr
  rw [String.ofList_toList] at hus
  refine ⟨⟨kind, w, at'⟩ :: vs, ?_, by rw [follow, hnext]; exact hf⟩
  rw [List.append_assoc, hus, hvs, map_append_map_append, Text.width_append, Nat.add_assoc]
  rfl

theorem completable_joint (scopes : List Scope) (os : Operands) :
    ∃ f, EndsAt options ⟨scopes, os, .joint⟩ f := by
  induction scopes generalizing os with
  | nil => exact ⟨os.toFilter, [], stops_nil _, (scans_nil options).imp fun ts hts => by rw [hts]; rfl⟩
  | cons scope scopes ih =>
    obtain ⟨f, hf⟩ := ih (scope.outer.push (scope.opening.close os.toFilter))
    exact ⟨f, hf.next (w := ")") (.punctuation rfl) fun _ => rfl⟩

/-- **Every state can be completed**: the operand at hand first, then the scopes that are open. -/
theorem completable (options : Options) (s : State) : ∃ f, EndsAt options s f := by
  have hname : IsLexeme options .name "a".toList :=
    .keyword (isWord_of_all (by decide) (by decide)) (by decide +kernel) (by decide +kernel)
  have hpresent : IsLexeme options .present "pr".toList :=
    .keyword (isWord_of_all (by decide) (by decide)) (by decide +kernel) (by decide +kernel)
  have hnull : IsLexeme options .null "null".toList :=
    .keyword (isWord_of_all (by decide) (by decide)) (by decide +kernel) (by decide +kernel)
  have hoperand : ∀ scopes os, ∃ f, EndsAt options ⟨scopes, os, .operand⟩ f := fun scopes os => by
    obtain ⟨f, hf⟩ := completable_joint scopes (os.push (.present ⟨"a", none⟩))
    have hmid : EndsAt options ⟨scopes, os, .name "a"⟩ f := hf.next hpresent fun _ => rfl
    exact ⟨f, hmid.next hname fun _ => rfl⟩
  obtain ⟨scopes, os, place⟩ := s
  cases place with
  | operand => exact hoperand scopes os
  | negated =>
    obtain ⟨f, hf⟩ := hoperand (⟨.negation, os⟩ :: scopes) {}
    exact ⟨f, hf.next (w := "(") (.punctuation rfl) fun _ => rfl⟩
  | name attr =>
    obtain ⟨f, hf⟩ := completable_joint scopes (os.push (.present ⟨attr, none⟩))
    exact ⟨f, hf.next hpresent fun _ => rfl⟩
  | separator attr =>
    obtain ⟨f, hf⟩ := completable_joint scopes (os.push (.present ⟨attr, some "a"⟩))
    have hmid : EndsAt options ⟨scopes, os, .path ⟨attr, some "a"⟩⟩ f :=
      hf.next hpresent fun _ => rfl
    exact ⟨f, hmid.next hname fun _ => rfl⟩
  | path p =>
    obtain ⟨f, hf⟩ := completable_joint scopes (os.push (.present p))
    exact ⟨f, hf.next hpresent fun _ => rfl⟩
  | operator p op =>
    obtain ⟨f, hf⟩ := completable_joint scopes (os.push (.compare p op .null))
    exact ⟨f, hf.next hnull fun _ => rfl⟩
  | joint => exact completable_joint scopes os

end State

/-! ## Viable prefixes -/

variable {options : Options} {text : String} {before after ts : List Token} {k : Token} {f : Filter}
  {s : State}

/-- Without limits the machine accepts the tokens of trees in normal form, and no others. -/
theorem follow_finished_iff :
    (State.follow {} ts).bind State.finished? = some f ↔ f.Normal ∧ Spells ts f := by
  constructor
  · intro h
    obtain ⟨s, hs, hf⟩ := Option.bind_eq_some_iff.mp h
    obtain ⟨hfeed, -⟩ := State.feed_of_follow hs (Nat.le_of_eq (Nat.zero_add ts.length))
    obtain ⟨hspells, hn, -⟩ := (State.legible_start.feed hfeed).finished hf
    exact ⟨hn, hspells⟩
  · rintro ⟨hn, hspells⟩
    obtain ⟨os, hfeed, rfl⟩ :=
      (State.reads_of_normal hn).2.2 hspells (s := {}) rfl (Nat.le_refl f.depth) rfl
    rw [State.follow_of_feed hfeed]
    rfl

/-- The tokens begin those of a text that is accepted, wherever the limits admit its length and the nesting of
    its tree. -/
def Viable (options : Options) (ts : List Token) : Prop :=
  ∃ text tokens f, ts <+: tokens ∧ ∀ limits : Options,
    limits.keywordsCaseSensitive = options.keywordsCaseSensitive →
    text.utf8ByteSize ≤ limits.maxLength →
      tokenize limits text = .ok tokens ∧ (f.depth ≤ limits.maxDepth → parse limits text = .ok f)

/-- Tokens that lead to a state are a viable prefix, as the state can be completed. -/
theorem viable_of_follow (htok : tokenize options text = .ok (before ++ after)) (hne : after ≠ [])
    (h : State.follow {} before = some s) : Viable options before := by
  obtain ⟨ds, rest, -, hcut⟩ := scanTokens_cut (tokenize_eq_ok_iff.mp htok).2 hne
  obtain ⟨f, cs, hcs, hends⟩ := State.completable options s
  obtain ⟨ts, hts, hf⟩ := hends (0 + Text.width ds) [] (stops_nil joins)
  rw [List.append_nil, scanTokens_nil] at hts
  let eof : Token := ⟨.eof, "", 0 + Text.width ds + Text.width cs⟩
  -- The text up to the cut, then the completion.
  have hscan : scanTokens options 0 (ds ++ cs) = .ok (before ++ ts ++ [eof]) := by
    rw [hcut cs hcs, hts, map_append_map_append]
    rfl
  have hall : (State.follow {} (before ++ ts)).bind State.finished? = some f := by
    rw [State.follow_append, h]
    exact hf
  obtain ⟨hn, hspells⟩ := follow_finished_iff.mp hall
  refine ⟨String.ofList (ds ++ cs), _, f, ⟨ts ++ [eof], (List.append_assoc ..).symm⟩,
    fun limits hcase hlen => ?_⟩
  have htok' : tokenize limits (String.ofList (ds ++ cs)) = .ok (before ++ ts ++ [eof]) :=
    tokenize_eq_ok_iff.mpr
      ⟨hlen, by rw [scanTokens_congr hcase, String.toList_ofList]; exact hscan⟩
  refine ⟨htok', fun hdepth => ?_⟩
  rw [parse, htok']
  exact parseTokens_eq_ok_iff.mpr ⟨terminated_append_eof _ rfl, hn, hdepth,
    by rwa [beforeEnd_append_eof hspells.not_eof rfl]⟩

/-- Tokens of the same kinds lead to the same state, up to names. -/
theorem State.follow_of_kinds {us : List Token} (h : State.follow {} ts = some s)
    (hkinds : us.map Token.kind = ts.map Token.kind) :
    ∃ s', State.follow {} us = some s' ∧ s'.rename (fun _ => "") = s.rename (fun _ => "") := by
  -- Without its name a token is its kind.
  let blank (kind : TokenKind) : Token := Token.outline (fun _ => "") ⟨kind, "", 0⟩
  have hblank : ∀ ts : List Token,
      ts.map (Token.outline fun _ => "") = (ts.map Token.kind).map blank := fun ts => by
    rw [List.map_map]
    rfl
  have hrename := State.follow_rename (ν := fun _ => "") {} us
  rw [hblank, hkinds, ← hblank, State.follow_rename, h] at hrename
  obtain ⟨s', hs', heq⟩ := Option.map_eq_some_iff.mp hrename.symm
  exact ⟨s', hs', heq⟩

/-- Where the machine is stuck at a token, no list of tokens that begins with the same kinds is accepted. -/
theorem parseTokens_ne_ok_of_stuck (h : State.follow {} before = some s)
    (hend : k.isEof = true → s.finished? = none) (hstuck : s.next? k = none) {tokens : List Token}
    (hfront : (before ++ [k]).map Token.kind <+: tokens.map Token.kind) :
    parseTokens options tokens ≠ .ok f := by
  intro hok
  obtain ⟨-, hn, -, hspells⟩ := parseTokens_eq_ok_iff.mp hok
  have hall := follow_finished_iff.mpr ⟨hn, hspells⟩
  -- The tokens fall into those of the kinds before `k`, one of the kind of `k`, and others.
  obtain ⟨kinds, hkinds⟩ := hfront
  rw [List.map_append, List.append_assoc] at hkinds
  obtain ⟨us, vs, rfl, hus, hvs⟩ := List.map_eq_append_iff.mp hkinds.symm
  obtain ⟨u, ws, rfl, hu, -⟩ := List.map_eq_cons_iff.mp hvs
  obtain ⟨s', hs', hrename⟩ := State.follow_of_kinds h hus
  have hopen : ∀ t ∈ us, (fun t : Token => !t.isEof) t = true := fun t ht => by
    simp [State.isEof_eq_false_of_follow hs' t ht]
  rw [beforeEnd, List.takeWhile_append_of_pos hopen, State.follow_append, hs',
    Option.bind_some] at hall
  cases he : u.isEof with
  | true =>
    -- The text ends here, which the state does not allow.
    have hk : k.isEof = true := by rwa [Token.isEof, hu] at he
    rw [List.takeWhile_cons_of_neg (by simp [he])] at hall
    have hfin : s'.finished? = some f := hall
    have hnone := State.finished?_rename (ν := fun _ => "") s'
    rw [hrename, State.finished?_rename, hend hk, hfin] at hnone
    cases hnone
  | false =>
    -- A step is made, which the state does not allow either.
    rw [List.takeWhile_cons_of_pos (by simp [he]), State.follow] at hall
    obtain ⟨_, hfollow, -⟩ := Option.bind_eq_some_iff.mp hall
    obtain ⟨s₁, hs₁, -⟩ := Option.bind_eq_some_iff.mp hfollow
    have hout : u.outline (fun _ => "") = k.outline (fun _ => "") := by simp [Token.outline, hu]
    have hnone := State.next?_rename (ν := fun _ => "") s' u
    rw [hrename, hout, State.next?_rename, hstuck, hs₁] at hnone
    cases hnone

/-! ## Where the error stands -/

/-- **An error stands at the first token that rules the text out.** Where the limit on depth is no less than the
    number of tokens, a text that has tokens and is no filter is refused at one of them, `k`: the error has its
    position and its text, no other token stands at that position, the tokens before it begin a text that is
    accepted, and no text whose tokens begin with the same kinds up to and with `k` is accepted under any
    limits. -/
theorem error_at_first_offending_token {tokens : List Token} {e : SyntaxError}
    (htok : tokenize options text = .ok tokens) (hdepth : tokens.length ≤ options.maxDepth + 1)
    (herr : parse options text = .error e) :
    ∃ before k after, tokens = before ++ k :: after ∧
      e.position = k.position ∧ e.found = (if k.isEof then none else some k.text) ∧
      (∀ t ∈ tokens, t.position = e.position → t = k) ∧
      Viable options before ∧
      ∀ (limits : Options) (text' : String) (tokens' : List Token) (f : Filter),
        tokenize limits text' = .ok tokens' →
        (before ++ [k]).map Token.kind <+: tokens'.map Token.kind →
        parse limits text' ≠ .ok f := by
  obtain ⟨us, rfl, hus⟩ := tokenize_sound htok
  have hrun : State.run options.maxDepth {} (us ++ [⟨.eof, "", Text.width text.toList⟩]) = .error e := by
    rw [parse, htok] at herr
    have heof : Token.isEof ⟨.eof, "", Text.width text.toList⟩ = true := rfl
    simpa [Except.bind, parseTokens, heof] using herr
  obtain ⟨before, k, after, s, hsplit, hfeed, hend, hstep⟩ :=
    State.run_eq_error hrun ⟨_, List.mem_append_right us List.mem_cons_self, rfl⟩
  rw [hsplit] at htok hdepth ⊢
  have hfollow := State.follow_of_feed hfeed
  -- There are not enough tokens to open more scopes than may be open.
  have hscopes : s.scopes.length ≤ options.maxDepth := by
    have hlen := (State.feed_of_follow hfollow (Nat.le_of_eq (Nat.zero_add before.length))).2
    simp only [List.length_append, List.length_cons, List.length_nil] at hdepth hlen
    omega
  have hstuck : s.next? k = none := by
    cases hk : s.next? k with
    | none => rfl
    | some s' => rw [State.step_of_next? s s' hscopes hk] at hstep; cases hstep
  have he : e = k.error s.fault := by
    have hshallow : s.tooDeep options.maxDepth = false := by simp [State.tooDeep, hscopes]
    simp only [State.step, hshallow, hstuck] at hstep
    exact (Except.error.inj hstep).symm
  refine ⟨before, k, after, rfl, by rw [he]; rfl, by rw [he]; rfl, fun t ht hpos => ?_,
    viable_of_follow htok (List.cons_ne_nil _ _) hfollow, fun limits text' tokens' f htok' hfront => ?_⟩
  · exact scanTokens_position_inj (tokenize_eq_ok_iff.mp htok).2 t ht k
      (List.mem_append_right before List.mem_cons_self) (hpos.trans (by rw [he]; rfl))
  · rw [parse, htok']
    exact parseTokens_ne_ok_of_stuck hfollow hend hstuck hfront

/-- An operand that no connective joins to the one before it. What stands before it could have gone on, with the
    parenthesis closed. -/
theorem error_at_first_offending_token_unclosed :
    let text := "not (a eq true b pr"
    let tokens : List Token := [⟨.not, "not", 0⟩, ⟨.openParen, "(", 4⟩, ⟨.name, "a", 5⟩,
      ⟨.compareOp .eq, "eq", 7⟩, ⟨.bool true, "true", 10⟩, ⟨.name, "b", 15⟩, ⟨.present, "pr", 17⟩,
      ⟨.eof, "", 19⟩]
    let e : SyntaxError := ⟨.expectedCloseOfNot, 15, some "b"⟩
    tokenize {} text = .ok tokens ∧ parse {} text = .error e ∧
      ∃ before k after, tokens = before ++ k :: after ∧
        e.position = k.position ∧ e.found = (if k.isEof then none else some k.text) ∧
        (∀ t ∈ tokens, t.position = e.position → t = k) ∧
        Viable {} before ∧
        ∀ (limits : Options) (text' : String) (tokens' : List Token) (f : Filter),
          tokenize limits text' = .ok tokens' →
          (before ++ [k]).map Token.kind <+: tokens'.map Token.kind →
          parse limits text' ≠ .ok f := by
  intro text tokens e
  have htok : tokenize {} text = .ok tokens := by cbv
  have herr : parse {} text = .error e := by cbv
  exact ⟨htok, herr, error_at_first_offending_token htok (by decide) herr⟩

end ScimLdap.Filter
