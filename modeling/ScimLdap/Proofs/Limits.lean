import ScimLdap.Proofs.Locations

/-!
# Limits — what a tighter limit can change

The two limits are there to refuse texts, so a tighter one may refuse more of them. It does nothing else
(`parse_of_tighter_limits`): what is read under tighter limits is what is read under looser ones, down to the
error, or else the error is that of a limit. Length is asked about once, before anything is read. Depth is
asked about at every token, and there the answer either leaves the step as it is or ends the run
(`State.step_tighten`); so two runs go side by side up to the token at which the tighter one ends
(`State.run_tighten`), and whatever the looser one still reports, it reports there or further on.
-/

namespace ScimLdap.Filter

/-- The second options read a text as the first do, and bear with at least as much. -/
structure Options.Tightens (tight loose : Options) : Prop where
  keywords : tight.keywordsCaseSensitive = loose.keywordsCaseSensitive
  maxLength : tight.maxLength ≤ loose.maxLength
  maxDepth : tight.maxDepth ≤ loose.maxDepth

/-- The errors of a text that come from a limit: there is more of it than is looked at, or at some token more
    parentheses are open than may be. -/
inductive LimitError (options : Options) (text : String) : SyntaxError → Prop
  | tooLong (h : options.maxLength < text.utf8ByteSize) :
      LimitError options text ⟨.tooLong text.utf8ByteSize options.maxLength, 0, none⟩
  | tooDeep (t : Token) : LimitError options text (t.error (.tooDeep options.maxDepth))

/-! ## Two runs side by side -/

namespace State

variable {d d' : Nat}

/-- A tighter bound leaves a step as it is, or ends the run at its token. -/
theorem step_tighten (h : d ≤ d') (s : State) (t : Token) :
    s.step d t = s.step d' t ∨ s.step d t = .error (t.error (.tooDeep d)) := by
  cases hdeep : s.tooDeep d with
  | true =>
    right
    rw [step, if_pos hdeep]
  | false =>
    left
    have hdeep' : s.tooDeep d' = false := by
      simp only [tooDeep, Bool.and_eq_false_iff, decide_eq_false_iff_not] at hdeep ⊢
      exact hdeep.imp_right fun hlt hlt' => hlt (Nat.lt_of_le_of_lt h hlt')
    rw [step, step, hdeep, hdeep', if_neg Bool.false_ne_true, if_neg Bool.false_ne_true]

/-- Two runs from one state stay together, or the tighter one ends at a token that the looser one reaches as
    well. -/
theorem run_tighten (h : d ≤ d') (s : State) (ts : List Token) :
    run d s ts = run d' s ts ∨
      ∃ before k after s', ts = before ++ k :: after ∧ run d s ts = .error (k.error (.tooDeep d)) ∧
        run d' s ts = run d' s' (k :: after) := by
  induction ts generalizing s with
  | nil => exact .inl rfl
  | cons t ts ih =>
    cases hfin : if t.isEof then s.finished? else none with
    | some f =>
      left
      rw [run, run, hfin]
    | none =>
      have hrun : ∀ n, run n s (t :: ts) = (s.step n t).bind (fun s' => run n s' ts) := by
        intro n
        rw [run, hfin]
      rcases step_tighten h s t with hstep | hstep
      · cases hnext : s.step d' t with
        | error e =>
          left
          rw [hrun, hrun, hstep, hnext]
          rfl
        | ok s₁ =>
          have htight : run d s (t :: ts) = run d s₁ ts := by
            rw [hrun, hstep, hnext]
            rfl
          have hloose : run d' s (t :: ts) = run d' s₁ ts := by
            rw [hrun, hnext]
            rfl
          rcases ih s₁ with heq | ⟨before, k, after, s', rfl, herr, hlater⟩
          · left
            rw [htight, hloose, heq]
          · exact .inr ⟨t :: before, k, after, s', rfl, htight.trans herr, hloose.trans hlater⟩
      · right
        refine ⟨[], t, ts, s, rfl, ?_, rfl⟩
        rw [hrun, hstep]
        rfl

end State

/-! ## Texts -/

variable {tight loose : Options} {text : String} {tokens : List Token}

theorem tokenize_tighten (h : tight.Tightens loose) (hlen : text.utf8ByteSize ≤ tight.maxLength) :
    tokenize tight text = tokenize loose text := by
  have hlen' : text.utf8ByteSize ≤ loose.maxLength := Nat.le_trans hlen h.maxLength
  rw [tokenize, tokenize, if_neg (Nat.not_lt.mpr hlen), if_neg (Nat.not_lt.mpr hlen')]
  exact scanTokens_congr h.keywords 0 text.toList

/-- A run on the last tokens of a text fails at one of them. -/
theorem State.exists_token_of_run_eq_error {d : Nat} {s : State} {ts : List Token} {e : SyntaxError}
    (hterm : Terminated ts) (h : run d s ts = .error e) : ∃ k ∈ ts, e.position = k.position := by
  obtain ⟨front, k, back, s', rfl, -, -, hstep⟩ := run_eq_error h hterm.exists_eof
  obtain ⟨fault, rfl⟩ := step_eq_error hstep
  exact ⟨k, List.mem_append_right front List.mem_cons_self, rfl⟩

theorem parseTokens_tighten (h : tight.Tightens loose) (htok : tokenize loose text = .ok tokens) :
    parseTokens tight tokens = parseTokens loose tokens ∨
      ∃ k : Token, parseTokens tight tokens = .error (k.error (.tooDeep tight.maxDepth)) ∧
        ∀ e, parseTokens loose tokens = .error e → k.position ≤ e.position := by
  obtain ⟨us, htokens, -⟩ := tokenize_sound htok
  have hlast : tokens.getLast? = some ⟨.eof, "", Text.width text.toList⟩ := by
    rw [htokens]
    exact List.getLast?_concat
  have hrun : ∀ options : Options, parseTokens options tokens = State.run options.maxDepth {} tokens := by
    intro options
    rw [parseTokens, hlast]
    rfl
  rw [hrun, hrun]
  rcases State.run_tighten h.maxDepth {} tokens with heq | ⟨before, k, after, s', hsplit, herr, hlater⟩
  · exact .inl heq
  right
  refine ⟨k, herr, ?_⟩
  intro e he
  rw [hlater] at he
  rw [hsplit] at hlast
  have hterm : Terminated (k :: after) := ⟨_, by rwa [List.getLast?_append_cons] at hlast, rfl⟩
  obtain ⟨k', hk', hpos⟩ := State.exists_token_of_run_eq_error hterm he
  -- Tokens stand in the order of their positions, and the looser run reports one from `k` on.
  have hrising := (scanTokens_positions (tokenize_eq_ok_iff.mp htok).2).1
  rw [hsplit, List.pairwise_append] at hrising
  rw [hpos]
  rcases List.mem_cons.mp hk' with rfl | hk'
  · exact Nat.le_refl _
  · exact Nat.le_of_lt (List.rel_of_pairwise_cons hrising.2.1 hk')

/-- What is read under looser limits is read under tighter ones as far as they go. -/
theorem parse_eq_ok_tighten (h : tight.Tightens loose) {f : Filter} (hf : parse loose text = .ok f) :
    parse tight text = .ok f ↔ text.utf8ByteSize ≤ tight.maxLength ∧ f.depth ≤ tight.maxDepth := by
  obtain ⟨tokens, htok, hparse⟩ := Outcome.bind_eq_ok_iff.mp hf
  obtain ⟨hterm, hn, -, hspells⟩ := parseTokens_eq_ok_iff.mp hparse
  constructor
  · intro htight
    obtain ⟨tokens', htok', hparse'⟩ := Outcome.bind_eq_ok_iff.mp htight
    exact ⟨(tokenize_eq_ok_iff.mp htok').1, (parseTokens_eq_ok_iff.mp hparse').2.2.1⟩
  · rintro ⟨hlen, hdepth⟩
    refine Outcome.bind_eq_ok_iff.mpr ⟨tokens, ?_, ?_⟩
    · rw [tokenize_tighten h hlen, htok]
    · exact parseTokens_eq_ok_iff.mpr ⟨hterm, hn, hdepth, hspells⟩

/-- **A tighter limit leaves an outcome as it is, or turns it into an error of that limit.** It stands no later
    in the text than the error under the looser limits, if that is what it takes the place of; and a tree is
    given up only where the text is too long or the tree too deep. -/
theorem parse_of_tighter_limits (h : tight.Tightens loose) (text : String) :
    (parse tight text = parse loose text ∨
      ∃ e, parse tight text = .error e ∧ LimitError tight text e ∧
        ∀ e', parse loose text = .error e' → e.position ≤ e'.position) ∧
    ∀ f, parse loose text = .ok f →
      (parse tight text = .ok f ↔ text.utf8ByteSize ≤ tight.maxLength ∧ f.depth ≤ tight.maxDepth) := by
  refine ⟨?_, fun f hf => parse_eq_ok_tighten h hf⟩
  by_cases hlen : text.utf8ByteSize ≤ tight.maxLength
  · have htok := tokenize_tighten h hlen
    rw [parse, parse, htok]
    cases hloose : tokenize loose text with
    | error e => exact .inl rfl
    | ok tokens =>
      rcases parseTokens_tighten h hloose with heq | ⟨k, herr, hlater⟩
      · exact .inl heq
      · exact .inr ⟨_, herr, .tooDeep k, hlater⟩
  · right
    have hlong : tight.maxLength < text.utf8ByteSize := Nat.not_le.mp hlen
    refine ⟨_, ?_, .tooLong hlong, fun e' _ => Nat.zero_le _⟩
    rw [parse, tokenize, if_pos hlong]
    rfl

/-- Two groups are opened where one may be. The looser limits lead on to a parenthesis that is not closed. -/
theorem parse_of_tighter_limits_unclosed :
    let tight : Options := { maxDepth := 1, maxLength := 20 }
    let loose : Options := { maxDepth := 2 }
    let text := "( (a pr) or not b pr"
    parse tight text = .error ⟨.tooDeep 1, 3, some "a"⟩ ∧
      parse loose text = .error ⟨.expectedOpenAfterNot, 16, some "b"⟩ ∧ tight.Tightens loose ∧
      ∃ e, parse tight text = .error e ∧ LimitError tight text e ∧
        ∀ e', parse loose text = .error e' → e.position ≤ e'.position := by
  intro tight loose text
  have htight : parse tight text = .error ⟨.tooDeep 1, 3, some "a"⟩ := by cbv
  have hloose : parse loose text = .error ⟨.expectedOpenAfterNot, 16, some "b"⟩ := by cbv
  have h : tight.Tightens loose := ⟨rfl, by decide, by decide⟩
  refine ⟨htight, hloose, h, ?_⟩
  rcases (parse_of_tighter_limits h text).1 with heq | hlimit
  · rw [htight, hloose] at heq
    cases heq
  · exact hlimit

end ScimLdap.Filter
