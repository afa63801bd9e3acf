import ScimLdap.Proofs.Locations

/-!
# Completions — when the end of the text came too early

An error that found nothing says that the text ended where something was due. Then more text should make a
filter of it. That is so for every text that can be cut into tokens, because the parser failed at its end and
each state of the parser can be completed. It is not so for every text that ends inside a string: the whole
text is cut into tokens before any is looked at, so the end is told although the string may stand where none
can. `error_at_end_of_input` tells the two apart: the string can be closed in any case, and a filter comes of
it exactly when a value was due where the string opens.
-/

namespace ScimLdap.Filter

open Text (Stops stops_nil stops_cons)

variable {options limits : Options} {start position : Nat} {cs ds rest v w : List Char} {e : SyntaxError}
  {us ts : List Token} {s s' : State} {t k eof : Token} {f : Filter}

/-! ## Strings that are not closed -/

theorem SpellsString.append (h : SpellsString cs v) (h' : SpellsString ds w) :
    SpellsString (cs ++ ds) (v ++ w) := by
  induction h with
  | nil => exact h'
  | plain hq hb _ ih => exact .plain hq hb ih
  | escape he _ ih => exact .escape he ih

/-- Characters after a quote with which, and others after them, the quote that closes can come. -/
def OpenString (cs : List Char) : Prop :=
  ∃ more v, SpellsString (cs ++ more) v

/-- A string that cannot be read is open, if a wrong escape is at fault only where the text ends after the
    backslash. -/
theorem openString_of_error (h : scanString start position cs = .error e)
    (hescape : e.fault = .invalidEscape → e.position + 1 = position + Text.width cs) : OpenString cs := by
  rcases scanString_eq_error h with ⟨-, v, hspells⟩ | ⟨ds, v, rest, rfl, hspells, rfl⟩
  · exact ⟨[], v, by rwa [List.append_nil]⟩
  · have hrest : rest = [] := by
      have hwidth := hescape rfl
      cases rest with
      | nil => rfl
      | cons d rest =>
        have hd := d.utf8Size_pos
        have hb : Char.utf8Size '\\' = 1 := by decide
        simp only [Text.width_append, Text.width_cons, hb] at hwidth
        omega
    subst hrest
    refine ⟨['\\'], v ++ ['\\'], ?_⟩
    have hpair : SpellsString ['\\', '\\'] ['\\'] := .escape (by decide) .nil
    simpa using hspells.append hpair

/-- What begins with a quote can only be a string. -/
theorem kind_of_lexeme_quote {l : Lexeme} (h : lexeme options position '"' cs = .ok l) :
    ∃ value, l.kind = .string value := by
  rw [lexeme_quote] at h
  obtain ⟨q, -, rfl⟩ := Outcome.map_eq_ok_iff.mp h
  exact ⟨_, rfl⟩

/-- A string that cannot be read is one of the reader of strings. -/
theorem scanString_of_lexeme_error (h : lexeme options position '"' cs = .error e) :
    scanString position (position + Text.width ['"']) cs = .error e := by
  rw [lexeme_quote] at h
  exact Outcome.map_eq_error_iff.mp h

/-- A closed string is read again as one more token. -/
theorem Resumes.string (h : Resumes options position ds us) (hspells : SpellsString cs v) :
    Resumes options position (ds ++ '"' :: (cs ++ ['"'])) (us ++
      [⟨.string (String.ofList v), String.ofList ('"' :: (cs ++ ['"'])), position + Text.width ds⟩]) := by
  intro rest hr
  have hlexeme : lexeme options (position + Text.width ds) '"' (cs ++ '"' :: rest) = _ := lexeme_string hspells
  have hquote : Stops joins ('"' :: (cs ++ '"' :: rest)) := stops_cons (by decide) _
  have hassoc : ds ++ '"' :: (cs ++ ['"']) ++ rest = ds ++ '"' :: (cs ++ '"' :: rest) := by simp
  rw [hassoc, h _ hquote, scanTokens_lexeme hlexeme, Text.add_width_add]
  exact map_append_map_append us [_] _

/-! ## Where the parser stands at the end -/

/-- No token but the last marks the end, so what comes before a token that does is all the others. -/
theorem eq_of_append_eof (hus : ∀ t ∈ us, t.isEof = false) {before after : List Token}
    (h : us ++ [eof] = before ++ k :: after) (hk : k.isEof = true) : before = us := by
  rcases List.eq_nil_or_concat after with rfl | ⟨after, x, rfl⟩
  · exact (List.append_inj' h rfl).1.symm
  · have hsplit : us ++ [eof] = (before ++ k :: after) ++ [x] := by simpa using h
    obtain rfl := (List.append_inj' hsplit rfl).1
    rw [hus k (List.mem_append_right before List.mem_cons_self)] at hk
    cases hk

/-- Tokens that were stepped over have no part in how a run ends. -/
theorem State.run_of_feed {d : Nat} (h : State.feed d s us = .ok s') (ts : List Token) :
    State.run d s (us ++ ts) = State.run d s' ts := by
  induction us generalizing s with
  | nil => cases h; rfl
  | cons u us ih =>
    rw [State.feed] at h
    obtain ⟨s₁, hstep, h⟩ := Outcome.bind_eq_ok_iff.mp h
    have hu := State.isEof_eq_false_of_next? (State.step_eq_ok_iff.mp hstep).2
    rw [List.cons_append, State.run, hu, hstep]
    exact ih h

/-- Where nothing was found, the parser failed at the end, in the state to which all tokens lead. -/
theorem follow_of_error_at_end (hus : ∀ t ∈ us, t.isEof = false) (heof : eof.isEof = true)
    (h : parseTokens options (us ++ [eof]) = .error e) (hfound : e.found = none) :
    ∃ s, State.follow {} us = some s ∧ s.step options.maxDepth eof = .error e := by
  have hrun : State.run options.maxDepth {} (us ++ [eof]) = .error e := by
    simpa [parseTokens, heof] using h
  obtain ⟨before, k, after, s, hsplit, hfeed, -, hstep⟩ :=
    State.run_eq_error hrun ⟨eof, List.mem_append_right us List.mem_cons_self, heof⟩
  have hk : k.isEof = true := by
    obtain ⟨fault, rfl⟩ := State.step_eq_error hstep
    simpa [Token.error] using hfound
  obtain rfl := eq_of_append_eof hus hsplit hk
  obtain ⟨rfl, -⟩ := List.cons.inj (List.append_cancel_left hsplit)
  exact ⟨s, State.follow_of_feed hfeed, hstep⟩

/-- A value is due after an operator, and nowhere else. -/
theorem State.fault_eq_expectedValue_iff :
    s.fault = .expectedValue ↔ ∃ p op, s.place = .operator p op := by
  obtain ⟨scopes, operands, place⟩ := s
  cases place with
  | joint =>
    cases scopes with
    | nil => simp [State.fault]
    | cons scope scopes => cases hopening : scope.opening <;> simp [State.fault, hopening, Opening.unclosed]
  | operator p op => simp [State.fault]
  | operand | negated | name | separator | path => simp [State.fault]

/-- A string stands only where a value is due. -/
theorem State.place_of_next?_string {value : String} (h : s.next? t = some s') (ht : t.kind = .string value) :
    ∃ p op, s.place = .operator p op := by
  obtain ⟨scopes, operands, place⟩ := s
  cases place with
  | operator p op => exact ⟨p, op, rfl⟩
  | operand | negated | name | separator | path | joint =>
    simp [State.next?, ht, State.afterPath?, State.afterOperand?] at h

/-! ## Texts that are completed -/

theorem length_le_of_scanTokens (h : scanTokens options position cs = .ok ts) :
    ts.length ≤ Text.width cs + 1 := by
  fun_induction scanTokens options position cs generalizing ts with
  | case1 => cases h; exact Nat.le_refl _
  | case2 position c cs hb ih => exact Nat.le_trans (ih h) (by simp)
  | case3 => cases h
  | case4 position c cs hb l hl ih =>
    obtain ⟨us, hs, rfl⟩ := Outcome.map_eq_ok_iff.mp h
    obtain ⟨kind, w, rest, rfl, rfl⟩ := eq_of_lexeme hl
    have hc := c.utf8Size_pos
    have hle := ih hs
    rw [List.length_cons, Text.width_cons, Text.width_append]
    simp only at hle
    omega

/-- The tokens of a text, apart from the one that marks its end, are read again before other texts. -/
theorem resumes_of_tokenize {text : String} (h : tokenize options text = .ok ts) :
    ∃ us, ts = us ++ [⟨.eof, "", text.utf8ByteSize⟩] ∧ (∀ t ∈ us, t.isEof = false) ∧
      us.length ≤ text.utf8ByteSize ∧ Resumes options 0 text.toList us := by
  have hscan := (tokenize_eq_ok_iff.mp h).2
  rcases scanTokens_scanned options 0 text.toList with
    ⟨us, hscanned, hok⟩ | ⟨_, _, _, _, _, -, -, -, herr⟩
  · rw [hok] at hscan
    cases hscan
    obtain ⟨vs, hvs, hlexemes⟩ := scanTokens_sound hok
    have hlen := length_le_of_scanTokens hok
    obtain rfl : us = vs := (List.append_inj' hvs rfl).1
    rw [Nat.zero_add, Text.width_toList] at *
    refine ⟨us, rfl, ?_, ?_, hscanned.resumes⟩
    · intro t ht
      simpa [Token.isEof] using (hlexemes t ht).not_eof
    · simpa using hlen
  · rw [herr] at hscan
    cases hscan

/-- Some text after it makes a filter of it, under all limits that admit the two and the nesting of the tree. -/
def Completable (options : Options) (text : String) : Prop :=
  ∃ more f, ∀ limits : Options, limits.keywordsCaseSensitive = options.keywordsCaseSensitive →
    (text ++ more).utf8ByteSize ≤ limits.maxLength → f.depth ≤ limits.maxDepth →
      parse limits (text ++ more) = .ok f

/-- Some text after it lets it be cut into tokens, under all limits that admit the two. -/
def Tokenizable (options : Options) (text : String) : Prop :=
  ∃ more ts, ∀ limits : Options, limits.keywordsCaseSensitive = options.keywordsCaseSensitive →
    (text ++ more).utf8ByteSize ≤ limits.maxLength → tokenize limits (text ++ more) = .ok ts

variable {text front : String} {more : List Char}

theorem tokenizable_of_resumes (h : Resumes options 0 (text.toList ++ more) us) : Tokenizable options text := by
  let eof : Token := ⟨.eof, "", 0 + Text.width (text.toList ++ more)⟩
  have hscan := h [] (stops_nil joins)
  rw [List.append_nil, scanTokens_nil] at hscan
  refine ⟨String.ofList more, us ++ [eof], fun limits hcase hlen => tokenize_eq_ok_iff.mpr ⟨hlen, ?_⟩⟩
  rw [scanTokens_congr hcase, String.toList_append, String.toList_ofList]
  exact hscan

/-- A text can be completed where tokens that lead to a state can be read in it, with more text after it. -/
theorem completable_of_follow (h : Resumes options 0 (text.toList ++ more) us)
    (hs : State.follow {} us = some s) : Completable options text := by
  obtain ⟨f, cs, hcs, hends⟩ := State.completable options s
  obtain ⟨ts, hts, hf⟩ := hends (0 + Text.width (text.toList ++ more)) [] (stops_nil joins)
  rw [List.append_nil, scanTokens_nil] at hts
  have hall : (State.follow {} (us ++ ts)).bind State.finished? = some f := by
    rw [State.follow_append, hs]
    exact hf
  obtain ⟨hn, hspells⟩ := follow_finished_iff.mp hall
  refine ⟨String.ofList (more ++ cs), f, fun limits hcase hlen hdepth => ?_⟩
  have hscan : scanTokens options 0 (text ++ String.ofList (more ++ cs)).toList =
      .ok (us ++ ts ++ [⟨.eof, "", 0 + Text.width (text.toList ++ more) + Text.width cs⟩]) := by
    rw [String.toList_append, String.toList_ofList, ← List.append_assoc, h cs hcs, hts, map_append_map_append]
    rfl
  rw [← scanTokens_congr hcase] at hscan
  rw [parse, tokenize_eq_ok_iff.mpr ⟨hlen, hscan⟩]
  refine parseTokens_eq_ok_iff.mpr ⟨terminated_append_eof _ rfl, hn, hdepth, ?_⟩
  rwa [beforeEnd_append_eof hspells.not_eof rfl]

/-- The parser leads from the tokens before a string, in a text that is a filter, to where a value is due. -/
theorem follow_of_parse_string (hr : Resumes limits 0 front.toList us) (hus : ∀ t ∈ us, t.isEof = false)
    (htext : text.toList = front.toList ++ '"' :: rest) (h : parse limits text = .ok f) :
    ∃ s, State.follow {} us = some s ∧ ∃ p op, s.place = .operator p op := by
  obtain ⟨ts, htok, hparse⟩ := Outcome.bind_eq_ok_iff.mp h
  have hscan := (tokenize_eq_ok_iff.mp htok).2
  rw [htext, hr _ (stops_cons (by decide) _)] at hscan
  obtain ⟨vs, hvs, rfl⟩ := Outcome.map_eq_ok_iff.mp hscan
  -- The first of the tokens after those of the front is a string.
  obtain ⟨t, vs, rfl, value, ht⟩ : ∃ t vs', vs = t :: vs' ∧ ∃ value, t.kind = .string value := by
    cases hl : lexeme limits (0 + Text.width front.toList) '"' rest with
    | error e =>
      rw [scanTokens_error (by decide) hl] at hvs
      cases hvs
    | ok l =>
      rw [scanTokens_lexeme hl] at hvs
      obtain ⟨vs', -, rfl⟩ := Outcome.map_eq_ok_iff.mp hvs
      exact ⟨_, vs', rfl, kind_of_lexeme_quote hl⟩
  obtain ⟨-, hn, -, hspells⟩ := parseTokens_eq_ok_iff.mp hparse
  have hall := follow_finished_iff.mpr ⟨hn, hspells⟩
  have hopen : ∀ t ∈ us, (fun t : Token => !t.isEof) t = true := fun t ht => by simp [hus t ht]
  have hstring : t.isEof = false := by simp [Token.isEof, ht]
  rw [beforeEnd, List.takeWhile_append_of_pos hopen, List.takeWhile_cons_of_pos (by simp [hstring]),
    State.follow_append] at hall
  obtain ⟨_, hfollow, -⟩ := Option.bind_eq_some_iff.mp hall
  obtain ⟨s, hs, hfollow⟩ := Option.bind_eq_some_iff.mp hfollow
  obtain ⟨s', hnext, -⟩ := Option.bind_eq_some_iff.mp hfollow
  exact ⟨s, hs, State.place_of_next?_string hnext ht⟩

/-- A text ends where a value is due exactly if that is its error. -/
theorem parse_eq_expectedValue_iff
    (htok : tokenize options front = .ok (us ++ [⟨.eof, "", front.utf8ByteSize⟩]))
    (hus : ∀ t ∈ us, t.isEof = false) (hdepth : us.length ≤ options.maxDepth) :
    parse options front = .error ⟨.expectedValue, front.utf8ByteSize, none⟩ ↔
      ∃ s, State.follow {} us = some s ∧ ∃ p op, s.place = .operator p op := by
  let eof : Token := ⟨.eof, "", front.utf8ByteSize⟩
  have hparse : parse options front = parseTokens options (us ++ [eof]) := by
    rw [parse, htok]
    rfl
  rw [hparse]
  constructor
  · intro h
    obtain ⟨s, hs, hstep⟩ := follow_of_error_at_end hus rfl h rfl
    refine ⟨s, hs, State.fault_eq_expectedValue_iff.mp ?_⟩
    rw [State.step, State.next?_eof rfl] at hstep
    split at hstep
    · cases hstep
    · exact congrArg SyntaxError.fault (Except.error.inj hstep)
  · rintro ⟨s, hs, p, op, hplace⟩
    obtain ⟨hfeed, -⟩ := State.feed_of_follow hs (Nat.le_trans (Nat.le_of_eq (Nat.zero_add _)) hdepth)
    have hrun : parseTokens options (us ++ [eof]) = State.run options.maxDepth {} (us ++ [eof]) := by
      simp [parseTokens, eof, Token.isEof]
    have hfin : s.finished? = none := by simp [State.finished?, hplace]
    have hshallow : s.tooDeep options.maxDepth = false := by simp [State.tooDeep, hplace]
    have hfault : s.fault = .expectedValue := State.fault_eq_expectedValue_iff.mpr ⟨p, op, hplace⟩
    rw [hrun, State.run_of_feed hfeed, State.run, hfin, ite_self, State.step, hshallow, State.next?_eof rfl,
      hfault]
    rfl

/-! ## Errors at the end -/

/-- **A string in a text that is a filter stands where a value is due**: that is the error of the text before
    it, whatever the limits under which the whole was read. -/
theorem value_due_of_parse (htext : text.toList = front.toList ++ '"' :: rest)
    (htok : tokenize options front = .ok ts) (hdepth : front.utf8ByteSize ≤ options.maxDepth)
    (hcase : limits.keywordsCaseSensitive = options.keywordsCaseSensitive) (h : parse limits text = .ok f) :
    parse options front = .error ⟨.expectedValue, front.utf8ByteSize, none⟩ := by
  obtain ⟨us, rfl, hus, hcount, hr⟩ := resumes_of_tokenize htok
  have hsame := scanTokens_congr hcase
  have hlimits : Resumes limits 0 front.toList us := by
    intro rest hrest
    rw [hsame, hsame]
    exact hr rest hrest
  rw [parse_eq_expectedValue_iff htok hus (Nat.le_trans hcount hdepth)]
  exact follow_of_parse_string hlimits hus htext h

/-- Where a text ends in a string, the string can be closed, and a filter comes of it exactly when a value is
    due where it opens. -/
theorem completable_iff_value_due {body : List Char} (htext : text.toList = front.toList ++ '"' :: body)
    (htok : tokenize options front = .ok ts) (hbody : OpenString body)
    (hdepth : front.utf8ByteSize ≤ options.maxDepth) :
    Tokenizable options text ∧
      (Completable options text ↔
        parse options front = .error ⟨.expectedValue, front.utf8ByteSize, none⟩) := by
  obtain ⟨us, hts, hus, hcount, hr⟩ := resumes_of_tokenize htok
  obtain ⟨more, v, hspells⟩ := hbody
  let string : Token :=
    ⟨.string (String.ofList v), String.ofList ('"' :: (body ++ more ++ ['"'])), 0 + Text.width front.toList⟩
  have hclosed : Resumes options 0 (text.toList ++ (more ++ ['"'])) (us ++ [string]) := by
    have hassoc : text.toList ++ (more ++ ['"']) = front.toList ++ '"' :: (body ++ more ++ ['"']) := by
      simp [htext]
    rw [hassoc]
    exact hr.string hspells
  refine ⟨tokenizable_of_resumes hclosed, ?_, ?_⟩
  · rintro ⟨more, f, h⟩
    let limits : Options := ⟨options.keywordsCaseSensitive, (text ++ more).utf8ByteSize, f.depth⟩
    have hcase : limits.keywordsCaseSensitive = options.keywordsCaseSensitive := rfl
    have hparse : parse limits (text ++ more) = .ok f := h limits hcase (Nat.le_refl _) (Nat.le_refl _)
    have hsplit : (text ++ more).toList = front.toList ++ '"' :: (body ++ more.toList) := by simp [htext]
    exact value_due_of_parse hsplit htok hdepth hcase hparse
  · intro herr
    rw [parse_eq_expectedValue_iff (hts ▸ htok) hus (Nat.le_trans hcount hdepth)] at herr
    obtain ⟨s, hs, p, op, hplace⟩ := herr
    let s' : State := s.push (.compare p op (.string (String.ofList v)))
    have hnext : s.next? string = some s' := by
      simp [State.next?, hplace, string, s', TokenKind.literal?]
    have hfollow : State.follow {} (us ++ [string]) = some s' := by
      rw [State.follow_append, hs]
      simp [State.follow, hnext]
    exact completable_of_follow hclosed hfollow

/-- **An error at the end of the text means that it ended too early**, where a wrong escape is only at fault if
    the text ends after its backslash. If the text has tokens, more text makes a filter of it. If it has none,
    it ends inside a string, which more text can close, and more text makes a filter of it exactly when the
    error of what stands before the string is that a value is due. -/
theorem error_at_end_of_input (hlen : text.utf8ByteSize ≤ options.maxLength)
    (hdepth : text.utf8ByteSize ≤ options.maxDepth) (herr : parse options text = .error e)
    (hend : e.atEndOfInput = true)
    (hescape : e.fault = .invalidEscape → e.position + 1 = text.utf8ByteSize) :
    (∃ ts, tokenize options text = .ok ts) ∧ Completable options text ∨
      ∃ front body : String, text = front ++ "\"" ++ body ∧ (∃ ts, tokenize options front = .ok ts) ∧
        OpenString body.toList ∧ Tokenizable options text ∧
        (Completable options text ↔
          parse options front = .error ⟨.expectedValue, front.utf8ByteSize, none⟩) := by
  have hfound : e.found = none := by simpa [SyntaxError.atEndOfInput] using hend
  cases htok : tokenize options text with
  | ok ts =>
    left
    obtain ⟨us, rfl, hus, -, hr⟩ := resumes_of_tokenize htok
    rw [parse, htok] at herr
    obtain ⟨s, hs, -⟩ := follow_of_error_at_end hus rfl herr hfound
    rw [← List.append_nil text.toList] at hr
    exact ⟨⟨_, rfl⟩, completable_of_follow hr hs⟩
  | error e' =>
    right
    rw [parse, htok] at herr
    cases herr
    rw [tokenize, if_neg (Nat.not_lt.mpr hlen)] at htok
    rcases scanTokens_scanned options 0 text.toList with
      ⟨us, -, hok⟩ | ⟨ds, c, rest, us, e', htext, hscanned, hlex, hscan⟩
    · rw [hok] at htok
      cases htok
    rw [hscan] at htok
    cases htok
    -- Of the lexemes that cannot be read only strings are not shown.
    obtain rfl : c = '"' := by
      rcases lexeme_error hlex with ⟨found, hshown, -⟩ | ⟨-, hquote, -⟩
      · rw [hfound] at hshown
        cases hshown
      · exact hquote
    have hsize : text.utf8ByteSize = Text.width ds + Text.width ['"'] + Text.width rest := by
      rw [← Text.width_toList, htext, Text.add_width_add, Text.width_append]
      rfl
    have hbody : OpenString rest := by
      refine openString_of_error (scanString_of_lexeme_error hlex) fun h => ?_
      rw [hescape h, hsize, Nat.zero_add]
    have hfront : (String.ofList ds).utf8ByteSize = Text.width ds := by
      rw [← Text.width_toList, String.toList_ofList]
    have hparts : text = String.ofList ds ++ "\"" ++ String.ofList rest := by
      apply String.toList_inj.mp
      simp [htext]
    have hfit : (String.ofList ds).utf8ByteSize ≤ text.utf8ByteSize := by
      rw [hfront, hsize, Nat.add_assoc]
      exact Nat.le_add_right _ _
    have htokens : tokenize options (String.ofList ds) = .ok (us ++ [⟨.eof, "", 0 + Text.width ds⟩]) := by
      have hends := hscanned.resumes [] (stops_nil joins)
      rw [List.append_nil, scanTokens_nil] at hends
      refine tokenize_eq_ok_iff.mpr ⟨Nat.le_trans hfit hlen, ?_⟩
      rw [String.toList_ofList]
      exact hends
    have hsplit : text.toList = (String.ofList ds).toList ++ '"' :: rest := by
      rw [String.toList_ofList, htext]
    obtain ⟨hclose, hiff⟩ := completable_iff_value_due hsplit htokens hbody (Nat.le_trans hfit hdepth)
    refine ⟨String.ofList ds, String.ofList rest, hparts, ⟨_, htokens⟩, ?_, hclose, hiff⟩
    rwa [String.toList_ofList]

/-- A string that ends after a backslash. -/
theorem error_at_end_of_input_escape :
    let text := "a eq \"x\\"
    let e : SyntaxError := ⟨.invalidEscape, 7, none⟩
    text.utf8ByteSize ≤ Options.maxLength {} ∧ text.utf8ByteSize ≤ Options.maxDepth {} ∧
      parse {} text = .error e ∧ e.atEndOfInput = true ∧ e.position + 1 = text.utf8ByteSize ∧
      ((∃ ts, tokenize {} text = .ok ts) ∧ Completable {} text ∨
        ∃ front body : String, text = front ++ "\"" ++ body ∧ (∃ ts, tokenize {} front = .ok ts) ∧
          OpenString body.toList ∧ Tokenizable {} text ∧
          (Completable {} text ↔ parse {} front = .error ⟨.expectedValue, front.utf8ByteSize, none⟩)) := by
  intro text e
  have herr : parse {} text = .error e := by cbv
  have hsize : e.position + 1 = text.utf8ByteSize := by decide +kernel
  have hlen : text.utf8ByteSize ≤ Options.maxLength {} := by decide +kernel
  have hdepth : text.utf8ByteSize ≤ Options.maxDepth {} := by decide +kernel
  exact ⟨hlen, hdepth, herr, rfl, hsize, error_at_end_of_input hlen hdepth herr rfl fun _ => hsize⟩

/-- A string where an operator is due: nothing is found at the end, and no text after it makes a filter of
    it. -/
theorem error_at_end_of_input_no_value :
    let text := "userName \"x"
    let e : SyntaxError := ⟨.unterminatedString, 9, none⟩
    text.utf8ByteSize ≤ Options.maxLength {} ∧ text.utf8ByteSize ≤ Options.maxDepth {} ∧
      parse {} text = .error e ∧ e.atEndOfInput = true ∧
      ∀ limits more f, limits.keywordsCaseSensitive = false → parse limits (text ++ more) ≠ .ok f := by
  intro text e
  have herr : parse {} text = .error e := by cbv
  refine ⟨by decide +kernel, by decide +kernel, herr, rfl, ?_⟩
  intro limits more f hcase h
  have htok : tokenize {} "userName " = .ok [⟨.name, "userName", 0⟩, ⟨.eof, "", 9⟩] := by cbv
  have hfront : parse {} "userName " = .error ⟨.expectedOperator, 9, none⟩ := by cbv
  have htext : (text ++ more).toList = "userName ".toList ++ '"' :: 'x' :: more.toList := by
    have hparts : text.toList = "userName ".toList ++ ['"', 'x'] := by decide +kernel
    rw [String.toList_append, hparts, List.append_assoc]
    rfl
  have hdue := value_due_of_parse htext htok (by decide +kernel) hcase h
  rw [hfront] at hdue
  cases hdue

end ScimLdap.Filter
