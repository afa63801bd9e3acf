import ScimLdap.Proofs.Respelling

/-!
# Tiling — every character of a text is in a token or in a gap

Scanning passes over the front of a text, a blank or a lexeme at a time, until the text ends or no lexeme
begins. `Passed` is the record of that, with the positions at which the tokens stand; it knows the text that
comes after, because a word has to end where the text lets it end. `scanTokens_cases` says that scanning does
this and nothing else. What a success leaves behind is then read off the record: tokens and gaps that lie side
by side and are the text (`tokenize_tiles`). Where scanning fails, the record is of the text before the fault.
-/

namespace ScimLdap.Filter

open Text (Stops)

/-! ## What a token may be written as, by its kind -/

/-- The form of a token of a kind: a sign, a string that decodes to the value, the number itself, or a word that
    is a name or a keyword of the kind. -/
def TokenKind.HasForm (options : Options) (w : List Char) : TokenKind → Prop
  | .openParen => w = ['(']
  | .closeParen => w = [')']
  | .colon => w = [':']
  | .dot => w = ['.']
  | .string value => ∃ cs, w = '"' :: (cs ++ ['"']) ∧ SpellsString cs value.toList
  | .number lexeme => w = lexeme.toList ∧ IsNumber lexeme
  | .eof => False
  | .name => IsName options.keywordsCaseSensitive (String.ofList w)
  | kind => IsWord w ∧ (if options.keywordsCaseSensitive then String.ofList w
      else Text.foldCase (String.ofList w), kind) ∈ keywordKinds

variable {options : Options} {position : Nat} {c : Char} {cs w rest : List Char} {kind : TokenKind}
  {us : List Token} {t : Token}

theorem IsLexeme.hasForm (h : IsLexeme options kind w) : kind.HasForm options w := by
  cases h with
  | punctuation hk =>
    unfold punctuation? at hk
    split at hk <;> cases hk <;> rfl
  | string hs =>
    refine ⟨_, rfl, ?_⟩
    rwa [String.toList_ofList]
  | number hn => exact ⟨rfl, hn⟩
  | word hw =>
    unfold TokenKind.ofWord
    rcases ofKeyword_cases (if options.keywordsCaseSensitive then String.ofList w
      else Text.foldCase (String.ofList w)) with hkey | ⟨hkey, hname⟩
    · generalize TokenKind.ofKeyword _ = kind at hkey ⊢
      cases kind with
      | name | colon | dot | openParen | closeParen | string | number | eof => simp [keywordKinds] at hkey
      | compareOp | present | and | or | not | bool | null => exact ⟨hw, hkey⟩
    · rw [hname]
      refine ⟨?_, hkey⟩
      rwa [String.toList_ofList]

/-! ## The record of a scan -/

/-- The characters, from a position on and with `rest` after them, are blanks and the tokens. No word goes on
    after its token. -/
inductive Passed (options : Options) (rest : List Char) : Nat → List Char → List Token → Prop
  | nil {position : Nat} : Passed options rest position [] []
  | blank {position : Nat} {c : Char} {cs : List Char} {us : List Token} (hc : Text.isBlank c = true)
      (h : Passed options rest (position + Text.width [c]) cs us) : Passed options rest position (c :: cs) us
  | token {position : Nat} {kind : TokenKind} {w cs : List Char} {us : List Token}
      (hw : IsLexeme options kind w) (hstop : kind.isWord = true → Stops isWordChar (cs ++ rest))
      (h : Passed options rest (position + Text.width w) cs us) :
      Passed options rest position (w ++ cs) (⟨kind, String.ofList w, position⟩ :: us)

theorem stops_of_lexeme {l : Lexeme} (h : lexeme options position c cs = .ok l)
    (hword : l.kind.isWord = true) : Stops isWordChar l.rest := by
  -- Of the four sorts of lexeme only the last one is a word.
  unfold lexeme at h
  split at h
  · next kind hk =>
    cases h
    unfold punctuation? at hk
    split at hk <;> cases hk <;> cases hword
  split at h
  · obtain ⟨q, -, rfl⟩ := Outcome.map_eq_ok_iff.mp h
    cases hword
  split at h
  · simp only [numberLexeme] at h
    split at h
    · cases h
    split at h
    · cases h
      cases hword
    · cases h
  split at h
  · cases h
    exact Text.stops_dropWhile isWordChar cs
  · cases h

theorem Scanned.passed (h : Scanned options rest position cs us) : Passed options rest position cs us := by
  induction h with
  | nil => exact .nil
  | blank hb _ ih => exact .blank hb ih
  | token hl _ ih => exact .token (lexeme_sound hl) (stops_of_lexeme hl) ih

/-- **Scanning passes over blanks and lexemes** and does nothing else. It succeeds at the end of the text, and
    it fails where no lexeme begins. -/
theorem scanTokens_cases (options : Options) (position : Nat) (cs : List Char) :
    (∃ us, Passed options [] position cs us ∧
      scanTokens options position cs = .ok (us ++ [⟨.eof, "", position + Text.width cs⟩])) ∨
    (∃ ds c rest us e, cs = ds ++ c :: rest ∧ Passed options (c :: rest) position ds us ∧
      lexeme options (position + Text.width ds) c rest = .error e ∧
      scanTokens options position cs = .error e) := by
  rcases scanTokens_scanned options position cs with
    ⟨us, hscanned, hok⟩ | ⟨ds, c, rest, us, e, hcs, hscanned, hlex, herr⟩
  · exact .inl ⟨us, hscanned.passed, hok⟩
  · exact .inr ⟨ds, c, rest, us, e, hcs, hscanned.passed, hlex, herr⟩

/-- A token that was passed over stands in the text, at its position. -/
theorem Passed.mem (h : Passed options rest position cs us) (ht : t ∈ us) :
    ∃ front back, cs = front ++ t.text.toList ++ back ∧ t.position = position + Text.width front ∧
      IsLexeme options t.kind t.text.toList := by
  induction h with
  | nil => cases ht
  | @blank position c cs us hc h ih =>
    obtain ⟨front, back, rfl, hpos, hlex⟩ := ih ht
    refine ⟨c :: front, back, rfl, ?_, hlex⟩
    rw [hpos, Text.add_width_singleton_add]
  | @token position kind w cs us hw hstop h ih =>
    rcases List.mem_cons.mp ht with rfl | ht
    · refine ⟨[], cs, ?_, rfl, ?_⟩
      · simp
      · rwa [String.toList_ofList]
    · obtain ⟨front, back, rfl, hpos, hlex⟩ := ih ht
      refine ⟨w ++ front, back, ?_, ?_, hlex⟩
      · simp
      · rw [hpos, Text.add_width_add]

/-! ## Tokens and gaps side by side -/

/-- A token and the blanks in front of it. -/
structure Tile where
  gap : List Char
  token : Token

/-- The characters of tiles laid side by side. -/
def laid (tiles : List Tile) : List Char :=
  tiles.flatMap fun p => p.gap ++ p.token.text.toList

/-- What a tile is that stands at a position and before a text. -/
structure Tile.Fits (options : Options) (position : Nat) (after : List Char) (p : Tile) : Prop where
  gap : IsGap p.gap
  position : p.token.position = position + Text.width p.gap
  form : p.token.kind.HasForm options p.token.text.toList
  nonempty : p.token.text ≠ ""
  not_eof : p.token.kind ≠ .eof
  ends : p.token.kind.isWord = true → ∀ c ∈ after.head?, ¬WordChar c

/-- Every tile fits where those before it leave off. -/
def AllFit (options : Options) (position : Nat) (tail : List Char) (tiles : List Tile) : Prop :=
  ∀ before p after, tiles = before ++ p :: after →
    p.Fits options (position + Text.width (laid before)) (laid after ++ tail)

theorem laid_cons (p : Tile) (tiles : List Tile) :
    laid (p :: tiles) = p.gap ++ p.token.text.toList ++ laid tiles :=
  List.flatMap_cons

theorem isGap_nil : IsGap [] :=
  fun _ hc => absurd hc List.not_mem_nil

theorem allFit_nil (options : Options) (position : Nat) (tail : List Char) :
    AllFit options position tail [] := by
  intro before p after hsplit
  cases before <;> cases hsplit

theorem allFit_cons_iff {p : Tile} {tiles : List Tile} {tail : List Char} :
    AllFit options position tail (p :: tiles) ↔
      p.Fits options position (laid tiles ++ tail) ∧
        AllFit options (position + Text.width (p.gap ++ p.token.text.toList)) tail tiles := by
  have hat : ∀ before, position + Text.width (p.gap ++ p.token.text.toList) + Text.width (laid before)
      = position + Text.width (laid (p :: before)) := by
    intro before
    rw [laid_cons, Text.add_width_add]
  constructor
  · intro h
    refine ⟨h [] p tiles rfl, fun before q after hsplit => ?_⟩
    rw [hat]
    exact h (p :: before) q after (congrArg (p :: ·) hsplit)
  · rintro ⟨hp, htiles⟩ before q after hsplit
    cases before with
    | nil =>
      cases hsplit
      exact hp
    | cons b before =>
      cases hsplit
      rw [← hat]
      exact htiles before q after rfl

/-- The record of a scan, as tiles and a gap at the end. -/
theorem Passed.tiles (h : Passed options rest position cs us) :
    ∃ tiles final, us = tiles.map Tile.token ∧ cs = laid tiles ++ final ∧ IsGap final ∧
      AllFit options position (final ++ rest) tiles := by
  induction h with
  | nil => exact ⟨[], [], rfl, rfl, isGap_nil, allFit_nil _ _ _⟩
  | @blank position c cs us hc h ih =>
    obtain ⟨tiles, final, rfl, rfl, hfinal, hfits⟩ := ih
    cases tiles with
    | nil => exact ⟨[], c :: final, rfl, rfl, List.forall_mem_cons.mpr ⟨hc, hfinal⟩, allFit_nil _ _ _⟩
    | cons p tiles =>
      -- The blank joins the gap of the first tile, and the others stand where they stood.
      obtain ⟨hp, htiles⟩ := allFit_cons_iff.mp hfits
      refine ⟨⟨c :: p.gap, p.token⟩ :: tiles, final, rfl, rfl, hfinal, allFit_cons_iff.mpr ⟨?_, ?_⟩⟩
      · exact { hp with
          gap := List.forall_mem_cons.mpr ⟨hc, hp.gap⟩
          position := by rw [hp.position, Text.add_width_singleton_add] }
      · rwa [Text.add_width_singleton_add] at htiles
  | @token position kind w cs us hw hstop h ih =>
    obtain ⟨tiles, final, rfl, rfl, hfinal, hfits⟩ := ih
    have htext : (String.ofList w).toList = w := String.toList_ofList
    refine ⟨⟨[], ⟨kind, String.ofList w, position⟩⟩ :: tiles, final, rfl, ?_, hfinal,
      allFit_cons_iff.mpr ⟨?_, ?_⟩⟩
    · rw [laid_cons, htext, List.append_assoc]
      rfl
    · exact {
        gap := isGap_nil
        position := rfl
        form := by rw [htext]; exact hw.hasForm
        nonempty := by simpa using hw.ne_nil
        not_eof := hw.not_eof
        ends := by
          intro hword c hc
          rw [← List.append_assoc] at hc
          exact isWordChar_eq_false_iff.mp (hstop hword c hc) }
    · rwa [htext]

/-- **Nothing of a text is lost when it is tokenized.** The tokens are those of tiles, in their order, and one
    more that marks the end and stands after the last byte. The tiles and a last gap are the text, each token
    stands at the byte where its tile has it, has the form of its kind, and a word ends where the text has no
    more characters of it. -/
theorem tokenize_tiles {text : String} {tokens : List Token} (h : tokenize options text = .ok tokens) :
    ∃ tiles final, tokens = tiles.map Tile.token ++ [⟨.eof, "", text.utf8ByteSize⟩] ∧
      text.toList = laid tiles ++ final ∧ IsGap final ∧
      AllFit options 0 final tiles := by
  have hscan := (tokenize_eq_ok_iff.mp h).2
  rcases scanTokens_cases options 0 text.toList with ⟨us, hpassed, hok⟩ | ⟨_, _, _, _, e, -, -, -, herr⟩
  · rw [hok] at hscan
    obtain ⟨tiles, final, rfl, htext, hfinal, hfits⟩ := hpassed.tiles
    refine ⟨tiles, final, ?_, htext, hfinal, ?_⟩
    · rw [← Except.ok.inj hscan, Nat.zero_add, Text.width_toList]
    · rwa [List.append_nil] at hfits
  · rw [herr] at hscan
    cases hscan

/-- A wide blank, a name that ends where a keyword could begin, and a string of two characters that is written
    with three, one of them two bytes wide. -/
theorem tokenize_tiles_wide :
    let text := "\u3000e.eqs EQ\"é\\n\" "
    let tokens : List Token := [⟨.name, "e", 3⟩, ⟨.dot, ".", 4⟩, ⟨.name, "eqs", 5⟩, ⟨.compareOp .eq, "EQ", 9⟩,
      ⟨.string "é\n", "\"é\\n\"", 11⟩, ⟨.eof, "", 18⟩]
    tokenize {} text = .ok tokens ∧
      ∃ tiles final, tokens = tiles.map Tile.token ++ [⟨.eof, "", text.utf8ByteSize⟩] ∧
        text.toList = laid tiles ++ final ∧ IsGap final ∧ AllFit {} 0 final tiles := by
  intro text tokens
  have htok : tokenize {} text = .ok tokens := by cbv
  exact ⟨htok, tokenize_tiles htok⟩

end ScimLdap.Filter
