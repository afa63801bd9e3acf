import ScimLdap.Proofs.Prefixes
import ScimLdap.Proofs.Tiling

/-!
# Locations — a syntax error points into the text

An error carries a position in bytes and, if there is something to show, the characters that stand there. Both
were worked out on the way, by readers that see no more than what is left of the text. Here they are held
against the whole of it (`parse_error_located`): the position falls between two characters, and what was found
is what the text has there. Where nothing was found the text is at its end, or a string could not be read, or
the text was too long to be looked at.

Every error of the lexer is one of a lexeme that begins where the record of the scan ends (`scanTokens_cases`),
and every error of the parser is one at a token that the lexer made.
-/

namespace ScimLdap.Filter

open Decimal (Numeral)

variable {options : Options} {start position : Nat} {c : Char} {cs : List Char} {e : SyntaxError}

/-! ## Where a lexeme fails -/

/-- A string that cannot be read is reported at its start, or at a backslash up to which it can be read. -/
theorem scanString_error (h : scanString start position cs = .error e) :
    e.found = none ∧ (e.position = start ∨
      ∃ ds v rest, cs = ds ++ '\\' :: rest ∧ SpellsString ds v ∧ e.position = position + Text.width ds) := by
  rcases scanString_eq_error h with ⟨rfl, -⟩ | ⟨ds, v, rest, hcs, hspells, rfl⟩
  · exact ⟨rfl, .inl rfl⟩
  · exact ⟨rfl, .inr ⟨ds, v, rest, hcs, hspells, rfl⟩⟩

/-- A lexeme that cannot be read is shown as far as it goes. A string is not shown. -/
theorem lexeme_error (h : lexeme options position c cs = .error e) :
    (∃ found, e.found = some found ∧ found ≠ "" ∧ found.toList <+: c :: cs ∧ e.position = position) ∨
    (e.found = none ∧ c = '"' ∧ (e.position = position ∨
      ∃ ds v rest, cs = ds ++ '\\' :: rest ∧ SpellsString ds v ∧
        e.position = position + Text.width ('"' :: ds))) := by
  unfold lexeme at h
  split at h
  · cases h
  split at h
  · next hq =>
    obtain ⟨hfound, hplace⟩ := scanString_error (Outcome.map_eq_error_iff.mp h)
    refine .inr ⟨hfound, hq, hplace.imp_right ?_⟩
    rintro ⟨ds, v, rest, hcs, hspells, hpos⟩
    refine ⟨ds, v, rest, hcs, hspells, ?_⟩
    rw [hpos, Text.add_width_singleton_add]
  split at h
  · next hn =>
    -- Both faults of a number show the whole of it.
    have hwhole := startsNumeral_iff.mp hn
    have hfront : (Numeral.scan (c :: cs)).1.chars <+: c :: cs := ⟨_, Numeral.chars_scan (c :: cs)⟩
    have hne : String.ofList (Numeral.scan (c :: cs)).1.chars ≠ "" := by
      simp [Numeral.chars, hwhole]
    left
    simp only [numberLexeme] at h
    split at h
    · cases h
      exact ⟨_, rfl, hne, by rwa [String.toList_ofList], rfl⟩
    split at h
    · cases h
    · cases h
      exact ⟨_, rfl, hne, by rwa [String.toList_ofList], rfl⟩
  split at h
  · cases h
  · cases h
    left
    refine ⟨_, rfl, by simp, ?_, rfl⟩
    rw [String.toList_singleton]
    exact ⟨cs, rfl⟩

/-! ## Places in a text -/

/-- A string begins between the two parts of a text: what is before it was passed over, and a quote is next. -/
def OpensString (options : Options) (before after : List Char) : Prop :=
  (∃ us, Passed options after 0 before us) ∧ after.head? = some '"'

/-- A string is open between the two parts of a text, its characters so far are in order, and a backslash is
    next. -/
def EscapesInString (options : Options) (before after : List Char) : Prop :=
  ∃ front ds v, before = front ++ '"' :: ds ∧ OpensString options front ('"' :: (ds ++ after)) ∧
    SpellsString ds v ∧ after.head? = some '\\'

/-- The error points between the two parts of the text. What it found there begins the second of them; if it
    found nothing, there is one of four reasons. -/
structure PointsBetween (options : Options) (text : String) (e : SyntaxError) (before after : List Char) :
    Prop where
  parts : text.toList = before ++ after
  position : e.position = Text.width before
  found : ∀ found, e.found = some found → found ≠ "" ∧ found.toList <+: after
  nothing : e.found = none → after = [] ∨ OpensString options before after ∨
    EscapesInString options before after ∨ before = [] ∧ options.maxLength < text.utf8ByteSize

variable {text : String} {us tokens : List Token}

/-- A position between two parts of a text is one of its character boundaries. -/
theorem PointsBetween.isValid {before after : List Char} (h : PointsBetween options text e before after) :
    String.Pos.Raw.IsValid text ⟨e.position⟩ := by
  apply String.Pos.Raw.isValid_iff_exists_append.mpr
  refine ⟨String.ofList before, String.ofList after, ?_, ?_⟩
  · apply String.toList_inj.mp
    simp [h.parts]
  · have hwidth : e.position = (String.ofList before).utf8ByteSize := by
      rw [h.position, ← Text.width_toList, String.toList_ofList]
    rw [hwidth]
    rfl

theorem PointsBetween.of_found {before after : List Char} {found : String}
    (hparts : text.toList = before ++ after) (hpos : e.position = Text.width before)
    (hfound : e.found = some found) (hne : found ≠ "") (hfront : found.toList <+: after) :
    PointsBetween options text e before after := by
  refine ⟨hparts, hpos, ?_, ?_⟩
  · intro f hf
    rw [hfound] at hf
    cases hf
    exact ⟨hne, hfront⟩
  · intro hnone
    rw [hfound] at hnone
    cases hnone

theorem PointsBetween.of_nothing {before after : List Char} (hparts : text.toList = before ++ after)
    (hpos : e.position = Text.width before) (hnone : e.found = none)
    (hreason : after = [] ∨ OpensString options before after ∨ EscapesInString options before after ∨
      before = [] ∧ options.maxLength < text.utf8ByteSize) :
    PointsBetween options text e before after := by
  refine ⟨hparts, hpos, ?_, fun _ => hreason⟩
  intro f hf
  rw [hnone] at hf
  cases hf

theorem pointsBetween_of_tokenize (h : tokenize options text = .error e) :
    ∃ before after, PointsBetween options text e before after := by
  unfold tokenize at h
  split at h
  · next hlong =>
    cases h
    exact ⟨[], text.toList, .of_nothing rfl rfl rfl (.inr (.inr (.inr ⟨rfl, hlong⟩)))⟩
  rcases scanTokens_cases options 0 text.toList with
    ⟨us, -, hok⟩ | ⟨ds, c, rest, us, e', htext, hpassed, hlex, herr⟩
  · rw [hok] at h
    cases h
  rw [herr] at h
  cases h
  rw [Nat.zero_add] at hlex
  rcases lexeme_error hlex with
    ⟨found, hfound, hne, hfront, hpos⟩ | ⟨hfound, rfl, hpos | ⟨cs, v, after, rfl, hspells, hpos⟩⟩
  · exact ⟨ds, c :: rest, .of_found htext hpos hfound hne hfront⟩
  · have hopens : OpensString options ds ('"' :: rest) := ⟨⟨us, hpassed⟩, rfl⟩
    exact ⟨ds, '"' :: rest, .of_nothing htext hpos hfound (.inr (.inl hopens))⟩
  · have hopens : OpensString options ds ('"' :: (cs ++ '\\' :: after)) := ⟨⟨us, hpassed⟩, rfl⟩
    refine ⟨ds ++ '"' :: cs, '\\' :: after, .of_nothing ?_ ?_ hfound (.inr (.inr (.inl ?_)))⟩
    · simpa using htext
    · rw [hpos, Text.width_append]
    · exact ⟨ds, cs, v, rfl, hopens, hspells, rfl⟩

/-! ## Errors of the parser -/

theorem State.step_eq_error {maxDepth : Nat} {s : State} {t : Token} (h : s.step maxDepth t = .error e) :
    ∃ fault, e = t.error fault := by
  unfold step at h
  split at h
  · cases h
    exact ⟨_, rfl⟩
  split at h
  · cases h
  · cases h
    exact ⟨_, rfl⟩

/-- Where the end is marked, tokens are refused at one of them. -/
theorem parseTokens_eq_error {eof : Token} (heof : eof.isEof = true)
    (h : parseTokens options (us ++ [eof]) = .error e) :
    ∃ k ∈ us ++ [eof], ∃ fault, e = k.error fault := by
  have hrun : State.run options.maxDepth {} (us ++ [eof]) = .error e := by
    simpa [parseTokens, heof] using h
  have hend : ∃ t ∈ us ++ [eof], t.isEof = true := ⟨eof, List.mem_append_right us List.mem_cons_self, heof⟩
  obtain ⟨before, k, after, s, hsplit, -, -, hstep⟩ := State.run_eq_error hrun hend
  refine ⟨k, ?_, State.step_eq_error hstep⟩
  rw [hsplit]
  exact List.mem_append_right before List.mem_cons_self

theorem pointsBetween_of_parseTokens (htok : tokenize options text = .ok tokens)
    (h : parseTokens options tokens = .error e) :
    ∃ before after, PointsBetween options text e before after := by
  have hscan := (tokenize_eq_ok_iff.mp htok).2
  rcases scanTokens_cases options 0 text.toList with ⟨us, hpassed, hok⟩ | ⟨_, _, _, _, _, -, -, -, herr⟩
  · rw [hok] at hscan
    cases hscan
    obtain ⟨k, hk, fault, rfl⟩ := parseTokens_eq_error rfl h
    rcases List.mem_append.mp hk with hk | hk
    · obtain ⟨front, back, htext, hpos, hlex⟩ := hpassed.mem hk
      have hopen : k.isEof = false := by simpa [Token.isEof] using hlex.not_eof
      have hfound : (k.error fault).found = some k.text := by simp [Token.error, hopen]
      have hne : k.text ≠ "" := by simpa using hlex.ne_nil
      refine ⟨front, k.text.toList ++ back, .of_found ?_ ?_ hfound hne (List.prefix_append _ _)⟩
      · rw [htext, List.append_assoc]
      · rw [← Nat.zero_add (Text.width front), ← hpos]
        rfl
    · cases List.mem_singleton.mp hk
      have hend : text.toList = text.toList ++ [] := (List.append_nil _).symm
      exact ⟨text.toList, [], .of_nothing hend (Nat.zero_add _) rfl (.inl rfl)⟩
  · rw [herr] at hscan
    cases hscan

/-- **Every syntax error is located in the text.** Its position is a character boundary, and it points between
    what stands before it and what comes next. -/
theorem parse_error_located (h : parse options text = .error e) :
    e.position ≤ text.utf8ByteSize ∧ String.Pos.Raw.IsValid text ⟨e.position⟩ ∧
      ∃ before after, PointsBetween options text e before after := by
  have hpoints : ∃ before after, PointsBetween options text e before after := by
    unfold parse at h
    cases htok : tokenize options text with
    | error e' =>
      rw [htok] at h
      cases h
      exact pointsBetween_of_tokenize htok
    | ok tokens =>
      rw [htok] at h
      exact pointsBetween_of_parseTokens htok h
  obtain ⟨before, after, hbetween⟩ := hpoints
  exact ⟨hbetween.isValid.le_utf8ByteSize, hbetween.isValid, before, after, hbetween⟩

/-- A wrong escape in a string after a wide blank and a wide character: nothing is shown, and the position is
    that of the backslash. -/
theorem parse_error_located_escape :
    let text := "x pr and\u3000y eq \"ü\\q\""
    let e : SyntaxError := ⟨.invalidEscape, 19, none⟩
    parse {} text = .error e ∧ e.position ≤ text.utf8ByteSize ∧
      String.Pos.Raw.IsValid text ⟨e.position⟩ ∧ ∃ before after, PointsBetween {} text e before after := by
  intro text e
  have herr : parse {} text = .error e := by cbv
  exact ⟨herr, parse_error_located herr⟩

end ScimLdap.Filter
