import Mathlib
import ScimLdap.Proofs.Scanning

/-!
# Literals — a string literal in all its spellings

Between quotes a character stands for itself, or behind a backslash if there is an escape for it; a quote and a
backslash have to take the second way. `WrittenAs` says that character by character, over the table of escapes
to which the reader's is held (`unescape?_eq_some_iff`).

What comes after an opening quote begins with characters that are so written, and these end in one of three
ways: at a quote, at a backslash that begins no escape, or with the text (`afterQuote_cases`).
`tokenize_literal` says what the tokenizer makes of each, at any point of a text to which it comes.
-/

namespace ScimLdap.Filter

open Text (Stops stops_nil stops_cons)

variable {options : Options} {start position : Nat} {c e : Char} {cs s v w rest front : List Char}
  {us : List Token}

/-! ## Spellings -/

/-- The ways to write a character between quotes. -/
inductive Written : Char → List Char → Prop
  | plain {c : Char} (hq : c ≠ '"') (hb : c ≠ '\\') : Written c [c]
  | escaped {e c : Char} (h : (e, c) ∈ escapes) : Written c ['\\', e]

/-- A text as it may be written between quotes: each of its characters in one of the ways to write it. -/
def WrittenAs (s w : List Char) : Prop :=
  ∃ parts, List.Forall₂ Written s parts ∧ w = parts.flatten

/-- What comes after a backslash makes an escape with it. -/
def BeginsEscape (rest : List Char) : Prop :=
  ∃ e ∈ rest.head?, ∃ c, (e, c) ∈ escapes

theorem beginsEscape_cons_iff : BeginsEscape (e :: rest) ↔ ∃ c, (e, c) ∈ escapes := by
  simp [BeginsEscape]

/-- The spellings are those that the reader knows. -/
theorem writtenAs_iff : WrittenAs s w ↔ SpellsString w s := by
  constructor
  · rintro ⟨parts, hparts, rfl⟩
    induction hparts with
    | nil => exact .nil
    | cons hc _ ih =>
      cases hc with
      | plain hq hb => exact .plain hq hb ih
      | escaped he => exact .escape he ih
  · intro h
    induction h with
    | nil => exact ⟨[], .nil, rfl⟩
    | @plain c w s hq hb _ ih =>
      obtain ⟨parts, hparts, rfl⟩ := ih
      exact ⟨[c] :: parts, .cons (.plain hq hb) hparts, rfl⟩
    | @escape e c w s he _ ih =>
      obtain ⟨parts, hparts, rfl⟩ := ih
      exact ⟨['\\', e] :: parts, .cons (.escaped he) hparts, rfl⟩

/-! ## What comes after an opening quote -/

/-- **After an opening quote** come spelled characters. They end at a quote, at a backslash that begins no
    escape, or with the text. -/
theorem afterQuote_cases (cs : List Char) :
    (∃ v w rest, SpellsString w v ∧ cs = w ++ '"' :: rest) ∨
    (∃ v w rest, SpellsString w v ∧ cs = w ++ '\\' :: rest ∧ ¬BeginsEscape rest) ∨
    ∃ v, SpellsString cs v := by
  -- On the recursion of the reader, which takes one spelled character at a time.
  fun_induction scanString 0 0 cs with
  | case1 => exact .inr (.inr ⟨[], .nil⟩)
  | case2 position cs => exact .inl ⟨[], [], cs, .nil, rfl⟩
  | case3 => exact .inr (.inl ⟨[], [], [], .nil, rfl, by simp [BeginsEscape]⟩)
  | case4 position e cs he =>
    have hnone : ¬BeginsEscape (e :: cs) := by simp [beginsEscape_cons_iff, ← unescape?_eq_some_iff, he]
    exact .inr (.inl ⟨[], [], e :: cs, .nil, rfl, hnone⟩)
  | case5 position e cs c he ih =>
    have hescape := unescape?_eq_some_iff.mp he
    rcases ih with ⟨v, w, rest, hw, rfl⟩ | ⟨v, w, rest, hw, rfl, hrest⟩ | ⟨v, hcs⟩
    · exact .inl ⟨c :: v, '\\' :: e :: w, rest, .escape hescape hw, rfl⟩
    · exact .inr (.inl ⟨c :: v, '\\' :: e :: w, rest, .escape hescape hw, rfl, hrest⟩)
    · exact .inr (.inr ⟨c :: v, .escape hescape hcs⟩)
  | case6 position c cs hq hlast hescape ih =>
    have hb := ne_backslash_of_plain hlast hescape
    rcases ih with ⟨v, w, rest, hw, rfl⟩ | ⟨v, w, rest, hw, rfl, hrest⟩ | ⟨v, hcs⟩
    · exact .inl ⟨c :: v, c :: w, rest, .plain hq hb hw, rfl⟩
    · exact .inr (.inl ⟨c :: v, c :: w, rest, .plain hq hb hw, rfl, hrest⟩)
    · exact .inr (.inr ⟨c :: v, .plain hq hb hcs⟩)

/-- The reader stops at the first backslash that begins no escape. -/
theorem scanString_badEscape (h : SpellsString w v) (hrest : ¬BeginsEscape rest) :
    scanString start position (w ++ '\\' :: rest)
      = .error ⟨.invalidEscape, position + Text.width w, none⟩ := by
  induction h generalizing position with
  | nil =>
    cases rest with
    | nil => rfl
    | cons e rest =>
      have hnone : unescape? e = none := by
        rw [Option.eq_none_iff_forall_ne_some]
        intro c he
        exact hrest (beginsEscape_cons_iff.mpr ⟨c, unescape?_eq_some_iff.mp he⟩)
      rw [List.nil_append, scanString, hnone]
      rfl
  | plain hq hb _ ih =>
    rw [List.cons_append, scanString_plain hq hb, ih, Text.add_width_singleton_add]
    rfl
  | escape he _ ih =>
    rw [List.cons_append, List.cons_append, scanString, unescape?_eq_some_iff.mpr he]
    simp only
    rw [ih, Text.add_width_add]
    rfl

/-- Without a quote that closes the reader runs into the end of the text. -/
theorem scanString_unclosed (h : SpellsString cs v) :
    scanString start position cs = .error ⟨.unterminatedString, start, none⟩ := by
  induction h generalizing position with
  | nil => rfl
  | plain hq hb _ ih =>
    rw [scanString_plain hq hb, ih]
    rfl
  | escape he _ ih =>
    rw [scanString, unescape?_eq_some_iff.mpr he]
    simp only
    rw [ih]
    rfl

/-- Characters that are spelled to the end of the text hold no quote that closes, and no backslash that begins
    no escape. -/
theorem SpellsString.neither_before_end (h : SpellsString cs v) (hw : SpellsString w s) :
    cs ≠ w ++ '"' :: rest ∧ (cs = w ++ '\\' :: rest → BeginsEscape rest) := by
  have hend : scanString 0 0 cs = _ := scanString_unclosed h
  constructor
  · rintro rfl
    rw [scanString_complete hw] at hend
    cases hend
  · rintro rfl
    by_contra hrest
    rw [scanString_badEscape hw hrest] at hend
    cases hend

/-! ## Literals in a text -/

/-- On the text of `front` and `rest` the tokenizer comes to the point between the two, with the tokens of
    `front`. -/
structure Reaches (options : Options) (front rest : List Char) (us : List Token) : Prop where
  admitted : Text.width (front ++ rest) ≤ options.maxLength
  scanned : Scanned options rest 0 front us

theorem Reaches.tokenize (h : Reaches options front rest us) (hr : Stops joins rest) :
    tokenize options (String.ofList (front ++ rest))
      = (scanTokens options (Text.width front) rest).map (us ++ ·) := by
  have hlen : ¬options.maxLength < (String.ofList (front ++ rest)).utf8ByteSize := by
    rw [← Text.width_toList, String.toList_ofList]
    exact Nat.not_lt.mpr h.admitted
  have hscan := h.scanned.resumes rest hr
  rw [Nat.zero_add] at hscan
  rw [Filter.tokenize, if_neg hlen, String.toList_ofList, hscan]

/-- A string that cannot be read is the fault of the text. -/
theorem Reaches.tokenize_error {e : SyntaxError} (h : Reaches options front ('"' :: cs) us)
    (hscan : scanString (Text.width front) (Text.width front + Text.width ['"']) cs = .error e) :
    Filter.tokenize options (String.ofList (front ++ '"' :: cs)) = .error e := by
  have hlexeme : lexeme options (Text.width front) '"' cs = .error e := by
    rw [lexeme_quote, stringLexeme, hscan]
    rfl
  rw [h.tokenize (stops_cons (by decide) _), scanTokens_error (by decide) hlexeme]
  rfl

/-- Of what comes after it the record of a scan knows only that it continues nothing. -/
theorem Scanned.swap {rest' : List Char} (h : Scanned options rest position front us) (hr : Stops joins rest') :
    Scanned options rest' position front us := by
  induction h with
  | nil => exact .nil
  | blank hb _ ih => exact .blank hb ih
  | token hl _ ih => exact .token (lexeme_swap hl hr) ih

/-- The tokenizer comes to a quote wherever what stands before it is tokenized on its own. -/
theorem reaches_quote_iff : Reaches options front ('"' :: cs) us ↔
    Text.width (front ++ '"' :: cs) ≤ options.maxLength ∧
      tokenize options (String.ofList front) = .ok (us ++ [⟨.eof, "", Text.width front⟩]) := by
  have hquote : Stops joins ('"' :: cs) := stops_cons (by decide) _
  rw [tokenize_eq_ok_iff, ← Text.width_toList, String.toList_ofList]
  constructor
  · intro h
    have hfront : Text.width front ≤ Text.width (front ++ '"' :: cs) := by
      rw [Text.width_append]
      exact Nat.le_add_right _ _
    have hscan := h.scanned.resumes [] (stops_nil joins)
    rw [List.append_nil, Nat.zero_add, scanTokens_nil] at hscan
    exact ⟨h.admitted, Nat.le_trans hfront h.admitted, hscan⟩
  · rintro ⟨hlen, -, hscan⟩
    rcases scanTokens_scanned options 0 front with ⟨us', hscanned, hok⟩ | ⟨_, _, _, _, _, -, -, -, herr⟩
    · rw [hscan, Nat.zero_add] at hok
      obtain rfl : us = us' := List.append_cancel_right (Except.ok.inj hok)
      exact ⟨hlen, hscanned.swap hquote⟩
    · rw [hscan] at herr
      cases herr

/-- **What becomes of a string literal**, where the tokenizer comes to its opening quote. If what follows is a
    spelling and the quote that closes, it is one token, which holds the text that is spelled and is written as
    the whole literal, and reading goes on behind it, whatever stands there. If a backslash that begins no
    escape comes first, that backslash is reported, and if neither comes, the opening quote. -/
theorem tokenize_literal (h : Reaches options front ('"' :: cs) us) :
    let text := String.ofList (front ++ '"' :: cs)
    let start := Text.width front
    (∀ (s : String) (w rest : List Char), WrittenAs s.toList w → cs = w ++ '"' :: rest →
      let literal := '"' :: (w ++ ['"'])
      tokenize options text = (scanTokens options (start + Text.width literal) rest).map
        (us ++ [⟨.string s, String.ofList literal, start⟩] ++ ·)) ∧
    (∀ (s : String) (w rest : List Char), WrittenAs s.toList w → cs = w ++ '\\' :: rest → ¬BeginsEscape rest →
      let e : SyntaxError := ⟨.invalidEscape, start + Text.width ('"' :: w), none⟩
      tokenize options text = .error e ∧ e.message = "Invalid escape sequence") ∧
    ((∀ (s : String) (w rest : List Char), WrittenAs s.toList w →
        cs ≠ w ++ '"' :: rest ∧ (cs = w ++ '\\' :: rest → BeginsEscape rest)) →
      let e : SyntaxError := ⟨.unterminatedString, start, none⟩
      tokenize options text = .error e ∧ e.message = "Unterminated string") := by
  intro text start
  refine ⟨?_, ?_, ?_⟩
  · rintro s w rest hw rfl literal
    have hlexeme : lexeme options start '"' (w ++ '"' :: rest) = .ok ⟨.string s, literal, rest⟩ := by
      rw [lexeme_string (writtenAs_iff.mp hw), String.ofList_toList]
    rw [h.tokenize (stops_cons (by decide) _), scanTokens_lexeme hlexeme]
    exact map_append_map_append us [_] _
  · rintro s w rest hw rfl hrest e
    refine ⟨h.tokenize_error ?_, rfl⟩
    rw [scanString_badEscape (writtenAs_iff.mp hw) hrest, Text.add_width_singleton_add]
  · intro hneither e
    refine ⟨h.tokenize_error ?_, rfl⟩
    -- Of the three ways in which the text goes on, the first two are ruled out.
    have hwritten : ∀ {v w : List Char}, SpellsString w v → WrittenAs (String.ofList v).toList w := by
      intro v w hw
      rw [String.toList_ofList]
      exact writtenAs_iff.mpr hw
    rcases afterQuote_cases cs with ⟨v, w, rest, hw, hcs⟩ | ⟨v, w, rest, hw, hcs, hrest⟩ | ⟨v, hcs⟩
    · exact absurd hcs (hneither _ w rest (hwritten hw)).1
    · exact absurd ((hneither _ w rest (hwritten hw)).2 hcs) hrest
    · exact scanString_unclosed hcs

/-- A word of two bytes and each of the escapes, with another word right behind; a backslash that is escaped
    before one that escapes nothing; and a quote that is escaped, so that none is left to close. -/
theorem tokenize_literal_spellings :
    let front := "a eq ".toList
    let us : List Token := [⟨.name, "a", 0⟩, ⟨.compareOp .eq, "eq", 2⟩]
    let w := "é\\\"\\\\\\n\\t\\r\n".toList
    (WrittenAs "é\"\\\n\t\r\n".toList w ∧ Reaches {} front ('"' :: (w ++ '"' :: "or".toList)) us ∧
      tokenize {} "a eq \"é\\\"\\\\\\n\\t\\r\n\"or" = .ok (us ++
        [⟨.string "é\"\\\n\t\r\n", "\"é\\\"\\\\\\n\\t\\r\n\"", 5⟩, ⟨.or, "or", 20⟩, ⟨.eof, "", 22⟩])) ∧
    (Reaches {} front "\"\\\\\\q\"".toList us ∧ ¬BeginsEscape "q\"".toList ∧
      tokenize {} "a eq \"\\\\\\q\"" = .error ⟨.invalidEscape, 8, none⟩) ∧
    Reaches {} front "\"x\\\"".toList us ∧
      tokenize {} "a eq \"x\\\"" = .error ⟨.unterminatedString, 5, none⟩ := by
  intro front us w
  have hreach : ∀ cs : List Char, Text.width (front ++ '"' :: cs) ≤ 4096 → Reaches {} front ('"' :: cs) us :=
    fun cs hlen => reaches_quote_iff.mpr ⟨hlen, by cbv⟩
  have hclosed := hreach (w ++ '"' :: "or".toList) (by decide +kernel)
  have hescape := hreach ("\\\\\\q\"".toList) (by decide +kernel)
  have hopen := hreach ("x\\\"".toList) (by decide +kernel)
  have hw : WrittenAs "é\"\\\n\t\r\n".toList w := by
    refine writtenAs_iff.mpr ?_
    rw [show w = ['é', '\\', '"', '\\', '\\', '\\', 'n', '\\', 't', '\\', 'r', '\n'] by decide +kernel,
      show "é\"\\\n\t\r\n".toList = ['é', '"', '\\', '\n', '\t', '\r', '\n'] by decide +kernel]
    exact .plain (by decide) (by decide) <| .escape (by decide) <| .escape (by decide) <|
      .escape (by decide) <| .escape (by decide) <| .escape (by decide) <|
      .plain (by decide) (by decide) .nil
  have hpair : WrittenAs "\\".toList ['\\', '\\'] := by
    refine writtenAs_iff.mpr ?_
    rw [show "\\".toList = ['\\'] by decide +kernel]
    exact .escape (by decide) .nil
  have hno : ¬BeginsEscape "q\"".toList := by
    rw [show "q\"".toList = ['q', '"'] by decide +kernel, beginsEscape_cons_iff]
    rintro ⟨c, hc⟩
    simp [escapes] at hc
  have hunclosed : SpellsString "x\\\"".toList ['x', '"'] := by
    rw [show "x\\\"".toList = ['x', '\\', '"'] by decide +kernel]
    exact .plain (by decide) (by decide) (.escape (by decide) .nil)
  have hrest : scanTokens {} 20 "or".toList = .ok [⟨.or, "or", 20⟩, ⟨.eof, "", 22⟩] := by cbv
  refine ⟨⟨hw, hclosed, ?_⟩, ⟨hescape, hno, ?_⟩, hopen, ?_⟩
  · have htokens := (tokenize_literal hclosed).1 _ w "or".toList hw rfl
    have hwidth : Text.width front + Text.width ('"' :: (w ++ ['"'])) = 20 := by decide +kernel
    have htext : String.ofList (front ++ '"' :: (w ++ '"' :: "or".toList))
        = "a eq \"é\\\"\\\\\\n\\t\\r\n\"or" := by decide +kernel
    simp only [hwidth, hrest, htext] at htokens
    rw [htokens]
    decide +kernel
  · have hcs : "\\\\\\q\"".toList = ['\\', '\\'] ++ '\\' :: "q\"".toList := by decide +kernel
    have herror := ((tokenize_literal hescape).2.1 "\\" _ _ hpair hcs hno).1
    exact herror
  · have herror := ((tokenize_literal hopen).2.2 fun s w rest hw =>
      hunclosed.neither_before_end (writtenAs_iff.mp hw)).1
    exact herror

end ScimLdap.Filter
