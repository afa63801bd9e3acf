import ScimLdap.Filter.Lexer
import ScimLdap.Filter.Printer
import ScimLdap.Proofs.Numerals
import ScimLdap.Proofs.Outcomes

/-!
# Lexemes — what one token may be written as

The lexical grammar, apart from the reader: a sign of punctuation, a quoted string in any of its spellings,
a number within range, a word. Its escapes, its words and its keywords are tables and classes of its own, to
which those of the reader are held (`unescape?_eq_some_iff`, `isWordChar_iff`, `ofKeyword_cases`). `IsLexeme`
puts them together for a kind and the characters; `lexeme_sound` and `lexeme_complete` hold the reader to it.
The reader takes the longest lexeme, so completeness asks where the text goes on: strings and signs end by
themselves, words and numbers where nothing continues them.
-/

namespace ScimLdap.Filter

open Decimal (Numeral)
open Text (Stops stops_nil stops_cons takeWhile_append_of_stops dropWhile_append_of_stops)

/-! ## Strings -/

/-- The escapes: what comes after the backslash, and what the two stand for. -/
def escapes : List (Char × Char) :=
  [('"', '"'), ('\\', '\\'), ('n', '\n'), ('t', '\t'), ('r', '\r')]

/-- The characters between the quotes of a string, and the value they stand for. -/
inductive SpellsString : List Char → List Char → Prop
  | nil : SpellsString [] []
  | plain {c : Char} {cs v : List Char} (hq : c ≠ '"') (hb : c ≠ '\\') (h : SpellsString cs v) :
      SpellsString (c :: cs) (c :: v)
  | escape {e c : Char} {cs v : List Char} (he : (e, c) ∈ escapes) (h : SpellsString cs v) :
      SpellsString ('\\' :: e :: cs) (c :: v)

variable {options : Options} {start position : Nat} {c e : Char} {cs v rest : List Char}

theorem unescape?_eq_some_iff : unescape? e = some c ↔ (e, c) ∈ escapes := by
  constructor
  · intro h
    unfold unescape? at h
    split at h <;> cases h <;> decide
  · intro h
    simp only [escapes, List.mem_cons, Prod.mk.injEq, List.not_mem_nil, or_false] at h
    rcases h with ⟨rfl, rfl⟩ | ⟨rfl, rfl⟩ | ⟨rfl, rfl⟩ | ⟨rfl, rfl⟩ | ⟨rfl, rfl⟩ <;> rfl

theorem scanString_plain (hq : c ≠ '"') (hb : c ≠ '\\') :
    scanString start position (c :: cs)
      = (scanString start (position + Text.width [c]) cs).map (Quoted.push c [c]) := by
  rw [scanString]
  · exact fun h => hq h
  · exact fun h _ => hb h
  · exact fun _ _ h _ => hb h

/-- A spelling is read to the quote that closes it, whatever comes after. -/
theorem scanString_complete (h : SpellsString cs v) :
    scanString start position (cs ++ '"' :: rest) = .ok ⟨v, cs ++ ['"'], rest⟩ := by
  induction h generalizing position with
  | nil => rw [List.nil_append, scanString]; rfl
  | plain hq hb _ ih =>
    rw [List.cons_append, scanString_plain hq hb, ih]
    rfl
  | escape he _ ih =>
    rw [List.cons_append, List.cons_append, scanString, unescape?_eq_some_iff.mpr he]
    simp only
    rw [ih]
    rfl

/-- A backslash is read as an escape, or it is the last character. -/
theorem ne_backslash_of_plain (hlast : c = '\\' → cs = [] → False)
    (hescape : ∀ e es, c = '\\' → cs = e :: es → False) : c ≠ '\\' := by
  intro hc
  cases cs with
  | nil => exact hlast hc rfl
  | cons e es => exact hescape e es hc rfl

theorem scanString_sound {q : Quoted} (h : scanString start position cs = .ok q) :
    ∃ written, q.chars = written ++ ['"'] ∧ SpellsString written q.value := by
  fun_induction scanString start position cs generalizing q with
  | case1 | case3 | case4 => cases h
  | case2 => cases h; exact ⟨[], rfl, .nil⟩
  | case5 position e cs c he ih =>
    obtain ⟨r, hs, rfl⟩ := Outcome.map_eq_ok_iff.mp h
    obtain ⟨written, hw, hspells⟩ := ih hs
    exact ⟨'\\' :: e :: written, by simp [Quoted.push, hw],
      .escape (unescape?_eq_some_iff.mp he) hspells⟩
  | case6 position c cs hq hlast hb ih =>
    obtain ⟨r, hs, rfl⟩ := Outcome.map_eq_ok_iff.mp h
    obtain ⟨written, hw, hspells⟩ := ih hs
    exact ⟨c :: written, by simp [Quoted.push, hw],
      .plain (fun h => hq h) (ne_backslash_of_plain hlast hb) hspells⟩

/-- A string that cannot be read runs into the end of the text, or as far as a backslash and no further. -/
theorem scanString_eq_error {e : SyntaxError} (h : scanString start position cs = .error e) :
    (e = ⟨.unterminatedString, start, none⟩ ∧ ∃ v, SpellsString cs v) ∨
      ∃ ds v rest, cs = ds ++ '\\' :: rest ∧ SpellsString ds v ∧
        e = ⟨.invalidEscape, position + Text.width ds, none⟩ := by
  -- On the recursion of the scan: the text ends, the string ends, two wrong escapes, a right one, a character.
  fun_induction scanString start position cs with
  | case1 => cases h; exact .inl ⟨rfl, [], .nil⟩
  | case2 => cases h
  | case3 position => cases h; exact .inr ⟨[], [], [], rfl, .nil, rfl⟩
  | case4 position d cs hd => cases h; exact .inr ⟨[], [], d :: cs, rfl, .nil, rfl⟩
  | case5 position d cs c hd ih =>
    have hescape := unescape?_eq_some_iff.mp hd
    rcases ih (Outcome.map_eq_error_iff.mp h) with ⟨he, v, hspells⟩ | ⟨ds, v, rest, rfl, hspells, he⟩
    · exact .inl ⟨he, c :: v, .escape hescape hspells⟩
    · refine .inr ⟨'\\' :: d :: ds, c :: v, rest, rfl, .escape hescape hspells, ?_⟩
      rw [he, Text.add_width_add]
      rfl
  | case6 position c cs hq hlast hb ih =>
    have hne := ne_backslash_of_plain hlast hb
    rcases ih (Outcome.map_eq_error_iff.mp h) with ⟨he, v, hspells⟩ | ⟨ds, v, rest, rfl, hspells, he⟩
    · exact .inl ⟨he, c :: v, .plain (fun hc => hq hc) hne hspells⟩
    · refine .inr ⟨c :: ds, c :: v, rest, rfl, .plain (fun hc => hq hc) hne hspells, ?_⟩
      rw [he, Text.add_width_singleton_add]

/-- The canonical spelling is one of the spellings. -/
theorem spellsString_escapeChars (v : List Char) : SpellsString (Literal.escapeChars v) v := by
  induction v with
  | nil => exact .nil
  | cons c v ih =>
    rw [Literal.escapeChars]
    by_cases hc : c = '\\' ∨ c = '"'
    · rw [if_pos hc]
      rcases hc with rfl | rfl
      · exact .escape (by decide) ih
      · exact .escape (by decide) ih
    · rw [if_neg hc]
      exact .plain (fun h => hc (.inr h)) (fun h => hc (.inl h)) ih

/-! ## Names and numbers -/

/-- The words that are no names, and what each of them is. -/
def keywordKinds : List (String × TokenKind) :=
  [("and", .and), ("or", .or), ("not", .not), ("pr", .present),
   ("eq", .compareOp .eq), ("ne", .compareOp .ne), ("co", .compareOp .co), ("sw", .compareOp .sw),
   ("ew", .compareOp .ew), ("gt", .compareOp .gt), ("ge", .compareOp .ge), ("lt", .compareOp .lt),
   ("le", .compareOp .le), ("true", .bool true), ("false", .bool false), ("null", .null)]

def keywords : List String :=
  keywordKinds.map Prod.fst

/-- A character that may stand in a word after the first, which is a letter. -/
def WordChar (c : Char) : Prop :=
  c.isAlpha = true ∨ c.isDigit = true ∨ c = '_' ∨ c = '-'

theorem isWordChar_iff : isWordChar c = true ↔ WordChar c := by
  simp [isWordChar, WordChar, Char.isAlphanum, or_assoc]

theorem isWordChar_eq_false_iff : isWordChar c = false ↔ ¬WordChar c := by
  rw [← isWordChar_iff, Bool.not_eq_true]

/-- A word: a letter, then letters, digits, underscores and hyphens. -/
def IsWord (w : List Char) : Prop :=
  ∃ c cs, w = c :: cs ∧ c.isAlpha = true ∧ ∀ d ∈ cs, WordChar d

theorem isWord_of_all {c : Char} {cs : List Char} (hc : c.isAlpha = true)
    (hcs : cs.all isWordChar = true) : IsWord (c :: cs) :=
  ⟨c, cs, rfl, hc, fun d hd => isWordChar_iff.mp (List.all_eq_true.mp hcs d hd)⟩

/-- A name: a word that is no keyword. Keywords are known in any case unless they are case-sensitive. -/
def IsName (caseSensitive : Bool) (s : String) : Prop :=
  IsWord s.toList ∧ (if caseSensitive then s else Text.foldCase s) ∉ keywords

/-- A number literal: of the form of a numeral, with digits where an exponent has its mark, and within the range
    of a 64-bit float. -/
def IsNumber (s : String) : Prop :=
  ∃ n : Numeral, n.Shape ∧ n.isMalformed = false ∧ n.isFinite = true ∧ s = String.ofList n.chars

/-- **A word is the keyword that it spells**, and else a name. -/
theorem ofKeyword_cases (w : String) :
    (w, TokenKind.ofKeyword w) ∈ keywordKinds ∨ w ∉ keywords ∧ TokenKind.ofKeyword w = .name := by
  by_cases hw : w ∈ keywords
  · have hall : ∀ k ∈ keywords, (k, TokenKind.ofKeyword k) ∈ keywordKinds := by decide +kernel
    exact .inl (hall w hw)
  · have hops : CompareOp.ofKeyword? w = none := by
      have hall : ∀ op ∈ CompareOp.all, op.keyword ∈ keywords := by decide +kernel
      rw [CompareOp.ofKeyword?, List.find?_eq_none]
      rintro op hop heq
      rw [← eq_of_beq heq] at hw
      exact hw (hall op hop)
    have hne : ∀ k ∈ keywords, w ≠ k := fun k hk heq => hw (heq ▸ hk)
    simp only [keywords, keywordKinds, List.map_cons, List.map_nil, List.forall_mem_cons] at hne
    exact .inr ⟨hw, by simp [TokenKind.ofKeyword, hne, hops]⟩

theorem ofKeyword_eq_name_iff {w : String} : TokenKind.ofKeyword w = .name ↔ w ∉ keywords := by
  rcases ofKeyword_cases w with hw | ⟨hw, hname⟩
  · have hall : ∀ k ∈ keywordKinds, k.2 ≠ .name := by decide
    have hmem : w ∈ keywords := List.mem_map_of_mem hw
    simp [hall _ hw, hmem]
  · simp [hw, hname]

theorem ofKeyword_ne (w : String) :
    TokenKind.ofKeyword w ≠ .eof ∧ ∀ s, TokenKind.ofKeyword w ≠ .number s := by
  unfold TokenKind.ofKeyword
  repeat' split
  all_goals simp

theorem ofWord_eq_name_iff {s : String} :
    TokenKind.ofWord options s = .name ↔
      (if options.keywordsCaseSensitive then s else Text.foldCase s) ∉ keywords :=
  ofKeyword_eq_name_iff

/-! ## Classes of first characters

Which lexeme a text begins with shows in its first character, or two for a signed number. -/

theorem toNat_of_isAlpha (h : c.isAlpha = true) : 57 < c.toNat ∧ c.toNat < 0x85 := by
  change (decide ('A'.val ≤ c.val ∧ c.val ≤ 'Z'.val)
    || decide ('a'.val ≤ c.val) && decide (c.val ≤ 'z'.val)) = true at h
  simp only [Bool.or_eq_true, Bool.and_eq_true, decide_eq_true_eq, UInt32.le_iff_toNat_le] at h
  rcases h with ⟨hlo, hhi⟩ | ⟨hlo, hhi⟩
  · exact ⟨Nat.lt_of_lt_of_le (by decide) hlo, Nat.lt_of_le_of_lt hhi (by decide)⟩
  · exact ⟨Nat.lt_of_lt_of_le (by decide) hlo, Nat.lt_of_le_of_lt hhi (by decide)⟩

theorem not_isDigit_of_isAlpha (h : c.isAlpha = true) : c.isDigit = false := by
  have hpast : 57 < c.val.toNat := (toNat_of_isAlpha h).1
  rw [Char.isDigit, Bool.and_eq_false_iff, decide_eq_false_iff_not, decide_eq_false_iff_not]
  exact .inr (fun h9 => Nat.not_le.mpr hpast (UInt32.le_iff_toNat_le.mp h9))

theorem punctuation?_eq_none (hc : c.isAlpha = true ∨ c.isDigit = true ∨ c = '-' ∨ c = '+' ∨ c = '"') :
    punctuation? c = none := by
  unfold punctuation?
  split <;> first | rfl | exact absurd hc (by decide)

theorem startsNumeral_of_isAlpha (hc : c.isAlpha = true) : startsNumeral c cs = false := by
  have hd : c.isDigit = false := not_isDigit_of_isAlpha hc
  have hm : (c == '-') = false := by
    rw [beq_eq_false_iff_ne]
    rintro rfl
    exact absurd hc (by decide)
  have hp : (c == '+') = false := by
    rw [beq_eq_false_iff_ne]
    rintro rfl
    exact absurd hc (by decide)
  simp [startsNumeral, hd, hm, hp]

/-- A number begins with a digit, or with a sign and a digit. -/
theorem startsNumeral_iff : startsNumeral c cs = true ↔ (Numeral.scan (c :: cs)).1.whole ≠ [] := by
  have hwhole : (Numeral.scan (c :: cs)).1.whole
      = (Numeral.scanSign (c :: cs)).2.takeWhile Char.isDigit := rfl
  have hrun : ∀ ds : List Char, ds.takeWhile Char.isDigit ≠ [] ↔ (ds.take 1).any Char.isDigit = true := by
    intro ds
    cases ds with
    | nil => simp
    | cons d ds => cases hd : d.isDigit <;> simp [hd]
  rw [hwhole, hrun]
  by_cases hm : c = '-'
  · subst hm
    simp [startsNumeral, Numeral.scanSign]
  by_cases hp : c = '+'
  · subst hp
    simp [startsNumeral, Numeral.scanSign]
  · have hsign : Numeral.scanSign (c :: cs) = ([], c :: cs) := by
      unfold Numeral.scanSign
      split
      · next h => exact absurd (List.cons.inj h).1 hm
      · next h => exact absurd (List.cons.inj h).1 hp
      · rfl
    simp [startsNumeral, hm, hp, hsign]

/-! ## Lexemes -/

/-- What a token of a kind may be written as. -/
inductive IsLexeme (options : Options) : TokenKind → List Char → Prop
  | punctuation {c : Char} {kind : TokenKind} (h : punctuation? c = some kind) :
      IsLexeme options kind [c]
  | string {cs v : List Char} (h : SpellsString cs v) :
      IsLexeme options (.string (String.ofList v)) ('"' :: (cs ++ ['"']))
  | number {s : String} (h : IsNumber s) : IsLexeme options (.number s) s.toList
  | word {w : List Char} (h : IsWord w) : IsLexeme options (.ofWord options (String.ofList w)) w

/-- A small word is read as what it spells under either treatment of case. -/
theorem IsLexeme.keyword {w : String} {kind : TokenKind} (hw : IsWord w.toList)
    (hfold : Text.foldCase w = w) (hk : TokenKind.ofKeyword w = kind) :
    IsLexeme options kind w.toList := by
  have hlexeme : IsLexeme options _ w.toList := .word hw
  rwa [String.ofList_toList, TokenKind.ofWord, hfold, ite_self, hk] at hlexeme

theorem lexeme_sound {l : Lexeme} (h : lexeme options position c cs = .ok l) :
    IsLexeme options l.kind l.chars := by
  -- The cases are the reader's, in its order: a sign, a string, a number, a word.
  unfold lexeme at h
  split at h
  · next kind hk =>
    cases h
    exact .punctuation hk
  split at h
  · unfold stringLexeme at h
    obtain ⟨q, hs, rfl⟩ := Outcome.map_eq_ok_iff.mp h
    obtain ⟨written, hw, hspells⟩ := scanString_sound hs
    show IsLexeme options _ ('"' :: q.chars)
    rw [hw]
    exact .string hspells
  split at h
  · next hn =>
    simp only [numberLexeme] at h
    split at h
    · cases h
    next hm =>
    split at h
    · next hf =>
      cases h
      have hnum : IsNumber (String.ofList (Numeral.scan (c :: cs)).1.chars) :=
        ⟨_, Numeral.shape_scan (startsNumeral_iff.mp hn), by simpa using hm, hf, rfl⟩
      have hlexeme : IsLexeme options _ _ := .number hnum
      simpa using hlexeme
    · cases h
  split at h
  · next ha =>
    cases h
    exact .word (isWord_of_all ha List.all_takeWhile)
  · cases h

theorem lexeme_quote : lexeme options position '"' cs = stringLexeme position cs := by
  rw [lexeme, punctuation?_eq_none (by decide)]
  rfl

theorem lexeme_string (h : SpellsString cs v) :
    lexeme options position '"' (cs ++ '"' :: rest)
      = .ok ⟨.string (String.ofList v), '"' :: (cs ++ ['"']), rest⟩ := by
  rw [lexeme_quote, stringLexeme, scanString_complete h]
  rfl

theorem lexeme_word {w : List Char} (hw : w = c :: cs) (h : IsWord w) (hr : Stops isWordChar rest) :
    lexeme options position c (cs ++ rest)
      = .ok ⟨.ofWord options (String.ofList w), w, rest⟩ := by
  obtain ⟨d, ds, rfl, ha, hds⟩ := h
  cases hw
  have hchars : ∀ d ∈ cs, isWordChar d = true := fun d hd => isWordChar_iff.mpr (hds d hd)
  have hq : c ≠ '"' := by
    rintro rfl
    exact absurd ha (by decide)
  rw [lexeme, punctuation?_eq_none (.inl ha)]
  simp only [if_neg hq, startsNumeral_of_isAlpha ha, ha, if_true, Bool.false_eq_true, if_false,
    wordLexeme]
  rw [takeWhile_append_of_stops hchars hr, dropWhile_append_of_stops hchars hr]

theorem first_of_startsNumeral (h : startsNumeral c cs = true) : c.isDigit = true ∨ c = '-' ∨ c = '+' := by
  simp only [startsNumeral, Bool.or_eq_true, Bool.and_eq_true, beq_iff_eq] at h
  exact h.imp id And.left

theorem lexeme_of_startsNumeral (h : startsNumeral c cs = true) :
    lexeme options position c cs = numberLexeme position (c :: cs) := by
  have hfirst := first_of_startsNumeral h
  have hnone : punctuation? c = none := by
    apply punctuation?_eq_none
    rcases hfirst with hd | rfl | rfl
    · exact .inr (.inl hd)
    · decide
    · decide
  have hquote : c ≠ '"' := by
    rintro rfl
    exact absurd hfirst (by decide)
  rw [lexeme, hnone]
  simp only [if_neg hquote, h, if_true]

/-- A numeral is read as a number where scanning stops after it. -/
theorem lexeme_numeral {n : Numeral} (hn : n.Shape) (hm : n.isMalformed = false)
    (hf : n.isFinite = true) (hscan : Numeral.scan (c :: (cs ++ rest)) = (n, rest)) :
    lexeme options position c (cs ++ rest)
      = .ok ⟨.number (String.ofList n.chars), n.chars, rest⟩ := by
  have hstart : startsNumeral c (cs ++ rest) = true := by
    rw [startsNumeral_iff, hscan]
    exact hn.whole_ne_nil
  rw [lexeme_of_startsNumeral hstart, numberLexeme, hscan]
  simp [hm, hf]

theorem lexeme_number {s : String} (hs : s.toList = c :: cs) (h : IsNumber s)
    (hr : Stops Numeral.continues rest) :
    lexeme options position c (cs ++ rest) = .ok ⟨.number s, s.toList, rest⟩ := by
  obtain ⟨n, hn, hm, hf, rfl⟩ := h
  rw [String.toList_ofList] at hs ⊢
  refine lexeme_numeral hn hm hf ?_
  rw [← List.cons_append, ← hs]
  exact Numeral.scan_append hn hr

end ScimLdap.Filter
