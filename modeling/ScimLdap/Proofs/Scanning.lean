import ScimLdap.Filter.Parser
import ScimLdap.Proofs.Grammar
import ScimLdap.Proofs.Lexemes

/-!
# Scanning — the tokens of a text put together from parts

`Scans options cs P` says that the characters `cs`, wherever they stand and whatever follows that does not
continue them, are read as tokens with the property `P`. It composes: a lexeme scans as its token, a sign or
a blank may be put in front, and two texts may be put one after the other where the second begins with a
character that continues nothing.

In the other direction every token that scanning yields is written as its kind asks for
(`scanTokens_sound`), and a text may be cut after any of its tokens and go on with another
(`scanTokens_cut`).
-/

namespace ScimLdap.Filter

open Decimal (Numeral)
open Text (Stops stops_nil stops_cons)

variable {options : Options} {position : Nat} {c : Char} {cs ds rest : List Char}

/-! ## One step of scanning -/

theorem isBlank_eq_false_of_ascii (hlo : 0x20 < c.toNat) (hhi : c.toNat < 0x85) :
    Text.isBlank c = false := by
  simp only [Text.isBlank, Bool.or_eq_false_iff, Bool.and_eq_false_iff, decide_eq_false_iff_not,
    beq_eq_false_iff_ne]
  omega

theorem ascii_of_isWordChar (h : isWordChar c = true) : 0x20 < c.toNat ∧ c.toNat < 0x85 := by
  simp only [isWordChar, Char.isAlphanum, Char.isDigit, Bool.or_eq_true, Bool.and_eq_true,
    decide_eq_true_eq, beq_iff_eq, ge_iff_le, UInt32.le_iff_toNat_le] at h
  rcases h with ((h | ⟨hlo, hhi⟩) | rfl) | rfl
  · obtain ⟨hlo, hhi⟩ := toNat_of_isAlpha h
    exact ⟨Nat.lt_trans (by decide) hlo, hhi⟩
  · exact ⟨Nat.lt_of_lt_of_le (by decide) hlo, Nat.lt_of_le_of_lt hhi (by decide)⟩
  · decide
  · decide

theorem isWordChar_of_isAlpha (h : c.isAlpha = true) : isWordChar c = true := by
  simp [isWordChar, Char.isAlphanum, h]

theorem isWordChar_of_isDigit (h : c.isDigit = true) : isWordChar c = true := by
  simp [isWordChar, Char.isAlphanum, h]

theorem isBlank_eq_false_of_startsNumeral (h : startsNumeral c cs = true) : Text.isBlank c = false := by
  rcases first_of_startsNumeral h with hd | rfl | rfl
  · obtain ⟨hlo, hhi⟩ := ascii_of_isWordChar (isWordChar_of_isDigit hd)
    exact isBlank_eq_false_of_ascii hlo hhi
  · decide
  · decide

theorem isBlank_eq_false_of_lexeme {l : Lexeme} (h : lexeme options position c cs = .ok l) :
    Text.isBlank c = false := by
  unfold lexeme at h
  split at h
  · next kind hk =>
    unfold punctuation? at hk
    split at hk <;> first | decide | cases hk
  split at h
  · next hq => subst hq; decide
  split at h
  · next hn => exact isBlank_eq_false_of_startsNumeral hn
  split at h
  · next ha =>
    obtain ⟨hlo, hhi⟩ := ascii_of_isWordChar (isWordChar_of_isAlpha ha)
    exact isBlank_eq_false_of_ascii hlo hhi
  · cases h

/-- A lexeme begins with the character at which it is read. -/
theorem eq_of_lexeme {l : Lexeme} (h : lexeme options position c cs = .ok l) :
    ∃ kind w rest, l = ⟨kind, c :: w, rest⟩ ∧ cs = w ++ rest := by
  obtain ⟨kind, chars, rest⟩ := l
  obtain ⟨happ, hchars⟩ := lexeme_append h
  obtain ⟨d, w, rfl⟩ := List.exists_cons_of_ne_nil hchars
  obtain ⟨rfl, rfl⟩ := List.cons.inj happ
  exact ⟨kind, w, rest, rfl, rfl⟩

theorem scanTokens_nil : scanTokens options position [] = .ok [⟨.eof, "", position⟩] := by
  rw [scanTokens]

theorem scanTokens_blank (h : Text.isBlank c = true) :
    scanTokens options position (c :: cs) = scanTokens options (position + Text.width [c]) cs := by
  rw [scanTokens, if_pos h]

theorem scanTokens_lexeme {l : Lexeme} (h : lexeme options position c cs = .ok l) :
    scanTokens options position (c :: cs) =
      (scanTokens options (position + Text.width l.chars) l.rest).map
        (⟨l.kind, String.ofList l.chars, position⟩ :: ·) := by
  rw [scanTokens, if_neg (by simp [isBlank_eq_false_of_lexeme h])]
  split
  · next e he => rw [h] at he; cases he
  · next l' hl => rw [h] at hl; cases hl; rfl

theorem scanTokens_error {e : SyntaxError} (hb : Text.isBlank c = false)
    (h : lexeme options position c cs = .error e) :
    scanTokens options position (c :: cs) = .error e := by
  rw [scanTokens, if_neg (by simp [hb])]
  split
  · next e' he => rw [h] at he; cases he; rfl
  · next l hl => rw [h] at hl; cases hl

/-- Of the options only the case of keywords matters to scanning. -/
theorem lexeme_congr {limits : Options}
    (h : limits.keywordsCaseSensitive = options.keywordsCaseSensitive) (position : Nat) (c : Char)
    (cs : List Char) : lexeme limits position c cs = lexeme options position c cs := by
  simp only [lexeme, wordLexeme, TokenKind.ofWord, h]

theorem scanTokens_congr {limits : Options}
    (h : limits.keywordsCaseSensitive = options.keywordsCaseSensitive) (position : Nat)
    (cs : List Char) : scanTokens limits position cs = scanTokens options position cs := by
  fun_induction scanTokens options position cs with
  | case1 => exact scanTokens_nil
  | case2 position c cs hb ih => rw [scanTokens_blank hb, ih]
  | case3 position c cs hb e he =>
    rw [scanTokens_error (by simpa using hb) ((lexeme_congr h position c cs).trans he)]
  | case4 position c cs hb l hl ih =>
    rw [scanTokens_lexeme ((lexeme_congr h position c cs).trans hl), ih]

/-! ## Texts put together from parts -/

/-- The characters that could continue a word or a number. -/
def joins (c : Char) : Bool :=
  isWordChar c || c == '.' || c == '+'

theorem stops_isWordChar (h : Stops joins rest) : Stops isWordChar rest :=
  h.mono fun c hc => by
    simp only [joins, Bool.or_eq_false_iff] at hc
    exact hc.1.1

theorem stops_continues (h : Stops joins rest) : Stops Numeral.continues rest :=
  h.mono fun c hc => by
    have halnum : ∀ d : Char, d.isAlphanum = true → c ≠ d := by
      rintro d hd rfl
      simp [joins, isWordChar, hd] at hc
    have hdigit : c.isDigit = false := by
      cases hd : c.isDigit with
      | false => rfl
      | true => exact absurd rfl (halnum c (by simp [Char.isAlphanum, hd]))
    have hmark : Numeral.isExponentMark c = false := by
      simp only [Numeral.isExponentMark, Bool.or_eq_false_iff, beq_eq_false_iff_ne]
      exact ⟨halnum 'e' (by decide), halnum 'E' (by decide)⟩
    simp only [joins, isWordChar, Bool.or_eq_false_iff, beq_eq_false_iff_ne] at hc
    simp [Numeral.continues, hdigit, hmark, hc]

/-- Read with any text after it that does not continue it, the text yields tokens with the property. -/
def Scans (options : Options) (cs : List Char) (P : List Token → Prop) : Prop :=
  ∀ (position : Nat) (rest : List Char), Stops joins rest →
    ∃ ts, scanTokens options position (cs ++ rest) =
        (scanTokens options (position + Text.width cs) rest).map (ts ++ ·) ∧ P ts

/-- One token of a kind, written as given. -/
def Single (kind : TokenKind) (text : String) (ts : List Token) : Prop :=
  ∃ position, ts = [⟨kind, text, position⟩]

variable {P Q : List Token → Prop}

theorem Scans.imp (h : Scans options cs P) (hPQ : ∀ ts, P ts → Q ts) : Scans options cs Q := by
  intro position rest hr
  obtain ⟨ts, hts, hp⟩ := h position rest hr
  exact ⟨ts, hts, hPQ ts hp⟩

theorem map_append_map_append (ts us : List Token) (e : Except SyntaxError (List Token)) :
    (e.map (us ++ ·)).map (ts ++ ·) = e.map (ts ++ us ++ ·) := by
  cases e with
  | error e => rfl
  | ok vs =>
    show Except.ok (ts ++ (us ++ vs)) = Except.ok (ts ++ us ++ vs)
    rw [List.append_assoc]

theorem map_nil_append (e : Except SyntaxError (List Token)) : e.map ([] ++ ·) = e := by
  cases e <;> rfl

theorem scans_nil (options : Options) : Scans options [] (· = []) :=
  fun _ _ _ => ⟨[], (map_nil_append _).symm, rfl⟩

theorem Scans.append (h : Scans options cs P) (hc : joins c = false)
    (hd : Scans options (c :: ds) Q) :
    Scans options (cs ++ c :: ds) (fun ts => ∃ us vs, ts = us ++ vs ∧ P us ∧ Q vs) := by
  intro position rest hr
  obtain ⟨us, hus, hp⟩ := h position (c :: ds ++ rest) (stops_cons hc _)
  obtain ⟨vs, hvs, hq⟩ := hd (position + Text.width cs) rest hr
  refine ⟨us ++ vs, ?_, us, vs, rfl, hp, hq⟩
  rw [List.append_assoc, hus, hvs, map_append_map_append, Text.width_append, Nat.add_assoc]

theorem Scans.blank (h : Scans options cs P) : Scans options (' ' :: cs) P := by
  intro position rest hr
  obtain ⟨ts, hts, hp⟩ := h (position + Text.width [' ']) rest hr
  refine ⟨ts, ?_, hp⟩
  rw [List.cons_append, scanTokens_blank (by decide), hts, Nat.add_assoc, ← Text.width_append]
  rfl

theorem Scans.sign {kind : TokenKind} (hc : punctuation? c = some kind) (h : Scans options cs P) :
    Scans options (c :: cs) (fun ts => ∃ t us, ts = t :: us ∧ t.kind = kind ∧ P us) := by
  intro position rest hr
  obtain ⟨us, hus, hp⟩ := h (position + Text.width [c]) rest hr
  have hl : lexeme options position c (cs ++ rest) = .ok ⟨kind, [c], cs ++ rest⟩ := by
    rw [lexeme, hc]
  refine ⟨_ :: us, ?_, ⟨kind, String.ofList [c], position⟩, us, rfl, rfl, hp⟩
  rw [List.cons_append, scanTokens_lexeme hl, hus, Nat.add_assoc, ← Text.width_append]
  exact map_append_map_append [_] us _

/-- A lexeme is read as its token where nothing continues it. -/
theorem lexeme_complete {kind : TokenKind} (h : IsLexeme options kind (c :: cs))
    (hr : Stops joins rest) : lexeme options position c (cs ++ rest) = .ok ⟨kind, c :: cs, rest⟩ := by
  generalize hw : c :: cs = w at h
  cases h with
  | punctuation hk =>
    cases hw
    rw [List.nil_append, lexeme, hk]
  | string hs =>
    cases hw
    rw [List.append_assoc]
    exact lexeme_string hs
  | number hn =>
    rw [← hw]
    simpa [← hw] using lexeme_number hw.symm hn (stops_continues hr)
  | word hword => exact lexeme_word hw.symm hword (stops_isWordChar hr)

theorem IsLexeme.ne_nil {kind : TokenKind} (h : IsLexeme options kind cs) : cs ≠ [] := by
  cases h with
  | punctuation hk => exact List.cons_ne_nil _ _
  | string hs => exact List.cons_ne_nil _ _
  | number hn =>
    obtain ⟨n, hn, -, -, rfl⟩ := hn
    simp [Numeral.chars, hn.whole_ne_nil]
  | word hw =>
    obtain ⟨c, ds, rfl, -, -⟩ := hw
    exact List.cons_ne_nil _ _

theorem IsLexeme.scans {kind : TokenKind} (h : IsLexeme options kind cs) :
    Scans options cs (Single kind (String.ofList cs)) := by
  intro position rest hr
  cases cs with
  | nil => exact absurd rfl h.ne_nil
  | cons c cs =>
    refine ⟨[_], ?_, position, rfl⟩
    rw [List.cons_append, scanTokens_lexeme (lexeme_complete h hr)]
    rfl

/-- A text that scans on its own is tokenized, with the end marked after its last byte. -/
theorem Scans.tokenize {text : String} (h : Scans options text.toList P)
    (hlen : text.utf8ByteSize ≤ options.maxLength) :
    ∃ ts, tokenize options text = .ok (ts ++ [⟨.eof, "", Text.width text.toList⟩]) ∧ P ts := by
  obtain ⟨ts, hts, hp⟩ := h 0 [] (stops_nil joins)
  refine ⟨ts, ?_, hp⟩
  rw [List.append_nil, scanTokens_nil, Nat.zero_add] at hts
  rw [Filter.tokenize, if_neg (Nat.not_lt.mpr hlen), hts]
  rfl

/-! ## What scanning yields -/

theorem IsLexeme.not_eof {kind : TokenKind} (h : IsLexeme options kind cs) : kind ≠ .eof := by
  cases h with
  | punctuation hk =>
    unfold punctuation? at hk
    split at hk <;> cases hk <;> simp
  | string | number => simp
  | word => exact (ofKeyword_ne _).1

/-- Scanning yields tokens that are each written as their kind asks for, and one more that marks the end. -/
theorem scanTokens_sound {ts : List Token} (h : scanTokens options position cs = .ok ts) :
    ∃ us, ts = us ++ [⟨.eof, "", position + Text.width cs⟩] ∧
      ∀ t ∈ us, IsLexeme options t.kind t.text.toList := by
  -- On the recursion of scanning: a blank is passed over, a lexeme becomes a token.
  fun_induction scanTokens options position cs generalizing ts with
  | case1 position => cases h; exact ⟨[], rfl, fun t ht => absurd ht List.not_mem_nil⟩
  | case2 position c cs hb ih =>
    obtain ⟨us, rfl, hus⟩ := ih h
    refine ⟨us, ?_, hus⟩
    rw [Nat.add_assoc, ← Text.width_append]
    rfl
  | case3 => cases h
  | case4 position c cs hb l hl ih =>
    obtain ⟨vs, hs, rfl⟩ := Outcome.map_eq_ok_iff.mp h
    obtain ⟨us, rfl, hus⟩ := ih hs
    refine ⟨⟨l.kind, String.ofList l.chars, position⟩ :: us, ?_, ?_⟩
    · rw [Nat.add_assoc, ← Text.width_append, (lexeme_append hl).1]
      rfl
    · intro t ht
      rcases List.mem_cons.mp ht with rfl | ht
      · simpa using lexeme_sound hl
      · exact hus t ht

/-- Each token stands after the one before it. -/
theorem scanTokens_positions {ts : List Token} (h : scanTokens options position cs = .ok ts) :
    ts.Pairwise (·.position < ·.position) ∧ ∀ t ∈ ts, position ≤ t.position := by
  fun_induction scanTokens options position cs generalizing ts with
  | case1 position => cases h; simp
  | case2 position c cs hb ih =>
    obtain ⟨hp, hle⟩ := ih h
    exact ⟨hp, fun t ht => Nat.le_trans (Nat.le_add_right _ _) (hle t ht)⟩
  | case3 => cases h
  | case4 position c cs hb l hl ih =>
    obtain ⟨us, hs, rfl⟩ := Outcome.map_eq_ok_iff.mp h
    obtain ⟨hp, hle⟩ := ih hs
    obtain ⟨kind, w, rest, rfl, rfl⟩ := eq_of_lexeme hl
    have hwidth : 0 < Text.width (c :: w) :=
      Nat.lt_of_lt_of_le c.utf8Size_pos (Nat.le_add_right _ _)
    have hlt : ∀ t ∈ us, position < t.position := fun t ht =>
      Nat.lt_of_lt_of_le (Nat.lt_add_of_pos_right hwidth) (hle t ht)
    refine ⟨List.pairwise_cons.mpr ⟨hlt, hp⟩, fun t ht => ?_⟩
    rcases List.mem_cons.mp ht with rfl | ht
    · exact Nat.le_refl _
    · exact Nat.le_of_lt (hlt t ht)

theorem scanTokens_position_inj {ts : List Token} (h : scanTokens options position cs = .ok ts) :
    ∀ t ∈ ts, ∀ u ∈ ts, t.position = u.position → t = u := by
  have hp := (scanTokens_positions h).1
  clear h
  induction ts with
  | nil => exact fun t ht => absurd ht List.not_mem_nil
  | cons v ts ih =>
    obtain ⟨hlt, hp⟩ := List.pairwise_cons.mp hp
    intro t ht u hu heq
    rcases List.mem_cons.mp ht with rfl | ht' <;> rcases List.mem_cons.mp hu with rfl | hu'
    · rfl
    · exact absurd heq (Nat.ne_of_lt (hlt u hu'))
    · exact absurd heq.symm (Nat.ne_of_lt (hlt t ht'))
    · exact ih hp t ht' u hu' heq

theorem tokenize_eq_ok_iff {text : String} {ts : List Token} :
    tokenize options text = .ok ts ↔
      text.utf8ByteSize ≤ options.maxLength ∧ scanTokens options 0 text.toList = .ok ts := by
  unfold tokenize
  split
  · next h => simp [Nat.not_le.mpr h]
  · next h => simp [Nat.not_lt.mp h]

theorem tokenize_sound {text : String} {ts : List Token} (h : tokenize options text = .ok ts) :
    ∃ us, ts = us ++ [⟨.eof, "", Text.width text.toList⟩] ∧
      ∀ t ∈ us, IsLexeme options t.kind t.text.toList := by
  have hscan := scanTokens_sound (tokenize_eq_ok_iff.mp h).2
  rwa [Nat.zero_add] at hscan

/-! ## A text cut after one of its tokens

A token ends where the next characters say so. What stands before the cut is therefore read again whatever
the text goes on with, as long as that continues nothing. -/

variable {mid rest' : List Char}

/-- A lexeme is read again before another text, which may begin at its end or later. -/
theorem lexeme_swap {kind : TokenKind} {w : List Char}
    (h : lexeme options position c cs = .ok ⟨kind, c :: w, mid ++ rest⟩) (hr : Stops joins rest') :
    lexeme options position c (w ++ (mid ++ rest')) = .ok ⟨kind, c :: w, mid ++ rest'⟩ := by
  unfold lexeme at h
  split at h
  · next k hk =>
    simp only [Except.ok.injEq, Lexeme.mk.injEq, List.cons.injEq] at h
    obtain ⟨rfl, ⟨-, rfl⟩, -⟩ := h
    rw [lexeme, hk]
    rfl
  split at h
  · next hq =>
    subst hq
    unfold stringLexeme at h
    obtain ⟨q, hs, hq⟩ := Outcome.map_eq_ok_iff.mp h
    obtain ⟨written, hw, hspells⟩ := scanString_sound hs
    simp only [Lexeme.mk.injEq, List.cons.injEq, hw] at hq
    obtain ⟨rfl, ⟨-, rfl⟩, -⟩ := hq
    rw [List.append_assoc]
    exact lexeme_string hspells
  split at h
  · next hn =>
    simp only [numberLexeme] at h
    split at h
    · cases h
    next hm =>
    split at h
    · next hf =>
      have hshape := Numeral.shape_scan (startsNumeral_iff.mp hn)
      have happ := Numeral.chars_scan (c :: cs)
      generalize hscan : Numeral.scan (c :: cs) = nr at *
      obtain ⟨n, r⟩ := nr
      simp only [Except.ok.injEq, Lexeme.mk.injEq] at h
      obtain ⟨rfl, hchars, rfl⟩ := h
      have hm : n.isMalformed = false := by simpa using hm
      have hnext := Numeral.unextended_of_scan (n := n) (r := mid ++ rest) (by rw [happ, hscan])
      rw [← hchars]
      refine lexeme_numeral hshape hm hf ?_
      rw [← List.cons_append, ← hchars]
      exact Numeral.scan_append_of_unextended hshape hm (hnext.swap (stops_continues hr))
    · cases h
  split at h
  · next ha =>
    simp only [Except.ok.injEq, wordLexeme, Lexeme.mk.injEq, List.cons.injEq] at h
    obtain ⟨rfl, ⟨-, rfl⟩, hrest⟩ := h
    have hstop : Stops isWordChar (mid ++ rest) := hrest ▸ Text.stops_dropWhile _ _
    exact lexeme_word rfl (isWord_of_all ha List.all_takeWhile)
      (hstop.swap (stops_isWordChar hr))
  · cases h

/-- The characters are read again as the same tokens before any text that does not continue them. -/
def Resumes (options : Options) (position : Nat) (ds : List Char) (us : List Token) : Prop :=
  ∀ rest, Stops joins rest → scanTokens options position (ds ++ rest)
    = (scanTokens options (position + Text.width ds) rest).map (us ++ ·)

variable {us : List Token}

theorem resumes_nil (options : Options) (position : Nat) : Resumes options position [] [] :=
  fun _ _ => (map_nil_append _).symm

theorem Resumes.blank (hb : Text.isBlank c = true) (h : Resumes options (position + Text.width [c]) ds us) :
    Resumes options position (c :: ds) us := by
  intro rest hr
  rw [List.cons_append, scanTokens_blank hb, h rest hr, Nat.add_assoc, ← Text.width_append]
  rfl

/-- A lexeme is read again where the text after it is. -/
theorem Resumes.token {kind : TokenKind} {w : List Char}
    (hl : lexeme options position c cs = .ok ⟨kind, c :: w, ds ++ rest⟩)
    (h : Resumes options (position + Text.width (c :: w)) ds us) :
    Resumes options position (c :: (w ++ ds)) (⟨kind, String.ofList (c :: w), position⟩ :: us) := by
  intro rest' hr
  have hlex := lexeme_swap hl hr
  rw [List.cons_append, List.append_assoc, scanTokens_lexeme hlex, h rest' hr,
    show c :: (w ++ ds) = (c :: w) ++ ds from rfl, Text.width_append, ← Nat.add_assoc]
  exact map_append_map_append [_] us _

/-- **A text may be cut after any of its tokens**: those before the cut are read again, at the same positions,
    before any text that does not continue the last of them. -/
theorem scanTokens_cut {before after : List Token}
    (h : scanTokens options position cs = .ok (before ++ after)) (hne : after ≠ []) :
    ∃ ds rest, cs = ds ++ rest ∧ Resumes options position ds before := by
  -- On the recursion of scanning. Where no token stands before the cut, it may be at the very front.
  fun_induction scanTokens options position cs generalizing before with
  | case1 position =>
    have hnil : before = [] := by
      have hlen := congrArg List.length (Except.ok.inj h)
      have := List.length_pos_iff.mpr hne
      simp only [List.length_append, List.length_singleton] at hlen
      exact List.length_eq_zero_iff.mp (by omega)
    subst hnil
    exact ⟨[], [], rfl, resumes_nil options position⟩
  | case2 position c cs hb ih =>
    obtain ⟨ds, rest, rfl, hcut⟩ := ih h
    exact ⟨c :: ds, rest, rfl, hcut.blank hb⟩
  | case3 => cases h
  | case4 position c cs hb l hl ih =>
    obtain ⟨us, hs, hus⟩ := Outcome.map_eq_ok_iff.mp h
    cases before with
    | nil => exact ⟨[], c :: cs, rfl, resumes_nil options position⟩
    | cons t before =>
      obtain ⟨rfl, rfl⟩ := List.cons.inj hus
      obtain ⟨ds, rest, hrest, hcut⟩ := ih hs
      obtain ⟨kind, w, lrest, rfl, rfl⟩ := eq_of_lexeme hl
      simp only at hrest
      subst hrest
      exact ⟨c :: (w ++ ds), rest, by simp, hcut.token hl⟩

/-! ## The record of a scan -/

/-- The characters, from a position on and with `rest` after them, are read as the tokens, a blank or a lexeme
    at a time. -/
inductive Scanned (options : Options) (rest : List Char) : Nat → List Char → List Token → Prop
  | nil {position : Nat} : Scanned options rest position [] []
  | blank {position : Nat} {c : Char} {ds : List Char} {us : List Token} (hb : Text.isBlank c = true)
      (h : Scanned options rest (position + Text.width [c]) ds us) : Scanned options rest position (c :: ds) us
  | token {position : Nat} {kind : TokenKind} {c : Char} {w ds : List Char} {us : List Token}
      (hl : lexeme options position c (w ++ (ds ++ rest)) = .ok ⟨kind, c :: w, ds ++ rest⟩)
      (h : Scanned options rest (position + Text.width (c :: w)) ds us) :
      Scanned options rest position (c :: (w ++ ds)) (⟨kind, String.ofList (c :: w), position⟩ :: us)

theorem Scanned.resumes (h : Scanned options rest position ds us) : Resumes options position ds us := by
  induction h with
  | nil => exact resumes_nil options _
  | blank hb _ ih => exact ih.blank hb
  | token hl _ ih => exact ih.token hl

/-- **Scanning reads blanks and lexemes** and does nothing else. It succeeds at the end of the text, and it
    fails where no lexeme begins. -/
theorem scanTokens_scanned (options : Options) (position : Nat) (cs : List Char) :
    (∃ us, Scanned options [] position cs us ∧
      scanTokens options position cs = .ok (us ++ [⟨.eof, "", position + Text.width cs⟩])) ∨
    (∃ ds c rest us e, cs = ds ++ c :: rest ∧ Scanned options (c :: rest) position ds us ∧
      lexeme options (position + Text.width ds) c rest = .error e ∧
      scanTokens options position cs = .error e) := by
  -- On the recursion of scanning: at its end, at a blank, where no lexeme begins, and at a lexeme.
  fun_induction scanTokens options position cs with
  | case1 position => exact .inl ⟨[], .nil, rfl⟩
  | case2 position c cs hb ih =>
    rcases ih with ⟨us, hr, hscan⟩ | ⟨ds, d, rest, us, e, rfl, hr, hlex, hscan⟩
    · left
      refine ⟨us, .blank hb hr, ?_⟩
      rw [hscan, Text.add_width_singleton_add]
    · right
      refine ⟨c :: ds, d, rest, us, e, rfl, .blank hb hr, ?_, hscan⟩
      rwa [Text.add_width_singleton_add] at hlex
  | case3 position c cs hb e he =>
    right
    exact ⟨[], c, cs, [], e, rfl, .nil, he, rfl⟩
  | case4 position c cs hb l hl ih =>
    obtain ⟨kind, w, lrest, rfl, rfl⟩ := eq_of_lexeme hl
    simp only at ih
    rcases ih with ⟨us, hr, hscan⟩ | ⟨ds, d, rest, us, e, rfl, hr, hlex, hscan⟩
    · left
      refine ⟨⟨kind, String.ofList (c :: w), position⟩ :: us, .token ?_ hr, ?_⟩
      · rw [List.append_nil]
        exact hl
      · rw [hscan, Text.add_width_add]
        rfl
    · right
      refine ⟨c :: (w ++ ds), d, rest, ⟨kind, String.ofList (c :: w), position⟩ :: us, e, ?_,
        .token hl hr, ?_, ?_⟩
      · simp
      · rwa [Text.add_width_add] at hlex
      · rw [hscan]
        rfl

end ScimLdap.Filter
