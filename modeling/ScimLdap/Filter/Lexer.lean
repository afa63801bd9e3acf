import ScimLdap.Decimal.Numeral
import ScimLdap.Filter.Token
import ScimLdap.Text.Blank
import ScimLdap.Text.Width

/-!
# The lexer — a filter text as tokens

At each place that is no blank, one lexeme is taken off the front of the text: a sign of punctuation, a
quoted string, a number, or a word. Each takes as much as it can, and the text is given up at the first
place where none fits. `lexeme_append` is the fact on which everything else stands: a lexeme is a front part
of the text and is not empty, so reading comes to an end and no character is lost.
-/

namespace ScimLdap.Filter

open Decimal (Numeral)

/-- A lexeme at the front of a text: what it is, its characters, and the text after it. The characters are kept
    beside the kind because a position counts what was written and not what it stands for. -/
structure Lexeme where
  kind : TokenKind
  chars : List Char
  rest : List Char
  deriving DecidableEq, Repr

/-! ## Strings -/

def unescape? : Char → Option Char
  | '"' => some '"'
  | '\\' => some '\\'
  | 'n' => some '\n'
  | 't' => some '\t'
  | 'r' => some '\r'
  | _ => none

/-- A string literal without its opening quote: the characters it stands for, those it is written with up to the
    closing quote, and the text after it. -/
structure Quoted where
  value : List Char
  chars : List Char
  rest : List Char
  deriving DecidableEq, Repr

def Quoted.push (c : Char) (written : List Char) (q : Quoted) : Quoted :=
  { q with value := c :: q.value, chars := written ++ q.chars }

/-- A string literal from the character after its opening quote, which stands at `start`. A literal that is not
    closed is reported where it opens, a wrong escape at its backslash; a text that ends behind a backslash has
    a wrong escape. -/
def scanString (start position : Nat) : List Char → Except SyntaxError Quoted
  | [] => .error ⟨.unterminatedString, start, none⟩
  | '"' :: cs => .ok ⟨[], ['"'], cs⟩
  | ['\\'] => .error ⟨.invalidEscape, position, none⟩
  | '\\' :: e :: cs =>
    match unescape? e with
    | none => .error ⟨.invalidEscape, position, none⟩
    | some c => (scanString start (position + Text.width ['\\', e]) cs).map (Quoted.push c ['\\', e])
  | c :: cs => (scanString start (position + Text.width [c]) cs).map (Quoted.push c [c])

/-! ## Lexemes -/

/-- The characters of a word after its first, which is a letter. The point and the colon are not among them, so
    a path with a sub-attribute is three lexemes and never one. -/
def isWordChar (c : Char) : Bool :=
  c.isAlphanum || c == '_' || c == '-'

def punctuation? : Char → Option TokenKind
  | '(' => some .openParen
  | ')' => some .closeParen
  | ':' => some .colon
  | '.' => some .dot
  | _ => none

/-- Whether a number begins here: with a digit, or with a sign that a digit follows. A sign alone begins
    nothing. -/
def startsNumeral (c : Char) (cs : List Char) : Bool :=
  c.isDigit || ((c == '-' || c == '+') && (cs.take 1).any Char.isDigit)

def stringLexeme (position : Nat) (cs : List Char) : Except SyntaxError Lexeme :=
  (scanString position (position + Text.width ['"']) cs).map fun q =>
    ⟨.string (String.ofList q.value), '"' :: q.chars, q.rest⟩

/-- A number, refused as a whole when its exponent has no digits or when it is too large. It has been read to
    its end by then, so the complaint can show all of it. -/
def numberLexeme (position : Nat) (cs : List Char) : Except SyntaxError Lexeme :=
  let (n, rest) := Numeral.scan cs
  let text := String.ofList n.chars
  if n.isMalformed then .error ⟨.invalidNumber text, position, some text⟩
  else if n.isFinite then .ok ⟨.number text, n.chars, rest⟩
  else .error ⟨.numberOutOfRange text, position, some text⟩

def wordLexeme (options : Options) (c : Char) (cs : List Char) : Lexeme :=
  let chars := c :: cs.takeWhile isWordChar
  ⟨.ofWord options (String.ofList chars), chars, cs.dropWhile isWordChar⟩

def lexeme (options : Options) (position : Nat) (c : Char) (cs : List Char) :
    Except SyntaxError Lexeme :=
  match punctuation? c with
  | some kind => .ok ⟨kind, [c], cs⟩
  | none =>
    if c = '"' then stringLexeme position cs
    else if startsNumeral c cs then numberLexeme position (c :: cs)
    else if c.isAlpha then .ok (wordLexeme options c cs)
    else .error ⟨.unexpectedCharacter c, position, some (String.singleton c)⟩

/-! ## A lexeme is a front part of the text -/

theorem scanString_append {start position : Nat} {cs : List Char} {q : Quoted}
    (h : scanString start position cs = .ok q) : q.chars ++ q.rest = cs := by
  fun_induction scanString start position cs generalizing q with
  | case1 | case3 | case4 => cases h
  | case2 => cases h; rfl
  | case5 position e cs c he ih =>
    cases hs : scanString start (position + Text.width ['\\', e]) cs with
    | error err => rw [hs] at h; cases h
    | ok r => rw [hs] at h; cases h; simp [Quoted.push, ih hs]
  | case6 position c cs h1 h2 h3 ih =>
    cases hs : scanString start (position + Text.width [c]) cs with
    | error err => rw [hs] at h; cases h
    | ok r => rw [hs] at h; cases h; simp [Quoted.push, ih hs]

/-- The characters of a lexeme and the text after it are the text, and there is at least one. -/
theorem lexeme_append {options : Options} {position : Nat} {c : Char} {cs : List Char} {l : Lexeme}
    (h : lexeme options position c cs = .ok l) : l.chars ++ l.rest = c :: cs ∧ l.chars ≠ [] := by
  unfold lexeme at h
  split at h
  · cases h; simp
  split at h
  · rename_i hc
    unfold stringLexeme at h
    cases hs : scanString position (position + Text.width ['"']) cs with
    | error e => rw [hs] at h; cases h
    | ok q => rw [hs] at h; cases h; simp [scanString_append hs, hc]
  split at h
  · rename_i hn
    have hscan := Numeral.chars_scan (c :: cs)
    simp only [numberLexeme] at h
    split at h
    · cases h
    split at h
    · cases h
      refine ⟨hscan, fun hnil => ?_⟩
      have hrest : (Numeral.scan (c :: cs)).2 = c :: cs := by
        simpa only [show (Numeral.scan (c :: cs)).1.chars = [] from hnil, List.nil_append] using hscan
      simp only [Numeral.chars, List.append_eq_nil_iff] at hnil
      obtain ⟨⟨⟨hsign, hwhole⟩, _⟩, _⟩ := hnil
      simp only [startsNumeral, Bool.or_eq_true, Bool.and_eq_true, beq_iff_eq] at hn
      rcases hn with hd | ⟨hs, _⟩
      · have h1 : (Numeral.scanSign (c :: cs)).2 = c :: cs := by
          have := Numeral.append_scanSign (c :: cs)
          rwa [show (Numeral.scanSign (c :: cs)).1 = [] from hsign, List.nil_append] at this
        have h2 : (Numeral.scanDigits (Numeral.scanSign (c :: cs)).2).1 = [] := hwhole
        rw [h1] at h2
        simp [Numeral.scanDigits, hd] at h2
      · have h3 : (Numeral.scanSign (c :: cs)).1 = [] := hsign
        rcases hs with rfl | rfl <;> simp [Numeral.scanSign] at h3
    · cases h
  split at h
  · cases h; simp [wordLexeme]
  · cases h

theorem lexeme_rest_length {options : Options} {position : Nat} {c : Char} {cs : List Char} {l : Lexeme}
    (h : lexeme options position c cs = .ok l) : l.rest.length < (c :: cs).length := by
  have ⟨happ, hne⟩ := lexeme_append h
  have := congrArg List.length happ
  have := List.length_pos_iff.mpr hne
  simp only [List.length_append] at *
  omega

/-! ## Tokens -/

/-- The tokens of a text that starts at a position; the last one marks the end. A position counts bytes of
    UTF-8, and so does the width of what is passed over. -/
def scanTokens (options : Options) (position : Nat) : List Char → Except SyntaxError (List Token)
  | [] => .ok [⟨.eof, "", position⟩]
  | c :: cs =>
    if Text.isBlank c then scanTokens options (position + Text.width [c]) cs
    else match _h : lexeme options position c cs with
      | .error e => .error e
      | .ok l =>
        (scanTokens options (position + Text.width l.chars) l.rest).map
          (⟨l.kind, String.ofList l.chars, position⟩ :: ·)
termination_by cs => cs.length
decreasing_by
  · simp
  · exact lexeme_rest_length _h

/-- The tokens of a filter text, or why it has none. A text beyond the limit is not looked at. -/
def tokenize (options : Options) (text : String) : Except SyntaxError (List Token) :=
  if options.maxLength < text.utf8ByteSize then
    .error ⟨.tooLong text.utf8ByteSize options.maxLength, 0, none⟩
  else scanTokens options 0 text.toList

end ScimLdap.Filter
