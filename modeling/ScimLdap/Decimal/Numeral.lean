import ScimLdap.Decimal.Range

/-!
# Numeral — a number as it is written

A numeral is a sign, digits, a fraction and an exponent, of which only the first digits must be there. It
is kept as written, so `007` and `1e3` reach the directory unchanged; `scan` takes the longest one from the
front of a text, and `chars_scan` says that it takes characters off and does nothing else to them.

A point belongs to the numeral only when a digit follows it, because the point is also a separator of the
filter language. An exponent mark always belongs to it, and then its digits may be missing: that is the one
way in which a numeral is malformed.
-/

namespace ScimLdap.Decimal

/-- The exponent part: its mark, a sign, digits. The digits may be missing, since a mark always belongs to the
    numeral before it; a numeral with such an exponent is malformed. -/
structure Exponent where
  mark : Char
  sign : List Char
  digits : List Char
  deriving DecidableEq, Repr

/-- The parts of a number as they are written; an absent part is empty. Nothing is said of the value here, so
    `1e3`, `1000` and `1000.0` are three different numerals. -/
structure Numeral where
  sign : List Char
  whole : List Char
  fraction : List Char
  exponent : Option Exponent
  deriving DecidableEq, Repr

namespace Numeral

def fractionChars : List Char → List Char
  | [] => []
  | ds => '.' :: ds

def exponentChars : Option Exponent → List Char
  | none => []
  | some e => e.mark :: (e.sign ++ e.digits)

def chars (n : Numeral) : List Char :=
  n.sign ++ n.whole ++ fractionChars n.fraction ++ exponentChars n.exponent

def scanSign : List Char → List Char × List Char
  | '-' :: cs => (['-'], cs)
  | '+' :: cs => (['+'], cs)
  | cs => ([], cs)

def scanDigits (cs : List Char) : List Char × List Char :=
  (cs.takeWhile Char.isDigit, cs.dropWhile Char.isDigit)

/-- The digits of a fraction at the front, and the rest. A point without a digit stays where it is: it may
    separate what follows. -/
def scanFraction : List Char → List Char × List Char
  | '.' :: cs => if (scanDigits cs).1.isEmpty then ([], '.' :: cs) else scanDigits cs
  | cs => ([], cs)

def isExponentMark (c : Char) : Bool :=
  c == 'e' || c == 'E'

def scanExponent : List Char → Option Exponent × List Char
  | c :: cs =>
    if isExponentMark c then
      let sign := scanSign cs
      let digits := scanDigits sign.2
      (some ⟨c, sign.1, digits.1⟩, digits.2)
    else (none, c :: cs)
  | [] => (none, [])

/-- The longest numeral at the front of a text, and the rest of the text. Each part takes what it can from where
    the one before it stopped, and none of them looks back. -/
def scan (cs : List Char) : Numeral × List Char :=
  let sign := scanSign cs
  let whole := scanDigits sign.2
  let fraction := scanFraction whole.2
  let exponent := scanExponent fraction.2
  (⟨sign.1, whole.1, fraction.1, exponent.1⟩, exponent.2)

/-- Whether an exponent mark stands without digits. -/
def isMalformed (n : Numeral) : Bool :=
  n.exponent.any (fun e => e.digits.isEmpty)

/-- The value of the exponent part; zero when there is none. -/
def exponentValue : Option Exponent → Int
  | none => 0
  | some e => if e.sign = ['-'] then -(ofDigits e.digits : Int) else ofDigits e.digits

/-- The power of ten by which the digits of the numeral, read as a whole number, are to be multiplied. Each
    digit of the fraction counts the exponent down by one. -/
def scale (n : Numeral) : Int :=
  exponentValue n.exponent - n.fraction.length

/-- Whether a 64-bit float can hold the number. The sign does not matter, and a number too close to zero is held
    as zero. -/
def isFinite (n : Numeral) : Bool :=
  inRange (n.whole ++ n.fraction) n.scale

/-! ## Scanning loses nothing -/

theorem append_scanSign (cs : List Char) : (scanSign cs).1 ++ (scanSign cs).2 = cs := by
  unfold scanSign; split <;> rfl

theorem append_scanDigits (cs : List Char) : (scanDigits cs).1 ++ (scanDigits cs).2 = cs :=
  List.takeWhile_append_dropWhile

theorem append_scanFraction (cs : List Char) :
    fractionChars (scanFraction cs).1 ++ (scanFraction cs).2 = cs := by
  unfold scanFraction
  split
  · rename_i ds
    split
    · rfl
    · rename_i h
      have := append_scanDigits ds
      cases hd : (scanDigits ds).1 with
      | nil => simp [hd] at h
      | cons d r => rw [hd] at this; simpa [fractionChars] using this
  · rfl

theorem append_scanExponent (cs : List Char) :
    exponentChars (scanExponent cs).1 ++ (scanExponent cs).2 = cs := by
  cases cs with
  | nil => rfl
  | cons c r =>
    simp only [scanExponent]
    split
    · simp [exponentChars, append_scanDigits, append_scanSign]
    · rfl

theorem chars_scan (cs : List Char) : (scan cs).1.chars ++ (scan cs).2 = cs := by
  simp only [scan, chars, List.append_assoc, append_scanExponent, append_scanFraction,
    append_scanDigits, append_scanSign]

/-- Scanning goes on from a shorter text when there are digits; the lexer ends for this reason. -/
theorem length_scan_lt {cs : List Char} (h : (scan cs).1.whole ≠ []) :
    (scan cs).2.length < cs.length := by
  have hscan := congrArg List.length (chars_scan cs)
  have hpos := List.length_pos_iff.mpr h
  simp only [chars, List.length_append] at hscan
  omega

end Numeral

end ScimLdap.Decimal
