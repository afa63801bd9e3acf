import ScimLdap.Toml.Lexeme
import ScimLdap.Toml.Value

/-!
# Bare — values without quotes

A bare value is a truth value, a number or a moment. How far it goes is settled before what it is: it is a
run of words, with points and blanks between them, because a moment may have a blank between its date and
its time.

What a run spells is then settled by how it begins. Of a number whose first digits are followed by an
underscore only the places of the underscores are looked at, and of one in another base only its digits. So
`1_0x` and `0b` are values, which may stand where nobody asks for them, but no number is made of them.
-/

namespace ScimLdap.Toml

open Text (Taken)

/-! ## The extent of a bare value -/

def isWordChar (c : Char) : Bool :=
  !(['.', '=', ',', '[', ']', '\x7b', '\x7d', ' ', '\t', '#', '\r', '\n'].contains c)

def isQuote (c : Char) : Bool :=
  c == '"' || c == '\''

/-- How many characters at the front of a text are in a run of words. Blanks are in it if a word or a point
    follows them; a quote is in it if it does not stand where a word begins. -/
def runLength (inWord : Bool) : List Char → Nat
  | [] => 0
  | c :: cs =>
    if isWordChar c && (inWord || !isQuote c) then runLength true cs + 1
    else if c = '.' then runLength false cs + 1
    else if isBlank c then
      match runLength false cs with
      | 0 => 0
      | n => n + 1
    else 0

/-! ## Numbers -/

/-- The characters of a number without its underscores. Each has to stand between two digits. -/
def withoutUnderscores? (isDigit : Char → Bool) : List Char → Option (List Char)
  | [] => some []
  | c :: '_' :: d :: cs =>
    if isDigit c && isDigit d then (withoutUnderscores? isDigit (d :: cs)).map (c :: ·) else none
  | c :: cs => if c = '_' ∨ cs = ['_'] then none else (withoutUnderscores? isDigit cs).map (c :: ·)

/-- The same for what follows the sign of a number, if it has one. Right after a sign an underscore may
    stand. -/
def digitsAfter? (isDigit : Char → Bool) (sign : Option Char) (cs : List Char) : Option (List Char) :=
  match sign, cs with
  | some _, '_' :: d :: cs => if isDigit d then withoutUnderscores? isDigit (d :: cs) else none
  | _, cs => withoutUnderscores? isDigit cs

def isBaseDigit (c : Char) : Bool :=
  (digit? 16 c).isSome

/-- A number from its sign and its digits in a base. Where they are not digits of that base it is kept as it is
    written: such a number may stand in a document, as long as no setting asks for it. -/
def ofNumeral (base : Nat) (sign : Option Char) (digits : List Char) : Value :=
  match digits, ofDigits? base digits with
  | _ :: _, some n => .integer (if sign = some '-' then -(n : Int) else n)
  | _, _ => .numeral (String.ofList (sign.toList ++ digits))

def inBase? (base : Nat) (cs : List Char) : Option Value :=
  if cs.all (fun c => c = '_' || (digit? base c).isSome) then
    (withoutUnderscores? isBaseDigit cs).map (ofNumeral base none)
  else none

def isPartChar (c : Char) : Bool :=
  c.isDigit || c == '_'

/-- The rest of a text after a part of a number at its front, which needs a digit. With several digits it may
    begin with a zero only where that is said. -/
def afterPart? (zeroFirst : Bool) (cs : List Char) : Option (List Char) :=
  let part := cs.takeWhile isPartChar
  let digits := part.countP Char.isDigit
  if digits = 0 ∨ (zeroFirst = false ∧ 1 < digits ∧ part.head? = some '0') then none
  else some (cs.dropWhile isPartChar)

def afterFraction? : List Char → Option (List Char)
  | '.' :: cs => afterPart? true cs
  | cs => some cs

def afterExponent? : List Char → Option (List Char)
  | [] => some []
  | c :: cs =>
    if c = 'e' ∨ c = 'E' then
      match cs with
      | '+' :: cs => afterPart? true cs
      | '-' :: cs => afterPart? true cs
      | cs => afterPart? true cs
    else some (c :: cs)

/-- Whether a text is a number with a fraction or an exponent, apart from the places of its underscores. -/
def isDecimal (cs : List Char) : Bool :=
  (((afterPart? false cs).bind afterFraction?).bind afterExponent?) == some []

def hasDecimalMark (cs : List Char) : Bool :=
  cs.any (fun c => c == '.' || c == 'e' || c == 'E')

/-- A number in tens or a moment, from after its sign if it has one. Which of the two it is shows at the first
    character that is no digit, and a moment has no sign. -/
def number? (sign : Option Char) (cs : List Char) : Option Value :=
  let rest := cs.dropWhile Char.isDigit
  let startsWrong := cs = [] ∨ (cs.head? = some '0' ∧ cs ≠ ['0'])
  if rest.head? = some '-' ∨ rest.head? = some ':' then
    if sign.isSome then none else (Moment.ofChars? cs).map .moment
  else if hasDecimalMark rest then
    if isDecimal cs then
      (digitsAfter? Char.isDigit sign cs).map (fun ds => .numeral (String.ofList (sign.toList ++ ds)))
    else none
  else if rest = [] ∨ rest.head? = some '_' then
    if startsWrong then none else (digitsAfter? isBaseDigit sign cs).map (ofNumeral 10 sign)
  else none

/-! ## Values -/

def isNamedNumber (cs : List Char) : Bool :=
  cs == "inf".toList || cs == "nan".toList

def signed? (sign : Option Char) (cs : List Char) : Option Value :=
  if isNamedNumber cs then some (.numeral (String.ofList (sign.toList ++ cs))) else number? sign cs

/-- The value that a run of words spells. Only a number without a sign may have a base other than ten. -/
def bareValue? (cs : List Char) : Option Value :=
  if cs = "true".toList then some (.boolean true)
  else if cs = "false".toList then some (.boolean false)
  else match cs with
  | '+' :: cs => signed? (some '+') cs
  | '-' :: cs => signed? (some '-') cs
  | '0' :: 'x' :: cs => inBase? 16 cs
  | '0' :: 'o' :: cs => inBase? 8 cs
  | '0' :: 'b' :: cs => inBase? 2 cs
  | cs => signed? none cs

def bare? : (cs : List Char) → Option (Taken cs Value)
  | [] => none
  | c :: cs =>
    let n := runLength false (c :: cs)
    if h : n ≠ 0 then
      (bareValue? ((c :: cs).take n)).map (⟨·, (c :: cs).drop n, by
        simp only [List.length_drop, List.length_cons]
        omega⟩)
    else none

end ScimLdap.Toml
