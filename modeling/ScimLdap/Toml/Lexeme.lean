import ScimLdap.Decimal.Range
import ScimLdap.Text.Taken

/-!
# Lexemes of TOML

Keys and the four forms of string, as TOML 1.1 writes them. A character that no string may hold as it stands
is a control character other than the tab. A string of several lines drops a line end right after its
opening quotes, keeps the other ones as they are, and may end in up to two quotes of its own before the three
that close it.
-/

namespace ScimLdap.Toml

open Text (Taken)

def isBlank (c : Char) : Bool :=
  c == ' ' || c == '\t'

def isPlain (c : Char) : Bool :=
  (0x20 ≤ c.toNat && c.toNat != 0x7F) || c == '\t'

def isBareKeyChar (c : Char) : Bool :=
  c.isAlphanum || c == '-' || c == '_'

def skipBlanks (cs : List Char) : List Char :=
  cs.dropWhile isBlank

theorem length_skipBlanks_le (cs : List Char) : (skipBlanks cs).length ≤ cs.length :=
  Text.length_dropWhile_le isBlank cs

/-- A line end, and its characters. A string of several lines keeps them, so one with a carriage return is told
    from one without. -/
def lineEnd? : (cs : List Char) → Option (Taken cs (List Char))
  | '\n' :: cs => some (.one ['\n'] '\n' cs)
  | '\r' :: '\n' :: cs => some ⟨['\r', '\n'], cs, by simp only [List.length_cons]; omega⟩
  | _ => none

def skipLines : List Char → List Char
  | '\r' :: '\n' :: cs => skipLines cs
  | c :: cs => if isBlank c || c == '\n' then skipLines cs else c :: cs
  | [] => []

theorem length_skipLines_le (cs : List Char) : (skipLines cs).length ≤ cs.length := by
  fun_induction skipLines cs <;> grind

def skipGap (inComment : Bool) : List Char → List Char
  | [] => []
  | '\n' :: cs => skipGap false cs
  | '\r' :: '\n' :: cs => skipGap false cs
  | c :: cs =>
    if inComment && isPlain c then skipGap true cs
    else if c = '#' then skipGap true cs
    else if isBlank c then skipGap inComment cs
    else c :: cs

theorem length_skipGap_le (inComment : Bool) (cs : List Char) :
    (skipGap inComment cs).length ≤ cs.length := by
  fun_induction skipGap inComment cs <;> grind

/-! ## Strings -/

def digit? (base : Nat) (c : Char) : Option Nat :=
  let n :=
    if c.isDigit then c.toNat - 48
    else if 'a' ≤ c ∧ c ≤ 'f' then c.toNat - 87
    else if 'A' ≤ c ∧ c ≤ 'F' then c.toNat - 55
    else 16
  if n < base then some n else none

def ofDigits? (base : Nat) (digits : List Char) : Option Nat :=
  digits.foldlM (fun n d => (digit? base d).map (fun v => n * base + v)) 0

/-- The character with a code in hexadecimal digits, of which there are to be a given number. A half of a
    surrogate pair is no character, so an escape cannot bring one in. -/
def codeChar? (count : Nat) (cs : List Char) : Option Char := do
  let digits := cs.take count
  let code ← if digits.length = count then ofDigits? 16 digits else none
  if code.isValidChar then some (Char.ofNat code) else none

def escapeLetter? : Char → Option Char
  | 'b' => some '\x08'
  | 't' => some '\t'
  | 'n' => some '\n'
  | 'f' => some '\x0c'
  | 'r' => some '\r'
  | 'e' => some '\x1b'
  | '"' => some '"'
  | '\\' => some '\\'
  | _ => none

def codeLength? : Char → Option Nat
  | 'x' => some 2
  | 'u' => some 4
  | 'U' => some 8
  | _ => none

def escape? : (cs : List Char) → Option (Taken cs Char)
  | '\\' :: c :: cs =>
    match codeLength? c with
    | some count => (codeChar? count cs).map (⟨·, cs.drop count, by
      simp only [List.length_drop, List.length_cons]; omega⟩)
    | none => (escapeLetter? c).map (.two · '\\' c cs)
  | _ => none

def basicChars? : (cs : List Char) → Option (Taken cs (List Char))
  | [] => none
  | c :: cs =>
    if c = '"' then some (.one [] c cs)
    else do
      let t ← if c = '\\' then escape? (c :: cs) else if isPlain c then some (.one c c cs) else none
      have := t.shorter
      let u ← basicChars? t.rest
      return t.andThen (u.map (t.piece :: ·))
termination_by cs => cs.length
decreasing_by all_goals simp only [List.length_cons] at *; omega

def literalChars? : (cs : List Char) → Option (Taken cs (List Char))
  | [] => none
  | c :: cs =>
    if c = '\'' then some (.one [] c cs)
    else if isPlain c then
      (literalChars? cs).map (fun t => (Taken.one () c cs).andThen (t.map (c :: ·)))
    else none

/-- The quotes at the front of a text that stands in a string of several lines: those that belong to the string,
    and whether the string ends after them. Three quotes end a string, and two before those belong to it. -/
def closingQuotes (quote : Char) (cs : List Char) : Nat × Bool :=
  let run := (cs.takeWhile (· == quote)).length
  if run < 3 then (run, false) else (min run 5 - 3, true)

/-- A backslash at the end of a line, with the blanks and line ends after it. It joins the line to the next one
    that holds something. -/
def lineBreak? : (cs : List Char) → Option (Taken cs Unit)
  | '\\' :: cs =>
    if (lineEnd? (skipBlanks cs)).isSome then
      some ⟨(), skipLines cs, Nat.lt_succ_of_le (length_skipLines_le cs)⟩
    else none
  | _ => none

/-- What a string of several lines holds next, apart from quotes: a character, or nothing at a line that is
    broken by a backslash. -/
def blockChar? (escapes : Bool) (cs : List Char) : Option (Taken cs (List Char)) :=
  (lineEnd? cs).or <|
    match cs with
    | [] => none
    | c :: cs =>
      if escapes && c == '\\' then
        ((lineBreak? (c :: cs)).map (·.map (fun _ => []))).or ((escape? (c :: cs)).map (·.map ([·])))
      else if isPlain c then some (.one [c] c cs)
      else none

def blockChars? (quote : Char) (escapes : Bool) : (cs : List Char) → Option (Taken cs (List Char))
  | [] => none
  | c :: cs =>
    if c = quote then
      let q := closingQuotes quote (c :: cs)
      if q.2 then some ⟨List.replicate q.1 quote, (c :: cs).drop (q.1 + 3), by
        simp only [List.length_drop, List.length_cons]; omega⟩
      else (blockChars? quote escapes cs).map (fun u => (Taken.one () c cs).andThen (u.map (quote :: ·)))
    else do
      let t ← blockChar? escapes (c :: cs)
      have := t.shorter
      let u ← blockChars? quote escapes t.rest
      return t.andThen (u.map (t.piece ++ ·))
termination_by cs => cs.length
decreasing_by all_goals simp only [List.length_cons] at *; omega

def skipLineEnd (cs : List Char) : List Char :=
  match lineEnd? cs with
  | some t => t.rest
  | none => cs

theorem length_skipLineEnd_le (cs : List Char) : (skipLineEnd cs).length ≤ cs.length := by
  unfold skipLineEnd
  split
  · rename_i t _
    exact Nat.le_of_lt t.shorter
  · exact Nat.le_refl _

def block? (quote : Char) (escapes : Bool) (cs : List Char) : Option (Taken cs String) := do
  let t ← blockChars? quote escapes (skipLineEnd cs)
  return (t.map String.ofList).widen (length_skipLineEnd_le cs)

def line? : (cs : List Char) → Option (Taken cs String)
  | '"' :: cs => (basicChars? cs).map (fun t => (Taken.one () '"' cs).andThen (t.map String.ofList))
  | '\'' :: cs => (literalChars? cs).map (fun t => (Taken.one () '\'' cs).andThen (t.map String.ofList))
  | _ => none

def string? : (cs : List Char) → Option (Taken cs String)
  | '"' :: '"' :: '"' :: cs =>
    (block? '"' true cs).map (·.widen (by simp only [List.length_cons]; omega))
  | '\'' :: '\'' :: '\'' :: cs =>
    (block? '\'' false cs).map (·.widen (by simp only [List.length_cons]; omega))
  | cs => line? cs

/-! ## Keys -/

/-- One name of a key, in quotes or without. A name in quotes may hold anything that a string of one line may,
    the point among it. -/
def simpleKey? (cs : List Char) : Option (Taken cs String) :=
  (line? cs).or <|
    if h : cs.takeWhile isBareKeyChar ≠ [] then
      some ⟨String.ofList (cs.takeWhile isBareKeyChar), cs.dropWhile isBareKeyChar, by
        have hlen := congrArg List.length (List.takeWhile_append_dropWhile (p := isBareKeyChar) (l := cs))
        have := List.length_pos_iff.mpr h
        simp only [List.length_append] at hlen
        omega⟩
    else none

/-- A key: a way through tables, and the name at its end. -/
structure Key where
  front : List String
  last : String
  deriving DecidableEq, Repr, Inhabited

def Key.path (k : Key) : List String :=
  k.front ++ [k.last]

def dottedKey? (cs : List Char) : Option (Taken cs Key) := do
  let t ← simpleKey? cs
  match h : skipBlanks t.rest with
  | '.' :: rest =>
    have hrest : (skipBlanks rest).length < cs.length := by
      have h1 := length_skipBlanks_le t.rest
      have h2 := length_skipBlanks_le rest
      have h3 := t.shorter
      rw [h, List.length_cons] at h1
      omega
    let u ← dottedKey? (skipBlanks rest)
    return (u.map (fun k => { k with front := t.piece :: k.front })).widen (Nat.le_of_lt hrest)
  | _ => return t.map (⟨[], ·⟩)
termination_by cs.length

/-- The tables that the way of a key may not reach in number. -/
def keyLimit : Nat := 80

def key? (cs : List Char) : Option (Taken cs Key) := do
  let k ← dottedKey? cs
  if k.piece.front.length < keyLimit then some k else none

end ScimLdap.Toml
