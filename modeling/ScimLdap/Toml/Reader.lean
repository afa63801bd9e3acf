import ScimLdap.Toml.Bare
import ScimLdap.Toml.Node

/-!
# Reading TOML

A document is a list of statements, one a line at least: headers, which open tables, and values under keys.
`Statement.ofChars?` reads them, and `Statement.build?` makes of them the one table that the document
spells.
-/

namespace ScimLdap.Toml

open Text (Taken)

/-- The rest of a text after what may stand between the parts of an assignment: within a table in braces also
    line ends and comments. -/
def skip (inBraces : Bool) (cs : List Char) : List Char :=
  if inBraces then skipGap false cs else skipBlanks cs

theorem length_skip_le (inBraces : Bool) (cs : List Char) : (skip inBraces cs).length ≤ cs.length := by
  unfold skip
  split
  · exact length_skipGap_le false cs
  · exact length_skipBlanks_le cs

def assignment? (inBraces : Bool) (cs : List Char) : Option (Taken cs Unit) :=
  match h : skip inBraces cs with
  | '=' :: rest => some ⟨(), skip inBraces rest, by
      have h1 := length_skip_le inBraces cs
      have h2 := length_skip_le inBraces rest
      rw [h, List.length_cons] at h1
      omega⟩
  | _ => none

/-- How deep lists and tables in braces may stand in each other. The bound keeps a document from asking for more
    nesting than a reader that calls itself could follow. -/
def nestingLimit : Nat := 80

mutual

/-- A value, in which lists and tables in braces stand in each other no deeper than a given number. -/
def value? (depth : Nat) (cs : List Char) : Option (Taken cs Value) :=
  match cs with
  | '[' :: cs => do
    have h := length_skipGap_le false cs
    let t ← if depth = 0 then none else items? (depth - 1) (skipGap false cs)
    return (t.map .array).widen (Nat.le_succ_of_le h)
  | '\x7b' :: cs => do
    have h := length_skipGap_le false cs
    let t ← if depth = 0 then none else members? (depth - 1) [] (skipGap false cs)
    return (t.map (fun entries => .table (Node.toEntries entries))).widen (Nat.le_succ_of_le h)
  | cs => ((string? cs).map (·.map .string)).or (bare? cs)
termination_by (cs.length, 0)

def items? (depth : Nat) (cs : List Char) : Option (Taken cs (List Value)) :=
  match cs with
  | ']' :: cs => some (.one [] ']' cs)
  | cs => do
    let t ← value? depth cs
    have ht := t.shorter
    have hgap := length_skipGap_le false t.rest
    match h : skipGap false t.rest with
    | ',' :: rest =>
      have hrest := length_skipGap_le false rest
      have hlen : rest.length + 1 ≤ t.rest.length := by rwa [h, List.length_cons] at hgap
      let u ← items? depth (skipGap false rest)
      return (u.map (t.piece :: ·)).widen (by omega)
    | ']' :: rest => return ⟨[t.piece], rest, by rw [h, List.length_cons] at hgap; omega⟩
    | _ => none
termination_by (cs.length, 1)

/-- The keys and values of a table up to its closing brace, put into the ones read before. -/
def members? (depth : Nat) (entries : Node.Entries) (cs : List Char) :
    Option (Taken cs Node.Entries) :=
  match cs with
  | '\x7d' :: cs => some (.one entries '\x7d' cs)
  | cs => do
    let k ← key? cs
    have hk := k.shorter
    let a ← assignment? true k.rest
    have ha := a.shorter
    let t ← value? depth a.rest
    have ht := t.shorter
    let entries ← Node.assign k.piece.front k.piece.last t.piece entries
    have hgap := length_skipGap_le false t.rest
    match h : skipGap false t.rest with
    | ',' :: rest =>
      have hrest := length_skipGap_le false rest
      have hlen : rest.length + 1 ≤ t.rest.length := by rwa [h, List.length_cons] at hgap
      let u ← members? depth entries (skipGap false rest)
      return u.widen (by omega)
    | '\x7d' :: rest => return ⟨entries, rest, by rw [h, List.length_cons] at hgap; omega⟩
    | _ => none
termination_by (cs.length, 1)

end

inductive Statement where
  | openTable (key : Key)
  | openItem (key : Key)
  | assign (key : Key) (value : Value)
  deriving Repr, Inhabited

namespace Statement

def header? (cs : List Char) : Option (Taken cs Key) := do
  have h := length_skipBlanks_le cs
  let k ← key? (skipBlanks cs)
  have hk := k.shorter
  have h' := length_skipBlanks_le k.rest
  match hb : skipBlanks k.rest with
  | ']' :: rest => return ⟨k.piece, rest, by rw [hb, List.length_cons] at h'; omega⟩
  | _ => none

def take? : (cs : List Char) → Option (Taken cs Statement)
  | '[' :: '[' :: cs => do
    let k ← header? cs
    have hk := k.shorter
    match h : k.rest with
    | ']' :: rest => return ⟨openItem k.piece, rest, by
        rw [h, List.length_cons] at hk
        simp only [List.length_cons]
        omega⟩
    | _ => none
  | '[' :: cs => do
    let k ← header? cs
    return (k.map openTable).widen (Nat.le_succ _)
  | cs => do
    let k ← key? cs
    let a ← assignment? false k.rest
    let t ← value? nestingLimit a.rest
    return k.andThen (a.andThen (t.map (assign k.piece)))

/-- Whether a line may end here: after blanks, and a comment if there is one. -/
def endsLine (cs : List Char) : Bool :=
  let rest := match skipBlanks cs with
    | '#' :: cs => cs.dropWhile isPlain
    | cs => cs
  rest.isEmpty || (lineEnd? rest).isSome

def ofChars? (cs : List Char) : Option (List Statement) :=
  match h : skipGap false cs with
  | [] => some []
  | c :: rest => do
    let t ← take? (c :: rest)
    have ht := t.shorter
    have hgap := length_skipGap_le false cs
    have : t.rest.length < cs.length := by rw [h] at hgap; omega
    if endsLine t.rest then return t.piece :: (← ofChars? t.rest) else none
termination_by cs.length

/-- The tables that a document has spelled so far, and the path of the table that is open. -/
structure Progress where
  entries : Node.Entries := []
  here : List String := []

def after? (p : Progress) : Statement → Option Progress
  | openTable key => do
    return ⟨← Node.within (Node.update key.last Node.openTable) key.front p.entries, key.path⟩
  | openItem key => do
    return ⟨← Node.within (Node.update key.last Node.openItem) key.front p.entries, key.path⟩
  | assign key v => do
    return { p with entries := ← Node.within (Node.assign key.front key.last v) p.here p.entries }

def build? (statements : List Statement) : Option Entries := do
  return Node.toEntries (← statements.foldlM after? {}).entries

end Statement

/-- The table that a document spells. A byte order mark in front is passed over. -/
def read? (text : String) : Option Entries := do
  let cs := match text.toList with
    | '\ufeff' :: cs => cs
    | cs => cs
  Statement.build? (← Statement.ofChars? cs)

end ScimLdap.Toml
