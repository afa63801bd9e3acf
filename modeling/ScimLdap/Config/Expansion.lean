import ScimLdap.Text.Split
import ScimLdap.Text.Taken

/-!
# References to variables

A configuration text may refer to variables of the environment as `${NAME}`. The references of a line are
found from left to right without overlap, a name being one or more characters up to the next closing brace;
one that starts at the first `#` of its line or after it is a comment and stays as it is.

A text is taken apart into characters and references first, and only then are values put in. So what a
variable holds is not looked at again: it can bring in neither references nor comments. Lines come out with
a single character at their end, also where they went in with two.
-/

namespace ScimLdap.Config

open Text (Taken)

/-- A piece of a configuration text: a character that stands for itself, or a reference to a variable by its
    name. -/
inductive Part where
  | char (c : Char)
  | reference (name : String)
  deriving DecidableEq, Repr, Inhabited

namespace Part

def name? : Part → Option String
  | char _ => none
  | reference name => some name

def expand (value : String → Option String) : Part → Except String (List Char)
  | char c => .ok [c]
  | reference name =>
    match value name with
    | some v => .ok v.toList
    | none => .error name

end Part

/-- The name of a reference, from its dollar sign on. A name is everything up to the next closing brace; an
    empty name and a brace that is not closed make no reference, and then the characters stand for
    themselves. -/
def reference? : (cs : List Char) → Option (Taken cs String)
  | '$' :: '\x7b' :: cs =>
    match cs.takeWhile (· != '\x7d'), _h : cs.dropWhile (· != '\x7d') with
    | [], _ => none
    | name, _ :: rest => some ⟨String.ofList name, rest, by
        have hle := Text.length_dropWhile_le (· != '\x7d') cs
        rw [_h, List.length_cons] at hle
        simp only [List.length_cons]
        omega⟩
    | _, [] => none
  | _ => none

/-- The pieces of a line. A comment begins at the first `#`, also at one in the name of a reference: the
    reference is still a reference, and what follows it is a comment. -/
def lineParts : List Char → List Part
  | [] => []
  | c :: cs =>
    if c = '#' then (c :: cs).map .char
    else match reference? (c :: cs) with
      | none => .char c :: lineParts cs
      | some r =>
        have := r.shorter
        .reference r.piece ::
          if r.piece.toList.contains '#' then r.rest.map .char else lineParts r.rest
termination_by cs => cs.length
decreasing_by all_goals simp only [List.length_cons] at *; omega

def withoutReturn (line : List Char) : List Char :=
  if line.getLast? = some '\r' then line.dropLast else line

/-- The pieces of lines of which all but the last have an end. Every end is one line feed, whether or not a
    carriage return stood in front of it. -/
def linesParts : List (List Char) → List Part
  | [] => []
  | [last] => lineParts last
  | line :: lines => lineParts (withoutReturn line) ++ .char '\n' :: linesParts lines

def parts (text : String) : List Part :=
  linesParts (Text.splitOn (· == '\n') text.toList)

def references (text : String) : List String :=
  (parts text).filterMap Part.name?

/-- A text with the values of variables in place of its references, or the name of the first variable that has
    no value. -/
def expand (value : String → Option String) (text : String) : Except String String :=
  ((parts text).mapM (Part.expand value)).map (fun pieces => String.ofList pieces.flatten)

end ScimLdap.Config
