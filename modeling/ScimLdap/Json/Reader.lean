import ScimLdap.Json.Token

/-!
# Reading JSON

A text is one value with blanks around it. Reading is a machine over lexemes: the arrays and objects that
are open, innermost first, and what may come next. It takes one lexeme at a time and gives up at the first
that may not come.
-/

namespace ScimLdap.Json

/-- An array or object that is open, with what has been read of it, latest first. An object also has the name of
    the member that is being read, which is none from the first broken name on. -/
inductive Frame where
  | items (before : List Json)
  | members (before : List (String × Json)) (name : Option String)
  deriving Repr, Inhabited

/-- What may come next. A closing bracket may follow an opening one or a value but no comma, so there are two
    places for a value and two for a name. -/
inductive Due where
  | value
  | valueOrClose
  | name
  | nameOrClose
  | colon
  | separator
  | nothing (value : Json)
  deriving Repr, Inhabited

structure ReaderState where
  frames : List Frame := []
  due : Due := .value
  deriving Repr, Inhabited

namespace ReaderState

/-- The state after a value that stands in the given frames. A member without a name is dropped, since the
    object it stands in is broken anyhow. -/
def complete (v : Json) : List Frame → ReaderState
  | [] => ⟨[], .nothing v⟩
  | .items before :: frames => ⟨.items (v :: before) :: frames, .separator⟩
  | .members before (some name) :: frames =>
    ⟨.members ((name, v) :: before) (some name) :: frames, .separator⟩
  | .members before none :: frames => ⟨.members before none :: frames, .separator⟩

def close? (frames : List Frame) : Token → Option ReaderState
  | .closeArray =>
    match frames with
    | .items before :: outer => some (complete (.array before.reverse) outer)
    | _ => none
  | .closeObject =>
    match frames with
    | .members before (some _) :: outer => some (complete (.object before.reverse) outer)
    | .members _ none :: outer => some (complete .broken outer)
    | _ => none
  | _ => none

def begin? (frames : List Frame) : Token → Option ReaderState
  | .scalar v => some (complete v frames)
  | .openArray => some ⟨.items [] :: frames, .valueOrClose⟩
  | .openObject => some ⟨.members [] (some "") :: frames, .nameOrClose⟩
  | _ => none

/-- The state after the name of a member. A broken name breaks the object for good, which shows when the object
    is closed. -/
def named? (frames : List Frame) : Token → Option ReaderState
  | .scalar (.string name) =>
    match frames with
    | .members before last :: outer => some ⟨.members before (last.map (fun _ => name)) :: outer, .colon⟩
    | _ => none
  | .scalar .broken =>
    match frames with
    | .members before _ :: outer => some ⟨.members before none :: outer, .colon⟩
    | _ => none
  | _ => none

def step? (s : ReaderState) (t : Token) : Option ReaderState :=
  match s.due with
  | .value => begin? s.frames t
  | .valueOrClose => (begin? s.frames t).or (close? s.frames t)
  | .name => named? s.frames t
  | .nameOrClose => (named? s.frames t).or (close? s.frames t)
  | .colon => match t with
    | .colon => some { s with due := .value }
    | _ => none
  | .separator => match t, s.frames with
    | .comma, .items _ :: _ => some { s with due := .value }
    | .comma, .members _ _ :: _ => some { s with due := .name }
    | _, _ => close? s.frames t
  | .nothing _ => none

def run? (s : ReaderState) : List Token → Option Json
  | [] => match s.due with
    | .nothing v => some v
    | _ => none
  | t :: ts => (s.step? t).bind (fun s' => run? s' ts)

end ReaderState

def read? (text : String) : Option Json :=
  (Token.ofChars? text.toList).bind (ReaderState.run? {})

end ScimLdap.Json
