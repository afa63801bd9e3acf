/-!
# JSON values

The values of RFC 8259. Numbers come in two kinds. A whole number that fits in 64 bits, signed or unsigned,
is an integer; every other number, `-0` and `1.0` among them, is kept as it is written, since no field of
this library takes one. Members of an object keep their order and may repeat a name: what a repetition means
is for the reader of a field to say.

A string may be written with half of a surrogate pair in it, and is no text then. It can only stand where
nobody looks at it, so it is a kind of value of its own, and so is an object with such a name in it.
-/

namespace ScimLdap

/-- A JSON value. Equality of texts decides equality of numbers that are no integers, so `1.0` and `1.00` are
    two values. -/
inductive Json where
  | null
  | bool (value : Bool)
  | integer (value : Int)
  | decimal (lexeme : String)
  | string (value : String)
  | broken
  | array (items : List Json)
  | object (members : List (String × Json))
  deriving Repr, Inhabited

namespace Json

def fields (name : String) (members : List (String × Json)) : List Json :=
  (members.filter (fun m => m.1 == name)).map Prod.snd

/-- The first member of an object with a given name, and none of any other value. -/
def field? (name : String) : Json → Option Json
  | object members => (members.find? (fun m => m.1 == name)).map Prod.snd
  | _ => none

def strings (items : List String) : Json :=
  array (items.map string)

def nat (n : Nat) : Json :=
  integer n

def ofText? : Option String → Json
  | none => null
  | some s => string s

mutual

/-- How deep arrays and objects stand in one another. A text is read down to a fixed depth only, so what goes
    deeper cannot be read back. -/
def depth : Json → Nat
  | array items => depthOfItems items + 1
  | object members => depthOfMembers members + 1
  | _ => 0

def depthOfItems : List Json → Nat
  | [] => 0
  | v :: vs => max (depth v) (depthOfItems vs)

def depthOfMembers : List (String × Json) → Nat
  | [] => 0
  | (_, v) :: ms => max (depth v) (depthOfMembers ms)

end

end Json

end ScimLdap
