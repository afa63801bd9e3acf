import ScimLdap.Decimal.Integer
import ScimLdap.Decimal.Numeral
import ScimLdap.Json.Basic

/-!
# Fields — records in JSON

A record is read from an object or from an array of its fields in order. In an object the members may come
in any order, members of other names are passed over, and a field that is there twice is an error. In an
array fields may be missing at the end, and there may be none too many. Either way a reader gets, for each
field, its value or nothing, and decides what nothing means: an optional field may be absent or `null`.
-/

namespace ScimLdap.Wire

/-- The value of each field, in the order of the names. A name that an object has twice is an error even where
    the two values agree. -/
def fields? (names : List String) : Json → Option (List (Option Json))
  | .object members =>
    names.mapM fun name =>
      match Json.fields name members with
      | [] => some none
      | [v] => some (some v)
      | _ => none
  | .array items =>
    if items.length ≤ names.length then
      some (items.map some ++ List.replicate (names.length - items.length) none)
    else none
  | _ => none

def required {α : Type} (read : Json → Option α) (v : Option Json) : Option α :=
  v.bind read

/-- The value of a field that may be absent or `null`. A value that is there and cannot be read is an error. -/
def optional {α : Type} (read : Json → Option α) : Option Json → Option (Option α)
  | none => some none
  | some .null => some none
  | some v => (read v).map some

def text? : Json → Option String
  | .string s => some s
  | _ => none

def texts? : Json → Option (List String)
  | .array items => items.mapM text?
  | _ => none

def int64? : Json → Option Int64
  | .integer n => Decimal.word? n
  | _ => none

def nat64? : Json → Option Nat
  | .integer n => if 0 ≤ n ∧ n < UInt64.size then some n.toNat else none
  | _ => none

/-- One of some names: as a text, or as an object whose only member has the name and holds `null`. -/
def choice? {α : Type} (name : α → String) (all : List α) : Json → Option α
  | .string s => all.find? (fun a => name a == s)
  | .object [(s, .null)] => all.find? (fun a => name a == s)
  | _ => none

/-- A member for an optional field, left out when there is no value. -/
def member {α : Type} (name : String) (write : α → Json) : Option α → List (String × Json)
  | none => []
  | some a => [(name, write a)]

/-- The greatest nesting that is read. -/
def maxNesting : Nat := 127

mutual

/-- Whether a value is sound: every number that is no integer is one that a 64-bit float can hold, and no string
    is broken. -/
def isSound : Json → Bool
  | .decimal lexeme => (Decimal.Numeral.scan lexeme.toList).1.isFinite
  | .broken => false
  | .array items => allSound items
  | .object members => membersSound members
  | _ => true

def allSound : List Json → Bool
  | [] => true
  | v :: vs => isSound v && allSound vs

def membersSound : List (String × Json) → Bool
  | [] => true
  | (_, v) :: ms => isSound v && membersSound ms

end

/-- Any value that stands at a level of nesting: not too deep, and sound. A value that nobody looks at is not
    held to this. -/
def any? (level : Nat) (v : Json) : Option Json :=
  if level + v.depth ≤ maxNesting ∧ isSound v then some v else none

end ScimLdap.Wire
