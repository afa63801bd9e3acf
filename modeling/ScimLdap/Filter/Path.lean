import ScimLdap.Text.Split

/-!
# Attribute paths

An attribute of a record, or one of its sub-attributes. A path has two texts: the colon form, in which
filters are written, and the dotted form, by which tables name it. A bare name is read as a path at its
first colon or point, so both forms are read alike and `ofLogical` undoes either for a path whose attribute
holds neither character.
-/

namespace ScimLdap

/-- An attribute name, with the name of a sub-attribute if the path goes one step further. A path goes no deeper
    than that. -/
structure AttrPath where
  attr : String
  sub : Option String := none
  deriving DecidableEq, Repr, Inhabited

namespace AttrPath

def isSeparator (c : Char) : Bool :=
  c == ':' || c == '.'

/-- The path that a bare name such as `name.familyName` stands for. It is cut at the first of the two
    characters, and any later one belongs to the sub-attribute. -/
def ofLogical (name : String) : AttrPath :=
  let (attr, sub) := Text.splitOnce isSeparator name.toList
  ⟨String.ofList attr, sub.map String.ofList⟩

/-- The dotted form, by which tables name the path, whichever of the two characters it was written with. -/
def logicalName : AttrPath → String
  | ⟨attr, none⟩ => attr
  | ⟨attr, some sub⟩ => attr ++ "." ++ sub

def render : AttrPath → String
  | ⟨attr, none⟩ => attr
  | ⟨attr, some sub⟩ => attr ++ ":" ++ sub

example : ofLogical "a.b:c" = ⟨"a", some "b:c"⟩ := by decide +kernel

end AttrPath

end ScimLdap
