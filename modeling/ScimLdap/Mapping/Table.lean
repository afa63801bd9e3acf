import ScimLdap.Entity
import ScimLdap.Filter.Path
import ScimLdap.Mapping.Basic
import ScimLdap.Text.Dictionary

/-!
# Tables — the attributes of one entity

A table takes the dotted form of a path to a mapping, without regard to ASCII case unless it is told
otherwise. The last mapping given for a key counts. A path without a sub-attribute that has no mapping of
its own stands for its `value`: `emails` is found under `emails.value`.
-/

namespace ScimLdap

/-- A path for which a table has no mapping, named in its dotted form, with the entity whose table was asked. -/
structure UnmappedAttribute where
  name : String
  entity : Entity
  deriving DecidableEq, Repr, Inhabited

def UnmappedAttribute.message (e : UnmappedAttribute) : String :=
  "Attribute '" ++ e.name ++ "' is not supported for " ++ e.entity.name ++ " filters"

namespace Mapping

structure Table where
  entity : Entity
  caseSensitive : Bool := false
  entries : Text.Dictionary Mapping := {}

namespace Table

/-- The key of a path's dotted form. What is put in and what is looked for go through this one function, so a
    table cannot lose a mapping by the case of its name. -/
def key (t : Table) (logical : String) : String :=
  if t.caseSensitive then logical else Text.foldCase logical

def keyOfName (t : Table) (name : String) : String :=
  t.key (AttrPath.ofLogical name).logicalName

/-- The table with a mapping for a bare name, in place of what was there. -/
def insert (t : Table) (name : String) (m : Mapping) : Table :=
  { t with entries := t.entries.insert (t.keyOfName name) m }

def insertAll (t : Table) (entries : List (String × Mapping)) : Table :=
  entries.foldl (fun t e => t.insert e.1 e.2) t

/-- The mapping of a path. An attribute with values of its own comes before the `value` below it, and a path
    that names a sub-attribute has no second chance. -/
def find? (t : Table) (path : AttrPath) : Option Mapping :=
  (t.entries.get? (t.key path.logicalName)).or
    (if path.sub.isNone then t.entries.get? (t.key (path.logicalName ++ ".value")) else none)

def resolve (t : Table) (path : AttrPath) : Except UnmappedAttribute Mapping :=
  match t.find? path with
  | some m => .ok m
  | none => .error ⟨path.logicalName, t.entity⟩

/-- The mapping of a bare name, such as one to sort by. -/
def resolveName (t : Table) (name : String) : Except UnmappedAttribute Mapping :=
  t.resolve (AttrPath.ofLogical name)

/-- The directory attribute that every entry of the kind has: the one for `id`, or the object class when a table
    does without it. -/
def matchAllAttribute (t : Table) : String :=
  match t.entries.get? (t.key "id") with
  | some m => m.name
  | none => "objectClass"

def size (t : Table) : Nat :=
  t.entries.size

end Table

end Mapping

end ScimLdap
