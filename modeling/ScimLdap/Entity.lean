import ScimLdap.Text.Caseless

/-!
# Entities — the kinds of record that can be searched

There are three, and each has one table of attributes and one way of answering filters. `ByEntity` holds at
most one thing for each of them.
-/

namespace ScimLdap

inductive Entity where
  | user
  | group
  | fidoDevice
  deriving DecidableEq, Repr, Inhabited

namespace Entity

def name : Entity → String
  | user => "user"
  | group => "group"
  | fidoDevice => "fido-device"

def all : List Entity :=
  [user, group, fidoDevice]

/-- The names by which a kind may be asked for, in small letters: its own, and those under which clients also
    know it. -/
def aliases : Entity → List String
  | user => ["user", "users"]
  | group => ["group", "groups"]
  | fidoDevice => ["fido-device", "fido_device", "fidodevice", "fido2"]

def ofName? (s : String) : Option Entity :=
  all.find? (fun e => e.aliases.contains (Text.foldCase s))

def unknownMessage (s : String) : String :=
  "Unknown entity type '" ++ s ++ "' (expected user, group or fido-device)"

end Entity

/-- At most one thing for each entity. It is a record and not a function, so that what is there can be
    listed. -/
structure ByEntity (α : Type) where
  user : Option α := none
  group : Option α := none
  fidoDevice : Option α := none
  deriving Repr, Inhabited

namespace ByEntity

section
variable {α : Type}

def get? (m : ByEntity α) : Entity → Option α
  | .user => m.user
  | .group => m.group
  | .fidoDevice => m.fidoDevice

/-- The things with one for an entity put in, in place of what was there. -/
def insert (m : ByEntity α) (e : Entity) (a : α) : ByEntity α :=
  match e with
  | .user => { m with user := some a }
  | .group => { m with group := some a }
  | .fidoDevice => { m with fidoDevice := some a }

def entities (m : ByEntity α) : List Entity :=
  Entity.all.filter (fun e => (m.get? e).isSome)

def map {β : Type} (f : α → β) (m : ByEntity α) : ByEntity β :=
  ⟨m.user.map f, m.group.map f, m.fidoDevice.map f⟩

theorem get?_insert (m : ByEntity α) (e e' : Entity) (a : α) :
    (m.insert e a).get? e' = if e' = e then some a else m.get? e' := by
  cases e <;> cases e' <;> rfl

theorem get?_map {β : Type} (f : α → β) (m : ByEntity α) (e : Entity) :
    (m.map f).get? e = (m.get? e).map f := by
  cases e <;> rfl

end

end ByEntity

end ScimLdap
