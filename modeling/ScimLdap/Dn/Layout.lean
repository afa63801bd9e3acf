import ScimLdap.Dn.Escape
import ScimLdap.Entity

/-!
# The layout of the directory

Under the name of the organization stand a branch of people and a branch of groups. The devices of a person
stand below the person, so a search for the devices of everyone begins at the people.
-/

namespace ScimLdap.Dn

/-- The directory of an organization, known by its name. That name is written by whoever set up the directory
    and is used as it stands; only what a client sends is escaped. -/
structure Layout where
  orgDn : String
  deriving DecidableEq, Repr, Inhabited

namespace Layout

def people (l : Layout) : String :=
  "ou=people," ++ l.orgDn

def groups (l : Layout) : String :=
  "ou=groups," ++ l.orgDn

def devices (l : Layout) (person : String) : String :=
  "ou=fido2_register,inum=" ++ escape person ++ "," ++ l.people

def device (l : Layout) (person device : String) : String :=
  "oxId=" ++ escape device ++ "," ++ l.devices person

/-- Where a search for entries of a kind begins. The person is asked for with devices alone, and without one the
    devices of everyone are searched, from the people down. -/
def baseDn (l : Layout) : Entity → Option String → String
  | .user, _ => l.people
  | .group, _ => l.groups
  | .fidoDevice, some person => l.devices person
  | .fidoDevice, none => l.people

end Layout

end ScimLdap.Dn
