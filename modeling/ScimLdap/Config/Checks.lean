import ScimLdap.Config.Basic
import ScimLdap.Text.Blank

/-!
# What a configuration must meet

A configuration that can be read may still make no sense. The checks are made in a fixed order, and the
first that fails is the one that is told: the sections in turn, then the mappings entity by entity and key
by key.
-/

namespace ScimLdap.Config

inductive Violation where
  | emptyBaseDn
  | zeroMaxLength
  | zeroMaxDepth
  | zeroDefaultCount
  | maxBelowDefault (maxCount defaultCount : Nat)
  | emptySortBy
  | emptyKey (entity : Entity)
  | emptyName (entity : Entity) (key : String)
  | wordsWithoutBoolean (entity : Entity) (key : String)
  deriving DecidableEq, Repr, Inhabited

/-- The section that holds the mappings of an entity, under the name it has in a configuration and not under the
    one by which a client asks for the entity. -/
def sectionName : Entity → String
  | .user => "user"
  | .group => "group"
  | .fidoDevice => "fido_device"

def Violation.message : Violation → String
  | emptyBaseDn => "directory.base_dn must not be empty"
  | zeroMaxLength => "filter.max_length must be at least 1"
  | zeroMaxDepth => "filter.max_depth must be at least 1"
  | zeroDefaultCount => "paging.default_count must be at least 1"
  | maxBelowDefault maxCount defaultCount =>
    "paging.max_count (" ++ toString maxCount ++ ") must not be less than paging.default_count (" ++
      toString defaultCount ++ ")"
  | emptySortBy => "paging.default_sort_by must not be empty"
  | emptyKey entity =>
    "mappings." ++ sectionName entity ++ ": logical attribute name must not be empty"
  | emptyName entity key =>
    "mappings." ++ sectionName entity ++ "." ++ key ++ ": directory attribute must not be empty"
  | wordsWithoutBoolean entity key =>
    "mappings." ++ sectionName entity ++ "." ++ key ++
      ": true_value/false_value require syntax = \"boolean\""

/-- Whether a mapping gives words for the truth values of an attribute that has none. They would never be used,
    so they are taken for a slip in the kind. -/
def Entry.hasStrayWords : Entry → Bool
  | plain _ => false
  | detailed _ kind trueValue falseValue =>
    (trueValue.isSome || falseValue.isSome) && kind != .boolean

/-- The first thing that a mapping fails to meet. Names that are blank count as empty, since they are trimmed
    before they are used. -/
def entryViolation? (entity : Entity) (key : String) (entry : Entry) : Option Violation :=
  if Text.isBlankText key then some (.emptyKey entity)
  else if Text.isBlankText entry.name then some (.emptyName entity key)
  else if entry.hasStrayWords then some (.wordsWithoutBoolean entity key)
  else none

def mappingsViolation? (mappings : Mappings) (entity : Entity) : Option Violation :=
  (mappings.of entity).toList.findSome? (fun e => entryViolation? entity e.1 e.2)

/-- The first thing that a configuration fails to meet. The two sizes of a page are compared only when the
    default one is known not to be zero, so that each complaint is about what has to be put right first. -/
def violation? (c : Config) : Option Violation :=
  if Text.isBlankText c.directory.baseDn then some .emptyBaseDn
  else if c.filter.maxLength = 0 then some .zeroMaxLength
  else if c.filter.maxDepth = 0 then some .zeroMaxDepth
  else if c.paging.defaultCount = 0 then some .zeroDefaultCount
  else if c.paging.maxCount < c.paging.defaultCount then
    some (.maxBelowDefault c.paging.maxCount c.paging.defaultCount)
  else if Text.isBlankText c.paging.defaultSortBy then some .emptySortBy
  else Entity.all.findSome? (mappingsViolation? c.mappings)

end ScimLdap.Config
