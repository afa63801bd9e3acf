import ScimLdap.Filter.SyntaxError
import ScimLdap.Ldap.OfScim

/-!
# Errors of the service

An error keeps its cause as it arose. What a client is told about it, its class, its `scimType` and its
wording, are functions of the cause.
-/

namespace ScimLdap

structure DirectoryFailure where
  message : String
  source : Option String := none
  deriving DecidableEq, Repr, Inhabited

/-- Why a request was not answered: the filter cannot be read, an attribute has no mapping, the mapping of one
    does not allow the comparison, there is nothing registered for the entity, or the directory failed. -/
inductive Error where
  | malformed (e : Filter.SyntaxError)
  | unmapped (e : UnmappedAttribute)
  | unsupported (e : Ldap.UnsupportedComparison)
  | unregistered (entity : Entity)
  | directory (failure : DirectoryFailure)
  deriving DecidableEq, Repr, Inhabited

inductive ErrorKind where
  | malformed
  | unmapped
  | unsupported
  | unregistered
  | directory
  deriving DecidableEq, Repr, Inhabited

/-- The label of a kind, for a log or a counter; unlike the wording of an error it says nothing of the
    request. -/
def ErrorKind.label : ErrorKind → String
  | malformed => "syntax"
  | unmapped => "attribute_mapping"
  | unsupported => "unsupported_comparison"
  | unregistered => "unregistered_entity"
  | directory => "directory_search"

inductive ScimType where
  | invalidFilter
  | invalidValue
  deriving DecidableEq, Repr, Inhabited

def ScimType.name : ScimType → String
  | invalidFilter => "invalidFilter"
  | invalidValue => "invalidValue"

namespace Error

def ofLeaf : Ldap.LeafError → Error
  | .unmapped e => unmapped e
  | .unsupported e => unsupported e

def kind : Error → ErrorKind
  | malformed _ => .malformed
  | unmapped _ => .unmapped
  | unsupported _ => .unsupported
  | unregistered _ => .unregistered
  | directory _ => .directory

def message : Error → String
  | malformed e => "Invalid filter: " ++ e.render
  | unmapped e => e.message
  | unsupported e => e.message
  | unregistered entity => "No filter translation registered for entity type '" ++ entity.name ++ "'"
  | directory failure => "Directory search failed: " ++ failure.message

/-- What lay behind an error, in words. A filter that cannot be read has its syntax error behind it, and of a
    directory only the directory can tell. -/
def source : Error → Option String
  | malformed e => some e.render
  | directory failure => failure.source
  | _ => none

/-- The class that the protocol gives an error of the client. An attribute without a mapping makes the filter
    invalid, while a comparison that a mapping does not allow is one with an invalid value. -/
def scimType : Error → Option ScimType
  | malformed _ => some .invalidFilter
  | unmapped _ => some .invalidFilter
  | unsupported _ => some .invalidValue
  | unregistered _ => none
  | directory _ => none

/-- Whether the request itself was at fault. It decides between the two statuses of an answer, and between the
    two with which the command line fails. -/
def isClientError (e : Error) : Bool :=
  match e.kind with
  | .malformed | .unmapped | .unsupported => true
  | .unregistered | .directory => false

end Error

structure ErrorResponse where
  schemas : List String
  status : String
  scimType : Option ScimType
  detail : String
  deriving DecidableEq, Repr, Inhabited

def ErrorResponse.schema : String :=
  "urn:ietf:params:scim:api:messages:2.0:Error"

/-- The body that tells a client about an error. It says what the client can act on and nothing of what lay
    behind a failure of the directory. -/
def Error.response (e : Error) : ErrorResponse :=
  ⟨[ErrorResponse.schema], if e.isClientError then "400" else "500", e.scimType, e.message⟩

end ScimLdap
