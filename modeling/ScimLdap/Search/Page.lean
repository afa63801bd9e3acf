import ScimLdap.Search.Request

/-!
# Pages of results

The directory is asked once, and its answer becomes one page; what it could not do becomes an error. The
directory is any function from requests to answers in some monad, so nothing is assumed of it, and how often
it is asked can be read off the monad's effects.
-/

namespace ScimLdap.Search

/-- One page of results. The total counts what was found in the directory and not what is on the page. -/
structure Page (α : Type) where
  schemas : List String
  totalResults : Nat
  itemsPerPage : Nat
  startIndex : Nat
  entries : List α
  deriving DecidableEq, Repr, Inhabited

namespace Page

def schema : String :=
  "urn:ietf:params:scim:api:messages:2.0:ListResponse"

/-- The page that holds some entries of a list. Its size is counted and not handed in, so the two cannot
    differ. -/
def ofEntries {α : Type} (entries : List α) (totalResults startIndex : Nat) : Page α :=
  ⟨[schema], totalResults, entries.length, startIndex, entries⟩

def empty {α : Type} : Page α :=
  ofEntries [] 0 1

def map {α β : Type} (f : α → β) (p : Page α) : Page β :=
  { p with entries := p.entries.map f }

end Page

/-- What the directory found: the entries of the page, and how many there are in all. -/
structure Found (α : Type) where
  entries : List α
  total : Nat
  deriving DecidableEq, Repr, Inhabited

/-- A directory that can be searched: any function from requests to answers, in a monad of its own. -/
abbrev Directory (m : Type → Type) (α : Type) :=
  Request → m (Except DirectoryFailure (Found α))

section
variable {m : Type → Type} [Monad m] {α : Type}

/-- The page of a request. The directory is asked once, and the page starts where the request says, whatever was
    found. -/
def search (directory : Directory m α) (r : Request) : m (Except Error (Page α)) := do
  match ← directory r with
  | .ok found => return .ok (.ofEntries found.entries found.total r.startIndex)
  | .error failure => return .error (.directory failure)

/-- The page that parameters ask for. Where they make no request, the directory is not asked. -/
def Builder.list (b : Builder) (directory : Directory m α) (baseDn : String) (entity : Entity)
    (params : Params) : m (Except Error (Page α)) :=
  match b.requestOfParams baseDn entity params with
  | .ok r => search directory r
  | .error e => pure (.error e)

end

end ScimLdap.Search
