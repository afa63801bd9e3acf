import ScimLdap.Filter.Path

/-!
# Filters — the tree of a SCIM filter expression

A filter compares attributes with literals, asks for their presence, and joins such questions with `and`,
`or` and `not`. Parentheses of the text are nodes of their own, so that a tree can be written as it was
read. The connectives hold a list of operands: reading yields at least two under `and` and `or` and exactly
one under `not`, but a tree built by hand may hold any number, and everything here is defined for those too.
-/

namespace ScimLdap

inductive CompareOp where
  | eq | ne | co | sw | ew | gt | ge | lt | le
  deriving DecidableEq, Repr, Inhabited

namespace CompareOp

def keyword : CompareOp → String
  | eq => "eq"
  | ne => "ne"
  | co => "co"
  | sw => "sw"
  | ew => "ew"
  | gt => "gt"
  | ge => "ge"
  | lt => "lt"
  | le => "le"

def all : List CompareOp :=
  [eq, ne, co, sw, ew, gt, ge, lt, le]

/-- The operator of a keyword. The keyword is looked for as it stands; a lexer that does not mind the case has
    folded it before. -/
def ofKeyword? (s : String) : Option CompareOp :=
  all.find? (fun op => op.keyword == s)

def isSubstring : CompareOp → Bool
  | co | sw | ew => true
  | _ => false

def isOrdering : CompareOp → Bool
  | gt | ge | lt | le => true
  | _ => false

def isEquality : CompareOp → Bool
  | eq | ne => true
  | _ => false

end CompareOp

inductive Connective where
  | and | or | not
  deriving DecidableEq, Repr, Inhabited

def Connective.keyword : Connective → String
  | .and => "and"
  | .or => "or"
  | .not => "not"

/-- What an attribute is compared with. A number is kept as it is written, since the directory compares it by
    its own rules and no rounding may come in between. -/
inductive Literal where
  | string (value : String)
  | number (lexeme : String)
  | bool (value : Bool)
  | null
  deriving DecidableEq, Repr, Inhabited

/-- A filter expression. A group is a node although it means what its operand means, so that a tree can be
    written with the parentheses it was read with. -/
inductive Filter where
  | compare (path : AttrPath) (op : CompareOp) (value : Literal)
  | present (path : AttrPath)
  | logical (connective : Connective) (operands : List Filter)
  | group (inner : Filter)
  deriving Repr, Inhabited

namespace Filter

/-- The operands under a connective; one operand alone stands for itself, so that no connective joins a single
    filter. -/
def combine (connective : Connective) : List Filter → Filter
  | [only] => only
  | operands => .logical connective operands

mutual

def paths : Filter → List AttrPath
  | .compare path _ _ => [path]
  | .present path => [path]
  | .logical _ operands => pathsOfAll operands
  | .group inner => paths inner

def pathsOfAll : List Filter → List AttrPath
  | [] => []
  | f :: fs => paths f ++ pathsOfAll fs

end

mutual

/-- How deep parentheses stand in one another when the filter is written: a group counts one, and so does the
    pair of parentheses that `not` brings. -/
def depth : Filter → Nat
  | .compare _ _ _ => 0
  | .present _ => 0
  | .logical .not operands => depthOfAll operands + 1
  | .logical _ operands => depthOfAll operands
  | .group inner => depth inner + 1

def depthOfAll : List Filter → Nat
  | [] => 0
  | f :: fs => max (depth f) (depthOfAll fs)

end

mutual

def same : Filter → Filter → Bool
  | .compare p o v, .compare q o' v' => p == q && o == o' && v == v'
  | .present p, .present q => p == q
  | .logical c fs, .logical c' gs => c == c' && sameAll fs gs
  | .group f, .group g => same f g
  | _, _ => false

def sameAll : List Filter → List Filter → Bool
  | [], [] => true
  | f :: fs, g :: gs => same f g && sameAll fs gs
  | _, _ => false

end

mutual

theorem same_iff : ∀ f g : Filter, same f g = true ↔ f = g
  | .compare p o v, g => by cases g <;> simp [same, and_assoc]
  | .present p, g => by cases g <;> simp [same]
  | .logical c fs, g => by cases g <;> simp [same, sameAll_iff fs]
  | .group f, g => by cases g <;> simp [same, same_iff f]

theorem sameAll_iff : ∀ fs gs : List Filter, sameAll fs gs = true ↔ fs = gs
  | [], gs => by cases gs <;> simp [sameAll]
  | f :: fs, gs => by cases gs <;> simp [sameAll, same_iff f, sameAll_iff fs]

end

instance : DecidableEq Filter := fun f g =>
  decidable_of_iff _ (same_iff f g)

end Filter

end ScimLdap
