import ScimLdap.Search.Params

/-!
# Paging — how much of a list a request may ask for

A page starts at 1 or later and holds at least one entry and at most as many as the service allows. A
parameter that says nothing sensible counts as absent, and one that asks for too much gets the most there is.
-/

namespace ScimLdap.Search

structure Paging where
  defaultCount : Nat := 100
  maxCount : Nat := 200
  defaultSortBy : String := "displayName"
  deriving DecidableEq, Repr, Inhabited

/-- A parameter that is at least one. Zero and what is below it count as absent and are no errors. -/
def positive? (n : Option Int64) : Option Nat :=
  (n.filter (fun i => decide (1 ≤ i.toInt))).map (fun i => i.toInt.toNat)

/-- The size of the page that a parameter asks for. The default is bounded as well, so a page never holds more
    than the service allows. -/
def Paging.count (p : Paging) (count : Option Int64) : Nat :=
  min ((positive? count).getD p.defaultCount) p.maxCount

def startIndex (start : Option Int64) : Nat :=
  (positive? start).getD 1

end ScimLdap.Search
