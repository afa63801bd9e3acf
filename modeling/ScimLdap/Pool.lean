import ScimLdap.Service

/-!
# Pools — copies of a service that part ways

A pool is a list of services in numbered slots. A copy begins as its service stands at that moment; from
then on each slot has a history of its own, since a service is a value and not a place.
-/

namespace ScimLdap

structure Pool where
  slots : List FilterService

namespace Pool

def single (s : FilterService) : Pool :=
  ⟨[s]⟩

def get? (p : Pool) (slot : Nat) : Option FilterService :=
  p.slots[slot]?

/-- The pool with another visitor in the service of a slot. The other slots keep theirs, also those that were
    copied from this one. -/
def register (p : Pool) (slot : Nat) (v : Ldap.Visitor) : Pool :=
  ⟨p.slots.modify slot (fun s => s.register v)⟩

/-- The pool with a copy of a slot's service in a new slot, the one after all others. Without a service to copy
    the pool stays as it is. -/
def copy (p : Pool) (slot : Nat) : Pool :=
  ⟨p.slots ++ (p.get? slot).toList⟩

theorem get?_register (p : Pool) (slot i : Nat) (v : Ldap.Visitor) :
    (p.register slot v).get? i = if slot = i then (p.get? i).map (·.register v) else p.get? i := by
  simp only [register, get?, List.getElem?_modify]
  by_cases h : slot = i <;> simp [h]

end Pool

end ScimLdap
