import Tidings.Id
/-!
The identifiers of the last notifications that were sent without being stored. Only so many are
remembered; the one that was sent longest ago is forgotten first.
-/
namespace Tidings

/-- The latest identifier comes first. -/
structure Recent where
  capacity : Nat
  ids : List Id
deriving Repr

namespace Recent

/-- Nothing remembered yet; there is room for one at least. -/
def ofSize (size : Nat) : Recent := ⟨max 1 size, []⟩

def remember (r : Recent) (id : Id) : Recent :=
  { r with ids := (id :: r.ids.filter (· ≠ id)).take r.capacity }

/-- Asking does not make an identifier any later. -/
def contains (r : Recent) (id : Id) : Bool := r.ids.contains id

end Recent

end Tidings
