import Tidings.Address
import Tidings.Dict
/-!
The locks of addresses, by which those who write to one address take turns. A lock is made for the first who
comes, and forgotten when nobody has a handle on it any more.
-/
namespace Tidings

/-- The number of a lock, counted from the first one. -/
abbrev LockId := Nat

structure Lock where
  isHeld : Bool
  /-- How many have a handle on the lock, the table included. -/
  handles : Nat

structure Locks where
  table : Dict Address LockId
  lock : LockId → Lock
  next : LockId

namespace Locks

def empty : Locks := ⟨Dict.empty, fun _ => ⟨false, 0⟩, 0⟩

def put (l : Locks) (k : LockId) (x : Lock) : Locks :=
  { l with lock := fun j => if j = k then x else l.lock j }

/-- Gives a handle on the lock of an address. A new lock is in the table and at hand. -/
def take (l : Locks) (a : Address) : LockId × Locks :=
  match l.table.get? a with
  | some k => (k, l.put k { l.lock k with handles := (l.lock k).handles + 1 })
  | none =>
    (l.next, { l.put l.next ⟨false, 2⟩ with table := l.table.insert a l.next, next := l.next + 1 })

/-- Acquires a lock, unless it is held. -/
def acquire? (l : Locks) (k : LockId) : Option Locks :=
  if (l.lock k).isHeld then none else some (l.put k { l.lock k with isHeld := true })

def release (l : Locks) (k : LockId) : Locks := l.put k { l.lock k with isHeld := false }

/-- Gives a handle back. -/
def letGo (l : Locks) (k : LockId) : Locks :=
  l.put k { l.lock k with handles := (l.lock k).handles - 1 }

/-- Forgets the lock of an address if the table has the only handle on it. -/
def tidy (l : Locks) (a : Address) : Locks :=
  match l.table.get? a with
  | some k => if (l.lock k).handles = 1 then { l with table := l.table.erase a } else l
  | none => l

end Locks

end Tidings
