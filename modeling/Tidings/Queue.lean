/-!
Bounded queues that never make the sender wait. When a queue is full the oldest entry gives way, and the
reader is told how many it has lost before it goes on with the oldest one left.
-/
namespace Tidings

/-- The entries not yet read, oldest first, and the number lost since the last reading. -/
structure Queue (α : Type) where
  capacity : Nat
  items : List α
  lost : Nat
  closed : Bool
deriving Repr

inductive Received (α : Type) where
  | item (a : α)
  | lagged (lost : Nat)
  | closed
  | nothing
deriving DecidableEq, Repr

/-- The least power of two that is not below `n`. -/
def ceilPowerOfTwo (n : Nat) : Nat :=
  if n ≤ 1 then 1 else Nat.pow 2 (Nat.log2 (n - 1) + 1)

namespace Queue
variable {α : Type}

/-- An empty queue for at least `size` entries and at least one. -/
def ofSize (size : Nat) : Queue α :=
  ⟨ceilPowerOfTwo (max 1 size), [], 0, false⟩

/-- Adds an entry; a full queue loses its oldest one. -/
def push (q : Queue α) (a : α) : Queue α :=
  if q.items.length < q.capacity then { q with items := q.items ++ [a] }
  else { q with items := q.items.drop 1 ++ [a], lost := q.lost + 1 }

def close (q : Queue α) : Queue α := { q with closed := true }

/-- Reads one entry, or learns of lost ones. -/
def receive (q : Queue α) : Received α × Queue α :=
  if q.lost > 0 then (.lagged q.lost, { q with lost := 0 })
  else
    match q.items with
    | a :: rest => (.item a, { q with items := rest })
    | [] => (if q.closed then .closed else .nothing, q)

/-- How many readings a queue still has before there is nothing more. -/
def backlog (q : Queue α) : Nat := q.items.length + (if q.lost > 0 then 1 else 0)

theorem backlog_receive_item {q : Queue α} {a : α} (h : q.receive.1 = .item a) :
    q.receive.2.backlog < q.backlog := by
  unfold receive at h ⊢
  split at h
  · cases h
  · next hl =>
    rw [if_neg hl]
    split at h
    · next items hi => simp [backlog, hl, hi]
    · split at h <;> cases h

theorem backlog_receive_lagged {q : Queue α} {n : Nat} (h : q.receive.1 = .lagged n) :
    q.receive.2.backlog < q.backlog := by
  unfold receive at h ⊢
  split at h
  · next hl => simp [hl, backlog]
  · split at h
    · cases h
    · split at h <;> cases h

/-- Everything that can be read now, `closed` last if the queue is closed. -/
def drain (q : Queue α) : List (Received α) × Queue α :=
  match h : q.receive with
  | (.item a, rest) =>
    have : rest.backlog < q.backlog := by
      have := backlog_receive_item (q := q) (a := a) (by rw [h])
      rwa [h] at this
    let (more, last) := rest.drain
    (.item a :: more, last)
  | (.lagged n, rest) =>
    have : rest.backlog < q.backlog := by
      have := backlog_receive_lagged (q := q) (n := n) (by rw [h])
      rwa [h] at this
    let (more, last) := rest.drain
    (.lagged n :: more, last)
  | (.closed, rest) => ([.closed], rest)
  | (.nothing, rest) => ([], rest)
termination_by q.backlog

end Queue

end Tidings
