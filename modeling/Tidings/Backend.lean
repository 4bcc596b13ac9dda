import Tidings.Event
import Tidings.Settings
/-!
What the service needs of a backend: to keep notifications and to publish events. A backend is a record of
operations over a state of its own, each of which may fail.
-/
namespace Tidings

/-- An operation on a backend's state. -/
abbrev Access (σ α : Type) := σ → Except Fault α × σ

namespace Access
variable {σ τ α β : Type}

def ok (a : α) : Access σ α := fun s => (.ok a, s)

def fail (fault : Fault) : Access σ α := fun s => (.error fault, s)

def andThen (x : Access σ α) (f : α → Access σ β) : Access σ β := fun s =>
  match x s with
  | (.ok a, s) => f a s
  | (.error fault, s) => (.error fault, s)

instance : Monad (Access σ) where
  pure := ok
  bind := andThen

theorem pure_apply (a : α) (s : σ) : (pure a : Access σ α) s = (.ok a, s) := rfl

theorem bind_of_ok {x : Access σ α} {f : α → Access σ β} {s s' : σ} {a : α}
    (h : x s = (.ok a, s')) : (x >>= f) s = f a s' := by
  show andThen x f s = _
  rw [andThen, h]

theorem bind_of_error {x : Access σ α} {f : α → Access σ β} {s s' : σ} {fault : Fault}
    (h : x s = (.error fault, s')) : (x >>= f) s = (.error fault, s') := by
  show andThen x f s = _
  rw [andThen, h]

/-- An operation that cannot fail. -/
def always (f : σ → α × σ) : Access σ α := fun s =>
  let (a, s) := f s
  (.ok a, s)

def within (part : τ → σ) (replace : τ → σ → τ) (x : Access σ α) : Access τ α := fun t =>
  let (result, s) := x (part t)
  (result, replace t s)

/-- Gives a failure if the condition that rules it out does not hold. -/
def ofExcept (x : Except Fault α) : Access σ α := fun s => (x, s)

end Access

structure Backend (σ : Type) where
  kind : BackendKind
  /-- Stores a notification in place of the holder of its group and gives the holder's identifier. -/
  store : Instant → Notification → Access σ (Option Id)
  /-- Removes a notification and gives its target. -/
  remove : Id → Access σ (Option Address)
  /-- Removes the queued holder of a group. -/
  removeGroup : Address → String → Access σ (Option Id)
  get : Id → Access σ (Option Notification)
  mode : Id → Access σ (Option Mode)
  /-- The queued notifications of an address, oldest first. -/
  queued : Address → Access σ (List Notification)
  /-- Those of a time series created after a point in time, oldest first. -/
  since : Address → Instant → Access σ (List Notification)
  publish : Message → Access σ Unit
  /-- Removes what was stored before the cutoffs of the queued and of the time series. -/
  purge : Instant → Instant → Access σ Nat
  health : Access σ Unit

namespace Backend

/-- The same operations on a part of a larger state. -/
def within {σ τ : Type} (part : τ → σ) (replace : τ → σ → τ) (b : Backend σ) : Backend τ where
  kind := b.kind
  store now n := (b.store now n).within part replace
  remove id := (b.remove id).within part replace
  removeGroup a group := (b.removeGroup a group).within part replace
  get id := (b.get id).within part replace
  mode id := (b.mode id).within part replace
  queued a := (b.queued a).within part replace
  since a t := (b.since a t).within part replace
  publish m := (b.publish m).within part replace
  purge q t := (b.purge q t).within part replace
  health := b.health.within part replace

end Backend

end Tidings
