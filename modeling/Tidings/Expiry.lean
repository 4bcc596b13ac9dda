import Tidings.Service
/-!
Expiry. What has been stored for longer than its mode allows is swept out.
-/
namespace Tidings

/-- The longest time to live that can be reckoned with, in seconds. -/
def greatestTtlSecs : Nat := 9223372036854775

/-- The point in time before which what is stored is too old. -/
def cutoff (now : Instant) (ttlSecs : Nat) (name : String) : Except Fault Instant :=
  match if ttlSecs ≤ greatestTtlSecs then now.minusSeconds? ttlSecs else none with
  | some t => .ok t
  | none => .error (.config (name ++ " TTL of " ++ toString ttlSecs ++ "s is out of range"))

/-- Removes what is too old at a point in time and says how much it was. Both cutoffs are found before
anything is removed. -/
def Backend.sweep {σ : Type} (backend : Backend σ) (settings : Settings) (now : Instant) :
    Access σ Nat := do
  let queuedBefore ← Access.ofExcept (cutoff now settings.queuedTtlSecs "queued")
  let timeseriesBefore ← Access.ofExcept (cutoff now settings.timeseriesTtlSecs "timeseries")
  backend.purge queuedBefore timeseriesBefore

/-- A sweep that comes back at intervals, in milliseconds of a timer. -/
structure Ticker where
  interval : Nat
  next : Nat
deriving DecidableEq, Repr

namespace Ticker

/-- The first tick is due at once. -/
def start (interval now : Nat) : Ticker := ⟨interval, now⟩

def isDue (t : Ticker) (now : Nat) : Bool := t.next ≤ now

/-- How late a tick may be without moving those that follow. -/
def tolerance : Nat := 5

/-- The ticker after a tick: a late one moves those that follow. -/
def tick (t : Ticker) (now : Nat) : Ticker :=
  { t with next := (if now ≤ t.next + tolerance then t.next else now) + t.interval }

end Ticker

end Tidings
