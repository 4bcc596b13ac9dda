/-!
Points in time: whole seconds since 1970 and nanoseconds. A leap second is the second before it with a
billion nanoseconds more, so it falls between its neighbours in the order of time.
-/
namespace Tidings

/-- The first second that a point in time may have, in the year -262143. -/
def earliestSecond : Int := -8334601228800

/-- The last second that a point in time may have, in the year 262142. -/
def latestSecond : Int := 8210266876799

def billion : Nat := 1000000000

/-- A point in time. Only the last second of a minute can be a leap second. -/
structure Instant where
  seconds : Int
  nanos : Nat
  in_range : earliestSecond ≤ seconds ∧ seconds ≤ latestSecond
  nanos_lt : nanos < 2 * billion
  leap : billion ≤ nanos → seconds % 60 = 59
deriving DecidableEq, Repr

namespace Instant

def ofParts? (seconds : Int) (nanos : Nat) : Option Instant :=
  if range : earliestSecond ≤ seconds ∧ seconds ≤ latestSecond then
    if bound : nanos < 2 * billion then
      if leap : billion ≤ nanos → seconds % 60 = 59 then some ⟨seconds, nanos, range, bound, leap⟩
      else none
    else none
  else none

theorem ofParts?_eq_some_iff {s : Int} {n : Nat} {t : Instant} :
    ofParts? s n = some t ↔ t.seconds = s ∧ t.nanos = n := by
  unfold ofParts?
  constructor
  · intro h
    split at h
    · split at h
      · split at h
        · cases h; exact ⟨rfl, rfl⟩
        · cases h
      · cases h
    · cases h
  · rintro ⟨rfl, rfl⟩
    rw [dif_pos t.in_range, dif_pos t.nanos_lt, dif_pos t.leap]

def epoch : Instant := ⟨0, 0, by decide, by decide, by decide⟩

/-- Nanoseconds since 1970, a leap second counting past its end. -/
def toNanos (t : Instant) : Int := t.seconds * billion + t.nanos

/-- The point in time so many nanoseconds after 1970, if there is one. -/
def ofNanos? (n : Int) : Option Instant :=
  ofParts? (n / billion) (n % billion).toNat

def ofMicros? (n : Int) : Option Instant :=
  ofNanos? (1000 * n)

/-- A number that grows with time, leap seconds included. -/
def order (t : Instant) : Int := t.seconds * (2 * billion) + t.nanos

instance : LT Instant := ⟨fun a b => a.order < b.order⟩

instance : LE Instant := ⟨fun a b => a.order ≤ b.order⟩

instance (a b : Instant) : Decidable (a < b) := inferInstanceAs (Decidable (a.order < b.order))

instance (a b : Instant) : Decidable (a ≤ b) := inferInstanceAs (Decidable (a.order ≤ b.order))

/-- The same point in time without what is below a microsecond. -/
def toMicrosecond (t : Instant) : Instant :=
  ⟨t.seconds, t.nanos / 1000 * 1000, t.in_range,
    Nat.lt_of_le_of_lt (Nat.div_mul_le_self _ _) t.nanos_lt,
    fun h => t.leap (Nat.le_trans h (Nat.div_mul_le_self _ _))⟩

/-- A whole number of seconds earlier, if that is a point in time. A leap second keeps its fraction
only where it can. -/
def minusSeconds? (t : Instant) (seconds : Nat) : Option Instant :=
  if seconds = 0 then some t
  else if t.nanos < billion then ofParts? (t.seconds - seconds) t.nanos
  else ofParts? (t.seconds + 1 - seconds) (t.nanos - billion)

/-- The second of the minute, 60 in a leap second, and the nanoseconds of that second. -/
def clockSecond (t : Instant) : Nat × Nat :=
  if t.nanos < billion then ((t.seconds % 60).toNat, t.nanos)
  else ((t.seconds % 60).toNat + 1, t.nanos - billion)

end Instant

end Tidings
