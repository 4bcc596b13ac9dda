import Tidings.Span
/-!
Delays before the next attempt to connect. A `Backoff` doubles with every failure and starts again after
a success; `cappedPower` is what a delay grows by when it is known how many attempts there were.
-/
namespace Tidings

/-- The first delay, the greatest, and the next one. -/
structure Backoff where
  initial : Span
  greatest : Span
  current : Span
deriving DecidableEq, Repr

namespace Backoff

/-- The greatest delay is never below the first. -/
def ofSpans (initial greatest : Span) : Backoff :=
  ⟨initial, max greatest initial, initial⟩

/-- Delays of so many milliseconds, which a machine word can count. -/
def ofBounds (initial greatest : Nat) : Backoff :=
  ofSpans (Span.ofMillis initial.toUInt64) (Span.ofMillis greatest.toUInt64)

/-- The milliseconds to wait now; the next delay is twice as long, up to the greatest. -/
def next (b : Backoff) : Nat × Backoff :=
  (b.current.millis, { b with current := min (b.current.times 2) b.greatest })

def reset (b : Backoff) : Backoff := { b with current := b.initial }

end Backoff

/-- `base ^ k`, or `cap` where that is greater. The power is never formed beyond the square of the cap. -/
def cappedPower (cap base : Nat) (k : Nat) : Nat :=
  if k = 0 then 1
  else
    let half := cappedPower cap base (k / 2)
    min cap (half * half * (if k % 2 = 1 then base else 1))
termination_by k

/-- A cap on the factors of a square does not show under the same cap on the whole. -/
theorem min_square {cap : Nat} (hc : 1 ≤ cap) (a b : Nat) :
    min cap (min cap a * min cap a * b) = min cap (a * a * b) := by
  by_cases ha : a ≤ cap
  · rw [Nat.min_eq_right ha]
  · have hm : min cap a = cap := Nat.min_eq_left (by omega)
    rw [hm]
    by_cases hb : b = 0
    · simp [hb]
    · have h1 : cap * 1 * 1 ≤ cap * cap * b :=
        Nat.mul_le_mul (Nat.mul_le_mul_left _ hc) (by omega)
      have h2 : cap * 1 * 1 ≤ a * a * b :=
        Nat.mul_le_mul (Nat.mul_le_mul (by omega) (by omega)) (by omega)
      omega

theorem cappedPower_eq {cap : Nat} (hc : 1 ≤ cap) (base k : Nat) :
    cappedPower cap base k = min cap (Nat.pow base k) := by
  induction k using Nat.strongRecOn with
  | _ k ih =>
    unfold cappedPower
    split
    · next h => simp [h, Nat.min_eq_right hc]
    · next h =>
      have hk : Nat.pow base k =
          Nat.pow base (k / 2) * Nat.pow base (k / 2) * (if k % 2 = 1 then base else 1) := by
        simp only [Nat.pow_eq]
        rw [← Nat.pow_add]
        split
        · rw [← Nat.pow_succ]; congr 1; omega
        · rw [Nat.mul_one]; congr 1; omega
      simp only [ih (k / 2) (by omega), hk, min_square hc]

end Tidings
