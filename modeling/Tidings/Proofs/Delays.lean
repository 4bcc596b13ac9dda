import Mathlib.Algebra.Ring.Nat
import Mathlib.Data.List.DropRight
import Tidings.Backoff
/-!
The delays of a backoff in closed form. The machine doubles a length that is already capped, in words that could
overflow; what comes out is the first delay times a power of two, up to the cap, for any calls.
-/
namespace Tidings.Backoff

/-- What a backoff is asked for: its next delay, or to start again. -/
inductive Call where
  | next
  | reset
deriving DecidableEq, Repr

def after (b : Backoff) : Call → Backoff
  | .next => b.next.2
  | .reset => b.reset

def afterAll (b : Backoff) (calls : List Call) : Backoff := calls.foldl after b

/-- How many delays were asked for since the last reset, or since the beginning. -/
def sinceReset (calls : List Call) : Nat := (calls.rtakeWhile (· = .next)).length

theorem sinceReset_next (calls : List Call) : sinceReset (calls ++ [.next]) = sinceReset calls + 1 := by
  rw [sinceReset, List.rtakeWhile_concat_pos _ _ _ (by decide), List.length_append]
  rfl

theorem sinceReset_reset (calls : List Call) : sinceReset (calls ++ [.reset]) = 0 := by
  rw [sinceReset, List.rtakeWhile_concat_neg _ _ _ (by decide)]
  rfl

theorem afterAll_append (b : Backoff) (calls more : List Call) :
    b.afterAll (calls ++ more) = (b.afterAll calls).afterAll more := List.foldl_append

theorem bounds_afterAll (b : Backoff) (calls : List Call) :
    (b.afterAll calls).initial = b.initial ∧ (b.afterAll calls).greatest = b.greatest := by
  induction calls using List.reverseRecOn with
  | nil => exact ⟨rfl, rfl⟩
  | append_singleton calls call ih =>
    rw [afterAll_append]
    cases call with
    | next => exact ih
    | reset => exact ih

/-- A doubled length is capped below the greatest length that there is, so that it saturates never shows. -/
theorem value_next (b : Backoff) : b.next.2.current.value = min (2 * b.current.value) b.greatest.value := by
  have hcap := b.greatest.value_le_greatest
  rw [next, Span.value_min, Span.value_times]
  omega

/-- Capping a power of two before it is doubled or after makes no difference. -/
theorem min_double (x cap k : Nat) :
    min (2 * min (x * 2 ^ k) cap) cap = min (x * 2 ^ (k + 1)) cap := by
  rw [Nat.pow_succ, ← Nat.mul_assoc]
  omega

theorem value_afterAll (initial greatest : Span) (calls : List Call) :
    ((ofSpans initial greatest).afterAll calls).current.value =
      min (initial.value * 2 ^ sinceReset calls) (max initial.value greatest.value) := by
  have hcap : (ofSpans initial greatest).greatest.value = max initial.value greatest.value := by
    rw [ofSpans, Span.value_max, Nat.max_comm]
  induction calls using List.reverseRecOn with
  | nil =>
    have hfirst : ((ofSpans initial greatest).afterAll []).current.value = initial.value := rfl
    have hzero : sinceReset [] = 0 := rfl
    rw [hfirst, hzero]
    omega
  | append_singleton calls call ih =>
    obtain ⟨hinitial, hgreatest⟩ := bounds_afterAll (ofSpans initial greatest) calls
    rw [afterAll_append]
    cases call with
    | next =>
      have hstep := value_next ((ofSpans initial greatest).afterAll calls)
      rw [ih, hgreatest, hcap, min_double] at hstep
      rw [sinceReset_next]
      exact hstep
    | reset =>
      have hback : ((ofSpans initial greatest).afterAll calls).reset.current = initial := hinitial
      show ((ofSpans initial greatest).afterAll calls).reset.current.value = _
      rw [hback, sinceReset_reset]
      omega

/-- Bounds in milliseconds give delays in whole milliseconds. -/
theorem value_ofBounds (initial greatest : UInt64) (calls : List Call) :
    ((ofBounds initial.toNat greatest.toNat).afterAll calls).current.value =
      1000000 * min (initial.toNat * 2 ^ sinceReset calls) (max initial.toNat greatest.toNat) := by
  rw [ofBounds, value_afterAll, Span.value_ofMillis, Span.value_ofMillis, Nat.mul_assoc]
  simp only [Nat.toUInt64_eq, UInt64.ofNat_toNat]
  omega

theorem delay_ofBounds (initial greatest : UInt64) (calls : List Call) :
    ((ofBounds initial.toNat greatest.toNat).afterAll calls).next.1 =
      min (initial.toNat * 2 ^ sinceReset calls) (max initial.toNat greatest.toNat) := by
  rw [next, Span.millis_eq, value_ofBounds]
  exact Nat.mul_div_cancel_left _ (by decide)

theorem sinceReset_replicate (calls : List Call) (k : Nat) :
    sinceReset (calls ++ List.replicate k .next) = sinceReset calls + k := by
  induction k with
  | zero => rw [List.replicate_zero, List.append_nil, Nat.add_zero]
  | succ k ih => rw [List.replicate_succ', ← List.append_assoc, sinceReset_next, ih, Nat.add_assoc]

/-- The delay that is given after any calls is the first one doubled with each delay since the last reset, up to
the cap, which is the greater of the two bounds: exactly so, in whole milliseconds. Below the cap nothing is
lost of the product, no delay is above the cap, and delays do not fall until the next reset. -/
theorem delays_double_up_to_cap (initial greatest : UInt64) (calls : List Call) :
    let cap := max initial.toNat greatest.toNat
    let b := (ofBounds initial.toNat greatest.toNat).afterAll calls
    b.next.1 = min (initial.toNat * 2 ^ sinceReset calls) cap ∧
    b.current.value = 1000000 * b.next.1 ∧
    b.next.1 ≤ cap ∧
    (b.next.1 < cap → b.next.1 = initial.toNat * 2 ^ sinceReset calls) ∧
    ∀ k, b.next.1 ≤ (b.afterAll (List.replicate k .next)).next.1 := by
  intro cap b
  have hdelay : b.next.1 = min (initial.toNat * 2 ^ sinceReset calls) cap :=
    delay_ofBounds initial greatest calls
  have hvalue : b.current.value = 1000000 * b.next.1 := by
    rw [hdelay]
    exact value_ofBounds initial greatest calls
  have hmono : ∀ k, b.next.1 ≤ (b.afterAll (List.replicate k .next)).next.1 := by
    intro k
    have hlater : (b.afterAll (List.replicate k .next)).next.1 =
        min (initial.toNat * 2 ^ (sinceReset calls + k)) cap := by
      rw [← afterAll_append, delay_ofBounds, sinceReset_replicate]
    have hpow : initial.toNat * 2 ^ sinceReset calls ≤ initial.toNat * 2 ^ (sinceReset calls + k) :=
      Nat.mul_le_mul_left _ (Nat.pow_le_pow_right (by decide) (Nat.le_add_right _ k))
    rw [hdelay, hlater]
    omega
  exact ⟨hdelay, hvalue, by omega, by omega, hmono⟩

/-- The double of the first delay is beyond a word of milliseconds. -/
example : ((ofBounds 9223372036854775809 18446744073709551615).afterAll [.reset, .next]).next.1 =
    18446744073709551615 := by decide

end Tidings.Backoff
