/-!
Lengths of time: whole seconds in a machine word, and the nanoseconds of one second more. A multiple that does
not fit is the greatest length.
-/
namespace Tidings

structure Span where
  seconds : UInt64
  nanos : Fin 1000000000
deriving DecidableEq, Repr

namespace Span

/-- The whole length in nanoseconds. -/
def value (s : Span) : Nat := 1000000000 * s.seconds.toNat + s.nanos.val

/-- Seconds count first. -/
instance : LE Span := ⟨fun s t => s.seconds < t.seconds ∨ (s.seconds = t.seconds ∧ s.nanos ≤ t.nanos)⟩

instance (s t : Span) : Decidable (s ≤ t) :=
  inferInstanceAs (Decidable (s.seconds < t.seconds ∨ (s.seconds = t.seconds ∧ s.nanos ≤ t.nanos)))

instance : Min Span := minOfLe

instance : Max Span := maxOfLe

def greatest : Span := ⟨18446744073709551615, 999999999⟩

def ofMillis (ms : UInt64) : Span :=
  ⟨ms / 1000, ⟨1000000 * (ms.toNat % 1000), by omega⟩⟩

/-- The whole milliseconds of a length. -/
def millis (s : Span) : Nat := 1000 * s.seconds.toNat + s.nanos.val / 1000000

/-- A length of so many seconds and nanoseconds; the seconds in the nanoseconds are carried. There is none if the
seconds go beyond a word. -/
def ofParts? (seconds nanos : Nat) : Option Span :=
  if seconds + nanos / 1000000000 < 18446744073709551616 then
    some ⟨(seconds + nanos / 1000000000).toUInt64, ⟨nanos % 1000000000, Nat.mod_lt _ (by decide)⟩⟩
  else none

/-- So many times a length, or the greatest. -/
def times (k : Nat) (s : Span) : Span :=
  (ofParts? (k * s.seconds.toNat) (k * s.nanos.val)).getD greatest

theorem le_iff {s t : Span} : s ≤ t ↔ s.value ≤ t.value := by
  show s.seconds < t.seconds ∨ (s.seconds = t.seconds ∧ s.nanos ≤ t.nanos) ↔ _
  have hs := s.nanos.isLt
  have ht := t.nanos.isLt
  rw [UInt64.lt_iff_toNat_lt, ← UInt64.toNat_inj, Fin.le_def, value, value]
  omega

theorem value_min (s t : Span) : (min s t).value = min s.value t.value := by
  show (if s ≤ t then s else t).value = _
  split
  · next hle => exact (Nat.min_eq_left (le_iff.1 hle)).symm
  · next hle => exact (Nat.min_eq_right (Nat.le_of_not_le (mt le_iff.2 hle))).symm

theorem value_max (s t : Span) : (max s t).value = max s.value t.value := by
  show (if s ≤ t then t else s).value = _
  split
  · next hle => exact (Nat.max_eq_right (le_iff.1 hle)).symm
  · next hle => exact (Nat.max_eq_left (Nat.le_of_not_le (mt le_iff.2 hle))).symm

theorem value_ofMillis (ms : UInt64) : (ofMillis ms).value = 1000000 * ms.toNat := by
  have hsplit := Nat.div_add_mod ms.toNat 1000
  have hseconds : (ms / 1000).toNat = ms.toNat / 1000 := UInt64.toNat_div ms 1000
  rw [value, ofMillis, hseconds]
  show 1000000000 * (ms.toNat / 1000) + 1000000 * (ms.toNat % 1000) = _
  omega

theorem millis_eq (s : Span) : s.millis = s.value / 1000000 := by
  rw [millis, value]
  omega

theorem value_ofParts? (seconds nanos : Nat) : ((ofParts? seconds nanos).getD greatest).value =
    min (1000000000 * seconds + nanos) greatest.value := by
  have hgreatest : greatest.value = 18446744073709551615999999999 := rfl
  rw [ofParts?, hgreatest]
  split
  · next hfits =>
    have hword : (seconds + nanos / 1000000000).toUInt64.toNat = seconds + nanos / 1000000000 :=
      Nat.mod_eq_of_lt hfits
    rw [Option.getD_some, value, hword]
    show 1000000000 * (seconds + nanos / 1000000000) + nanos % 1000000000 = _
    omega
  · rw [Option.getD_none, hgreatest]
    omega

/-- A multiple is exact, or the greatest length where it would be beyond that. -/
theorem value_times (k : Nat) (s : Span) : (s.times k).value = min (k * s.value) greatest.value := by
  have hsplit : k * s.value = 1000000000 * (k * s.seconds.toNat) + k * s.nanos.val := by
    rw [value, Nat.mul_add, Nat.mul_left_comm]
  rw [times, value_ofParts?, hsplit]

theorem value_le_greatest (s : Span) : s.value ≤ greatest.value := by
  have hseconds := s.seconds.toNat_lt
  have hnanos := s.nanos.isLt
  have hgreatest : greatest.value = 18446744073709551615999999999 := rfl
  rw [hgreatest, value]
  omega

end Span

end Tidings
