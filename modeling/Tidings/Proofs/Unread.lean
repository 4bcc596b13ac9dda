import Mathlib.Algebra.Order.Group.Nat
import Mathlib.Order.Bounds.Defs
import Tidings.Queue
/-!
What a queue has for its reader. It keeps the last of the entries that are unread, as many as it has room for,
and counts the others; nothing else is lost.
-/
namespace Tidings

theorem isLeast_ceilPowerOfTwo (n : Nat) :
    IsLeast {p | n ≤ p ∧ ∃ k, p = 2 ^ k} (ceilPowerOfTwo n) := by
  unfold ceilPowerOfTwo
  by_cases hn : n ≤ 1
  · rw [if_pos hn]
    refine ⟨⟨hn, 0, rfl⟩, ?_⟩
    rintro _ ⟨_, k, rfl⟩
    exact Nat.one_le_two_pow
  · rw [if_neg hn]
    have hlog : n - 1 < 2 ^ (Nat.log2 (n - 1) + 1) := Nat.lt_log2_self
    refine ⟨⟨by show n ≤ 2 ^ _; omega, _, rfl⟩, ?_⟩
    rintro _ ⟨hk, k, rfl⟩
    have hlow : 2 ^ Nat.log2 (n - 1) ≤ n - 1 := Nat.log2_self_le (by omega)
    have hlt : Nat.log2 (n - 1) < k := (Nat.pow_lt_pow_iff_right (by omega)).1 (by omega : _ < 2 ^ k)
    exact Nat.pow_le_pow_right (by omega) hlt

theorem ceilPowerOfTwo_pos (n : Nat) : 0 < ceilPowerOfTwo n := by
  obtain ⟨_, k, hk⟩ := (isLeast_ceilPowerOfTwo n).1
  rw [hk]
  exact Nat.two_pow_pos k

section Received
variable {α : Type}

/-- The item of a reading. -/
def Received.item? : Received α → Option α
  | .item a => some a
  | _ => none

/-- How many entries a reading says were lost. -/
def Received.lost : Received α → Nat
  | .lagged n => n
  | _ => 0

/-- How many entries a reader gets past with a reading. -/
def Received.passed (x : Received α) : Nat := x.item?.toList.length + x.lost

end Received

namespace Queue
variable {α : Type} {q : Queue α} {unread : List α}

theorem items_receive (q : Queue α) : q.receive.1.item?.toList ++ q.receive.2.items = q.items := by
  obtain ⟨capacity, items, lost, closed⟩ := q
  cases lost with
  | succ lost => rfl
  | zero =>
    cases items with
    | nil => cases closed <;> rfl
    | cons a rest => rfl

/-- A queue is closed if it says so, and open if it has nothing to say. -/
theorem closed_of_receive (q : Queue α) :
    (q.receive.1 = .closed → q.closed = true) ∧ (q.receive.1 = .nothing → q.closed = false) := by
  obtain ⟨capacity, items, lost, closed⟩ := q
  cases lost with
  | succ lost => exact ⟨nofun, nofun⟩
  | zero =>
    cases items with
    | cons a rest => exact ⟨nofun, nofun⟩
    | nil =>
      cases closed with
      | true => exact ⟨fun _ => rfl, nofun⟩
      | false => exact ⟨nofun, fun _ => rfl⟩

section Report

/-- What can still be read from a queue: the number of entries lost, if there are any, and then the entries. -/
def report (q : Queue α) : List (Received α) :=
  (if q.lost = 0 then [] else [.lagged q.lost]) ++ q.items.map .item

theorem report_ite_close (q : Queue α) (p : Prop) [Decidable p] :
    (if p then q.close else q).report = q.report := by
  split <;> rfl

theorem closed_ite_close (p : Prop) [Decidable p] (h : q.closed) :
    (if p then q.close else q).closed := by
  split
  · rfl
  · exact h

theorem receive_of_report_cons {x : Received α} {rest : List (Received α)} (h : q.report = x :: rest) :
    q.receive.1 = x ∧ q.receive.2.report = rest ∧ q.receive.2.closed = q.closed := by
  obtain ⟨capacity, items, lost, closed⟩ := q
  cases lost with
  | succ n =>
    obtain ⟨rfl, rfl⟩ := List.cons.inj h
    exact ⟨rfl, rfl, rfl⟩
  | zero =>
    cases items with
    | nil => cases h
    | cons a items =>
      obtain ⟨rfl, rfl⟩ := List.cons.inj h
      exact ⟨rfl, rfl, rfl⟩

theorem receive_of_report_nil (h : q.report = []) :
    q.receive = (if q.closed then .closed else .nothing, q) := by
  obtain ⟨capacity, items, lost, closed⟩ := q
  cases lost with
  | succ n => cases h
  | zero =>
    cases items with
    | nil => rfl
    | cons a items => cases h

/-- What some readings of a closed queue give: what can still be read, and after that the end. -/
def answers (q : Queue α) (k : Nat) : List (Received α) :=
  (q.report ++ List.replicate k Received.closed).take k

/-- The first of some readings, if the queue has enough for them or is closed, and the others. -/
theorem answers_succ {k : Nat} (h : q.closed ∨ k + 1 ≤ q.report.length) :
    q.answers (k + 1) = q.receive.1 :: q.receive.2.answers k ∧
      (q.receive.2.closed ∨ k ≤ q.receive.2.report.length) := by
  cases hreport : q.report with
  | nil =>
    have hclosed : q.closed := by simpa [hreport] using h
    rw [receive_of_report_nil hreport, if_pos hclosed]
    refine ⟨?_, .inl hclosed⟩
    rw [answers, answers, hreport, List.nil_append, List.replicate_succ, List.take_succ_cons]
    rfl
  | cons x rest =>
    obtain ⟨rfl, hrest, hclosed⟩ := receive_of_report_cons hreport
    have htake : (rest ++ List.replicate (k + 1) Received.closed).take k =
        (rest ++ List.replicate k Received.closed).take k := by
      rw [List.replicate_succ', ← List.append_assoc]
      exact List.take_append_of_le_length (by simp)
    rw [answers, answers, hreport, hrest, hclosed, List.cons_append, List.take_succ_cons, htake]
    exact ⟨rfl, by simpa [hreport] using h⟩

end Report

/-- A queue has the last of the entries that are unread, and the number of the earlier ones. -/
structure Holds (q : Queue α) (unread : List α) : Prop where
  items : q.items = unread.drop (unread.length - q.capacity)
  lost : q.lost = unread.length - q.capacity

theorem holds_ofSize (size : Nat) : (ofSize size : Queue α).Holds [] where
  items := List.drop_nil.symm
  lost := (Nat.zero_sub _).symm

theorem capacity_push (q : Queue α) (a : α) : (q.push a).capacity = q.capacity := by
  unfold push
  split <;> rfl

theorem capacity_receive (q : Queue α) : q.receive.2.capacity = q.capacity := by
  unfold receive
  split
  · rfl
  · split <;> rfl

theorem closed_push (q : Queue α) (a : α) : (q.push a).closed = q.closed := by
  unfold push
  split <;> rfl

theorem closed_receive (q : Queue α) : q.receive.2.closed = q.closed := by
  unfold receive
  split
  · rfl
  · split <;> rfl

namespace Holds
variable (h : q.Holds unread)
include h

theorem length_items : q.items.length = min unread.length q.capacity := by
  rw [h.items, List.length_drop]
  omega

theorem push (hpos : 0 < q.capacity) (a : α) : (q.push a).Holds (unread ++ [a]) := by
  have hitems := h.length_items
  have hlost := h.lost
  have hlength : (unread ++ [a]).length = unread.length + 1 := List.length_append
  unfold Queue.push
  by_cases hroom : q.items.length < q.capacity
  · rw [if_pos hroom]
    refine ⟨?_, by simp only [hlength]; omega⟩
    have hsmall : unread.length + 1 - q.capacity = 0 := by omega
    have hsmall' : unread.length - q.capacity = 0 := by omega
    simp only [h.items, hlength, hsmall, hsmall', List.drop_zero]
  · rw [if_neg hroom]
    refine ⟨?_, by simp only [hlength]; omega⟩
    have hnext : unread.length + 1 - q.capacity = (unread.length - q.capacity) + 1 := by omega
    simp only [h.items, hlength, hnext, List.drop_drop]
    rw [List.drop_append_of_le_length (by omega)]

theorem close : q.close.Holds unread := ⟨h.items, h.lost⟩

/-- Whoever is too far behind learns how many entries are lost. -/
theorem receive_of_lt (hlt : q.capacity < unread.length) :
    q.receive.1 = .lagged (unread.length - q.capacity) := by
  have hlost := h.lost
  rw [receive, if_pos (by omega), hlost]

/-- Otherwise the oldest unread entry comes first. -/
theorem receive_of_le {a : α} {rest : List α} (hunread : unread = a :: rest)
    (hle : unread.length ≤ q.capacity) : q.receive = (.item a, { q with items := rest }) := by
  have hall : unread.length - q.capacity = 0 := by omega
  have hitems : q.items = a :: rest := by rw [h.items, hall, hunread, List.drop_zero]
  rw [receive, if_neg (by rw [h.lost]; omega), hitems]

theorem receive_of_nil (hunread : unread = []) :
    q.receive = (if q.closed then .closed else .nothing, q) := by
  refine receive_of_report_nil ?_
  subst hunread
  simp [report, h.lost, h.items]

/-- A reading gets past some of what was unread, and the queue holds the rest. -/
theorem receive : q.receive.1.passed ≤ unread.length ∧
    q.receive.2.Holds (unread.drop q.receive.1.passed) ∧
    q.receive.1.item?.toList.Sublist (unread.take q.receive.1.passed) := by
  by_cases hlt : q.capacity < unread.length
  · have hlost : 0 < q.lost := by rw [h.lost]; omega
    have hreceive : q.receive = (.lagged q.lost, { q with lost := 0 }) := if_pos hlost
    have hpassed : (Received.lagged q.lost : Received α).passed = unread.length - q.capacity :=
      (Nat.zero_add _).trans h.lost
    have hfits : (unread.drop (unread.length - q.capacity)).length - q.capacity = 0 := by
      rw [List.length_drop]
      omega
    rw [hreceive, hpassed]
    refine ⟨Nat.sub_le _ _, ⟨?_, hfits.symm⟩, List.nil_sublist _⟩
    rw [hfits, List.drop_zero]
    exact h.items
  · have hall : unread.length - q.capacity = 0 := by omega
    cases hunread : unread with
    | nil =>
      have hpassed : (if q.closed then Received.closed else .nothing : Received α).passed = 0 := by
        split <;> rfl
      rw [h.receive_of_nil hunread, hpassed]
      refine ⟨Nat.le_refl _, hunread ▸ h, ?_⟩
      split <;> exact List.nil_sublist _
    | cons a rest =>
      rw [h.receive_of_le hunread (by omega)]
      have hlength : rest.length - q.capacity = 0 := by
        rw [hunread, List.length_cons] at hall
        omega
      refine ⟨Nat.le_add_left 1 _, ⟨?_, ?_⟩, List.Sublist.refl _⟩
      · show rest = rest.drop (rest.length - q.capacity)
        rw [hlength, List.drop_zero]
      · show q.lost = rest.length - q.capacity
        rw [h.lost, hall, hlength]

end Holds

end Queue

end Tidings
