import Mathlib.Data.List.Dedup
import Mathlib.Data.List.Induction
import Tidings.Recent
/-!
Which identifiers are remembered: the latest different ones of all that there were, as many as there is
room for.
-/
namespace Tidings

/-- Whether an identifier is among the last so many different ones of a history, which has the oldest
first. -/
def AmongLast (most : Nat) (history : List Id) (id : Id) : Prop :=
  ∃ before after, history = before ++ id :: after ∧ id ∉ after ∧ after.dedup.length < most

namespace Recent

theorem dedup_append_singleton (history : List Id) (id : Id) :
    (history ++ [id]).dedup = history.dedup.filter (· ≠ id) ++ [id] := by
  induction history with
  | nil => rfl
  | cons x history ih =>
    by_cases hx : x ∈ history
    · have hx' : x ∈ history ++ [id] := List.mem_append_left _ hx
      rw [List.cons_append, List.dedup_cons_of_mem hx', List.dedup_cons_of_mem hx, ih]
    · by_cases hid : x = id
      · have hx' : x ∈ history ++ [id] := List.mem_append_right _ (List.mem_singleton.2 hid)
        rw [List.cons_append, List.dedup_cons_of_mem hx', List.dedup_cons_of_notMem hx, ih]
        simp [hid]
      · have hx' : x ∉ history ++ [id] := by simp [hx, hid]
        rw [List.cons_append, List.dedup_cons_of_notMem hx', List.dedup_cons_of_notMem hx, ih]
        simp [hid]

/-- Where no identifier is repeated, one that is taken out leaves room for one more. -/
theorem take_filter_ne {ids : List Id} (hn : ids.Nodup) (id : Id) (room : Nat) :
    ((ids.take (room + 1)).filter (· ≠ id)).take room = (ids.filter (· ≠ id)).take room := by
  induction ids generalizing room with
  | nil => rfl
  | cons x ids ih =>
    obtain ⟨hx, hn⟩ := List.nodup_cons.1 hn
    by_cases hid : x = id
    · have hall : ids.filter (· ≠ id) = ids := by
        refine List.filter_eq_self.2 fun y hy => ?_
        have hne : y ≠ id := fun heq => hx (hid ▸ heq ▸ hy)
        simpa using hne
      have hsome : (ids.take room).filter (· ≠ id) = ids.take room := by
        refine List.filter_eq_self.2 fun y hy => ?_
        have hne : y ≠ id := fun heq => hx (hid ▸ heq ▸ List.mem_of_mem_take hy)
        simpa using hne
      rw [List.take_succ_cons, List.filter_cons_of_neg (by simp [hid]), hsome,
        List.filter_cons_of_neg (by simp [hid]), hall, List.take_take, Nat.min_self]
    · cases room with
      | zero => rfl
      | succ room =>
        rw [List.take_succ_cons, List.filter_cons_of_pos (by simp [hid]),
          List.filter_cons_of_pos (by simp [hid]), List.take_succ_cons, List.take_succ_cons, ih hn]

/-- What is remembered after a history, the latest first. -/
theorem foldl_remember (size : Nat) (history : List Id) :
    history.foldl remember (ofSize size) =
      ⟨max 1 size, history.dedup.reverse.take (max 1 size)⟩ := by
  obtain ⟨room, hroom⟩ : ∃ room, max 1 size = room + 1 := ⟨max 1 size - 1, by omega⟩
  -- the history grows at its end
  induction history using List.reverseRecOn with
  | nil => simp [ofSize]
  | append_singleton history id ih =>
    have hn : history.dedup.reverse.Nodup := List.nodup_reverse.2 (List.nodup_dedup history)
    rw [List.foldl_append, ih, List.foldl_cons, List.foldl_nil, remember, dedup_append_singleton]
    simp only [hroom, List.reverse_append, List.reverse_singleton, List.singleton_append,
      List.take_succ_cons, take_filter_ne hn, List.filter_reverse]

/-- The last place of an identifier has as many different ones behind it as stand before it in the
memory. -/
theorem mem_take_dedup_iff {before after : List Id} {id : Id} (hid : id ∉ after) (most : Nat) :
    id ∈ (before ++ id :: after).dedup.reverse.take most ↔ after.dedup.length < most := by
  obtain ⟨first, hfirst⟩ : ∃ first, (before ++ id :: after).dedup = first ++ id :: after.dedup := by
    rw [List.dedup_append, List.dedup_cons_of_notMem hid]
    obtain ⟨first, hfirst⟩ := List.suffix_union_right before (id :: after.dedup)
    exact ⟨first, hfirst.symm⟩
  have hn : (first ++ id :: after.dedup).Nodup := hfirst ▸ List.nodup_dedup _
  have hbefore : id ∉ first := fun hm => (List.nodup_append.1 hn).2.2 id hm id List.mem_cons_self rfl
  have hlater : id ∉ after.dedup.reverse.take most := fun hm =>
    hid (List.mem_dedup.1 (List.mem_reverse.1 (List.mem_of_mem_take hm)))
  rw [hfirst, List.reverse_append, List.reverse_cons, List.append_assoc, List.singleton_append,
    List.take_append, List.mem_append, List.length_reverse]
  constructor
  · intro hm
    by_contra hlt
    have hnone : most - after.dedup.length = 0 := by omega
    rw [hnone, List.take_zero] at hm
    exact hm.elim hlater (List.not_mem_nil)
  · intro hlt
    obtain ⟨room, hroom⟩ : ∃ room, most - after.dedup.length = room + 1 :=
      ⟨most - after.dedup.length - 1, by omega⟩
    rw [hroom, List.take_succ_cons]
    exact .inr List.mem_cons_self

theorem contains_foldl_remember (size : Nat) (history : List Id) (id : Id) :
    (history.foldl remember (ofSize size)).contains id ↔ AmongLast (max 1 size) history id := by
  rw [foldl_remember, contains, List.contains_iff_mem]
  constructor
  · intro hm
    have hid : id ∈ history.reverse :=
      List.mem_reverse.2 (List.mem_dedup.1 (List.mem_reverse.1 (List.mem_of_mem_take hm)))
    obtain ⟨after, before, heq, hafter⟩ := List.eq_append_cons_of_mem hid
    have hsplit : history = before.reverse ++ id :: after.reverse := by
      rw [← List.reverse_reverse history, heq]
      simp
    have hlast : id ∉ after.reverse := fun h => hafter (List.mem_reverse.1 h)
    rw [hsplit] at hm
    exact ⟨_, _, hsplit, hlast, (mem_take_dedup_iff hlast _).1 hm⟩
  · rintro ⟨before, after, rfl, hid, hlt⟩
    exact (mem_take_dedup_iff hid _).2 hlt

end Recent

end Tidings
