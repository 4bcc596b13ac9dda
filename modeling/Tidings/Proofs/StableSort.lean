import Mathlib.Data.List.Sort
/-!
Stable sorting by a key. A sorted list in which entries of one key stand in a given order is determined by
that, so any two stable sorts agree.
-/
namespace Tidings.StableSort
variable {α : Type*} (key : α → Int)

/-- Entries of a later key come later. -/
def Sorted (xs : List α) : Prop := xs.Pairwise fun x y => key x ≤ key y

theorem exists_mem_of_filter_eq {xs ys : List α}
    (h : ∀ k, xs.filter (key · = k) = ys.filter (key · = k)) {x : α} (hx : x ∈ xs) : x ∈ ys := by
  have hm : x ∈ xs.filter (key · = key x) := List.mem_filter.2 ⟨hx, by simp⟩
  rw [h] at hm
  exact (List.mem_filter.1 hm).1

theorem Sorted.eq_of_filter_eq {xs ys : List α} (hx : Sorted key xs) (hy : Sorted key ys)
    (h : ∀ k, xs.filter (key · = k) = ys.filter (key · = k)) : xs = ys := by
  induction xs generalizing ys with
  | nil =>
    cases ys with
    | nil => rfl
    | cons y ys =>
      have hm := exists_mem_of_filter_eq key (fun k => (h k).symm) (List.mem_cons_self (a := y))
      simp at hm
  | cons x xs ih =>
    cases ys with
    | nil =>
      have hm := exists_mem_of_filter_eq key h (List.mem_cons_self (a := x))
      simp at hm
    | cons y ys =>
      obtain ⟨hxs, hx'⟩ := List.pairwise_cons.1 hx
      obtain ⟨hys, hy'⟩ := List.pairwise_cons.1 hy
      have hyx : key y ≤ key x := by
        rcases List.mem_cons.1 (exists_mem_of_filter_eq key h List.mem_cons_self) with rfl | hm
        · exact le_refl _
        · exact hys x hm
      have hxy : key x ≤ key y := by
        rcases List.mem_cons.1 (exists_mem_of_filter_eq key (fun k => (h k).symm) List.mem_cons_self)
          with rfl | hm
        · exact le_refl _
        · exact hxs y hm
      -- the heads have the same key, so both stand first among the entries of that key
      have heq : x = y := by
        have hk := h (key x)
        simp only [List.filter_cons, le_antisymm hxy hyx, decide_true, if_true] at hk
        exact (List.cons.inj hk).1
      subst heq
      have htail : ∀ k, xs.filter (key · = k) = ys.filter (key · = k) := by
        intro k
        have hk := h k
        by_cases hkx : key x = k
        · simpa [List.filter_cons, hkx] using hk
        · simpa [List.filter_cons, hkx] using hk
      rw [ih hx' hy' htail]

/-- A rearrangement that keeps every part of one key as a sublist keeps it as it is. -/
theorem filter_eq_of_perm {xs ys : List α} (hp : ys.Perm xs) (k : Int)
    (hs : (xs.filter (key · = k)).Sublist ys) : ys.filter (key · = k) = xs.filter (key · = k) := by
  have hsub := hs.filter (key · = k)
  rw [List.filter_filter] at hsub
  simp only [Bool.and_self] at hsub
  exact (hsub.eq_of_length (hp.filter _).length_eq.symm).symm

theorem sorted_filter (xs : List α) (k : Int) : Sorted key (xs.filter (key · = k)) := by
  refine List.pairwise_of_forall_mem_list fun x hx y hy => ?_
  have hx := (List.mem_filter.1 hx).2
  have hy := (List.mem_filter.1 hy).2
  simp only [decide_eq_true_eq] at hx hy
  omega

theorem sorted_mergeSort (xs : List α) : Sorted key (xs.mergeSort fun x y => key x ≤ key y) := by
  have h : (xs.mergeSort fun x y => key x ≤ key y).Pairwise fun x y => decide (key x ≤ key y) := by
    apply List.pairwise_mergeSort
    · intro a b c hab hbc
      simp only [decide_eq_true_eq] at hab hbc ⊢
      omega
    · intro a b
      simp only [Bool.or_eq_true, decide_eq_true_eq]
      omega
  exact h.imp fun hab => by simpa using hab

theorem filter_mergeSort (xs : List α) (k : Int) :
    (xs.mergeSort fun x y => key x ≤ key y).filter (key · = k) = xs.filter (key · = k) := by
  refine filter_eq_of_perm key (List.mergeSort_perm xs _) k ?_
  apply List.sublist_mergeSort
  · intro a b c hab hbc
    simp only [decide_eq_true_eq] at hab hbc ⊢
    omega
  · intro a b
    simp only [Bool.or_eq_true, decide_eq_true_eq]
    omega
  · exact (sorted_filter key xs k).imp fun hab => by simpa using hab
  · exact List.filter_sublist

instance isTrans_key : IsTrans α fun x y => key x ≤ key y := ⟨fun _ _ _ => le_trans⟩

instance total_key : Std.Total fun x y : α => key x ≤ key y := ⟨fun x y => le_total (key x) (key y)⟩

theorem sorted_insertionSort (xs : List α) :
    Sorted key (xs.insertionSort fun x y => key x ≤ key y) :=
  List.pairwise_insertionSort (fun x y => key x ≤ key y) xs

theorem filter_insertionSort (xs : List α) (k : Int) :
    (xs.insertionSort fun x y => key x ≤ key y).filter (key · = k) = xs.filter (key · = k) :=
  filter_eq_of_perm key (List.perm_insertionSort _ xs) k
    (List.sublist_insertionSort (sorted_filter key xs k) List.filter_sublist)

/-- Sorting by merging and sorting by insertion give the same list, also where keys are equal. -/
theorem mergeSort_eq_insertionSort (xs : List α) :
    xs.mergeSort (fun x y => key x ≤ key y) = xs.insertionSort fun x y => key x ≤ key y :=
  (sorted_mergeSort key xs).eq_of_filter_eq key (sorted_insertionSort key xs) fun k =>
    (filter_mergeSort key xs k).trans (filter_insertionSort key xs k).symm

end Tidings.StableSort
