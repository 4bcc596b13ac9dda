import Mathlib.Data.List.Nodup
import Tidings.Dict
/-!
More on finite maps: what is found under a key is an entry, so the entries, keys and values of a map are
known as soon as `get?` is.
-/
namespace Tidings.Dict
variable {κ α : Type} [DecidableEq κ]

theorem get?_eq_some_iff (d : Dict κ α) (k : κ) (a : α) : d.get? k = some a ↔ (k, a) ∈ d.entries := by
  constructor
  · intro h
    obtain ⟨e, he, rfl⟩ := Option.map_eq_some_iff.1 h
    have hk : e.1 = k := by simpa using List.find?_some he
    subst hk
    exact List.mem_of_find?_eq_some he
  · intro h
    -- a key occurs once, so the first entry under it is the only one
    cases hf : d.entries.find? (fun e => e.1 = k) with
    | none =>
      have hne := List.find?_eq_none.1 hf (k, a) h
      simp at hne
    | some e =>
      have hk : e.1 = k := by simpa using List.find?_some hf
      have he : e = (k, a) := List.inj_on_of_nodup_map d.distinct (List.mem_of_find?_eq_some hf) h hk
      simp [get?, hf, he]

theorem mem_keys_iff (d : Dict κ α) (k : κ) : k ∈ d.keys ↔ ∃ a, d.get? k = some a := by
  simp [keys, get?_eq_some_iff]

theorem entries_eq_nil (d : Dict κ α) (h : ∀ k, d.get? k = none) : d.entries = [] := by
  refine List.eq_nil_iff_forall_not_mem.2 fun e he => ?_
  rw [← get?_eq_some_iff d e.1 e.2, h] at he
  cases he

theorem size_eq_length (d : Dict κ α) (ks : List κ) (hn : ks.Nodup)
    (h : ∀ k, k ∈ ks ↔ ∃ a, d.get? k = some a) : d.size = ks.length := by
  have hp : d.keys.Perm ks := by
    refine (List.perm_ext_iff_of_nodup d.distinct hn).2 ?_
    intro k
    rw [h]
    exact d.mem_keys_iff k
  simpa [size, keys] using hp.length_eq

/-- A list whose members each belong to one of some keys falls apart into its parts under these keys. -/
theorem flatten_perm_filter (key : α → Option κ) (l : List α) (es : List (κ × List α))
    (hn : (es.map Prod.fst).Nodup) (h : ∀ e ∈ es, e.2 = l.filter fun x => key x = some e.1) :
    (es.map Prod.snd).flatten.Perm (l.filter fun x => (key x).any (· ∈ es.map Prod.fst)) := by
  induction es with
  | nil => simp
  | cons e es ih =>
    have hne := List.nodup_cons.1 hn
    have hrest := ih hne.2 fun e' he' => h e' (List.mem_cons_of_mem e he')
    have hhead := h e List.mem_cons_self
    have hsplit := List.filter_append_perm (fun x => decide (key x = some e.1))
      (l.filter fun x => (key x).any (· ∈ (e :: es).map Prod.fst))
    refine List.Perm.trans ?_ hsplit
    rw [List.map_cons, List.flatten_cons, hhead]
    refine List.Perm.append (List.Perm.of_eq ?_) (hrest.trans (List.Perm.of_eq ?_))
    · rw [List.filter_filter]
      refine List.filter_congr fun x _ => ?_
      cases hx : key x with
      | none => simp
      | some k => by_cases hk : k = e.1 <;> simp [hk]
    · rw [List.filter_filter]
      refine List.filter_congr fun x _ => ?_
      cases hx : key x with
      | none => simp
      | some k =>
        by_cases hk : k = e.1
        · subst hk
          simpa using fun v hv => hne.1 (List.mem_map.2 ⟨(e.1, v), hv, rfl⟩)
        · simp [hk]

/-- The values of a map that sorts a list into its parts make up the list. -/
theorem values_perm (d : Dict κ (List α)) (key : α → Option κ) (l : List α)
    (h : ∀ k, (d.get? k).getD [] = l.filter fun x => key x = some k) (hk : ∀ x ∈ l, (key x).isSome) :
    d.values.flatten.Perm l := by
  have hp := flatten_perm_filter key l d.entries d.distinct (by
    intro e he
    rw [← h, (get?_eq_some_iff d e.1 e.2).2 he, Option.getD_some])
  refine hp.trans (List.Perm.of_eq (List.filter_eq_self.2 ?_))
  intro x hx
  obtain ⟨k, hkx⟩ := Option.isSome_iff_exists.1 (hk x hx)
  have hm : k ∈ d.keys := by
    rw [mem_keys_iff]
    cases hg : d.get? k with
    | some v => exact ⟨v, rfl⟩
    | none =>
      have hmem : x ∈ l.filter fun x => key x = some k := List.mem_filter.2 ⟨hx, by simpa using hkx⟩
      rw [← h, hg] at hmem
      simp at hmem
  simpa [hkx, keys] using hm

end Tidings.Dict
