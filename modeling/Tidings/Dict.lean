/-!
Finite maps as lists of pairs, each key once. What an operation does to a map is said by what it does to
`get?`.
-/
namespace Tidings

structure Dict (κ : Type) (α : Type) where
  entries : List (κ × α)
  distinct : (entries.map Prod.fst).Nodup

namespace Dict
variable {κ α : Type} [DecidableEq κ]

def empty : Dict κ α := ⟨[], List.nodup_nil⟩

def keys (d : Dict κ α) : List κ := d.entries.map Prod.fst

def values (d : Dict κ α) : List α := d.entries.map Prod.snd

def size (d : Dict κ α) : Nat := d.entries.length

def get? (d : Dict κ α) (k : κ) : Option α :=
  (d.entries.find? fun e => e.1 = k).map Prod.snd

def erase (d : Dict κ α) (k : κ) : Dict κ α :=
  ⟨d.entries.filter fun e => e.1 ≠ k, (List.filter_sublist.map Prod.fst).nodup d.distinct⟩

theorem not_mem_keys_erase (d : Dict κ α) (k : κ) : k ∉ (d.erase k).keys := by
  simp [keys, erase]

/-- The map with a value under a key, over an earlier one. -/
def insert (d : Dict κ α) (k : κ) (a : α) : Dict κ α :=
  ⟨(k, a) :: (d.erase k).entries, List.nodup_cons.2 ⟨d.not_mem_keys_erase k, (d.erase k).distinct⟩⟩

def map {β : Type} (f : κ → α → β) (d : Dict κ α) : Dict κ β :=
  ⟨d.entries.map fun e => (e.1, f e.1 e.2), by
    have : (d.entries.map fun e => (e.1, f e.1 e.2)).map Prod.fst = d.entries.map Prod.fst := by
      simp [Function.comp_def]
    rw [this]
    exact d.distinct⟩

@[simp] theorem get?_empty (k : κ) : (empty : Dict κ α).get? k = none := rfl

/-- Taking one key out of a list of pairs does not touch what is found under another. -/
theorem find?_filter_ne {k k' : κ} (h : ¬ k = k') (l : List (κ × α)) :
    (l.filter fun e => e.1 ≠ k).find? (fun e => e.1 = k') = l.find? fun e => e.1 = k' := by
  induction l with
  | nil => rfl
  | cons e l ih =>
    by_cases he : e.1 = k
    · have : ¬ e.1 = k' := fun h' => h (he.symm.trans h')
      simp_all
    · by_cases hk : e.1 = k' <;> simp_all

theorem get?_insert (d : Dict κ α) (k k' : κ) (a : α) :
    (d.insert k a).get? k' = if k = k' then some a else d.get? k' := by
  by_cases h : k = k'
  · simp [get?, insert, h]
  · simp only [get?, insert, erase, List.find?_cons, h, decide_false, if_false, find?_filter_ne h]

theorem get?_erase (d : Dict κ α) (k k' : κ) :
    (d.erase k).get? k' = if k = k' then none else d.get? k' := by
  by_cases h : k = k'
  · subst h
    have : (d.entries.filter fun e => e.1 ≠ k).find? (fun e => e.1 = k) = none := by
      rw [List.find?_eq_none]
      intro e he
      simpa using (List.mem_filter.1 he).2
    simp only [get?, erase, this, if_true, Option.map_none]
  · simp only [get?, erase, h, if_false, find?_filter_ne h]

end Dict

end Tidings
