import Mathlib.Algebra.BigOperators.Fin
import Mathlib.Data.Fintype.Card
import Tidings.Locks
import Tidings.Proofs.Dict
/-!
Why one caller at a time is inside at an address. As long as anybody has a handle on the lock of an address,
the table has that lock under the address, so whoever comes gets the same one.
-/
namespace Tidings

/-- How far a caller is with the lock of its address. -/
inductive Stage where
  | outside
  | waiting (k : LockId)
  | inside (k : LockId)
  | released (k : LockId)
  /-- The handle is given back, and the table has not been looked after yet. -/
  | leaving
deriving DecidableEq

def Stage.handle? : Stage → Option LockId
  | .waiting k | .inside k | .released k => some k
  | .outside | .leaving => none

namespace Locks
variable {ι : Type} [Fintype ι]

/-- How many callers have a handle on a lock. -/
def callersWith (stage : ι → Stage) (k : LockId) : Nat := ∑ i, if (stage i).handle? = some k then 1 else 0

/-- What callers at some addresses and the locks have in common at any time. -/
structure Kept (l : Locks) (place : ι → Option Address) (stage : ι → Stage) : Prop where
  listed : ∀ i k, (stage i).handle? = some k → ∃ a, place i = some a ∧ l.table.get? a = some k
  distinct : ∀ a b k, l.table.get? a = some k → l.table.get? b = some k → a = b
  below : ∀ a k, l.table.get? a = some k → k < l.next
  handles : ∀ a k, l.table.get? a = some k → (l.lock k).handles = 1 + callersWith stage k
  held : ∀ a k, l.table.get? a = some k → ((l.lock k).isHeld ↔ ∃ i, stage i = .inside k)
  single : ∀ i j k, stage i = .inside k → stage j = .inside k → i = j
  needed : ∀ a k, l.table.get? a = some k → ∃ i, place i = some a ∧ stage i ≠ .outside

theorem callersWith_update [DecidableEq ι] (stage : ι → Stage) (i : ι) (x : Stage) (k : LockId) :
    callersWith (Function.update stage i x) k + (if (stage i).handle? = some k then 1 else 0) =
      callersWith stage k + (if x.handle? = some k then 1 else 0) := by
  have hrest : ∑ j ∈ Finset.univ.erase i, (if (Function.update stage i x j).handle? = some k then 1 else 0) =
      ∑ j ∈ Finset.univ.erase i, (if (stage j).handle? = some k then 1 else 0) := by
    refine Finset.sum_congr rfl fun j hj => ?_
    rw [Function.update_of_ne (Finset.ne_of_mem_erase hj)]
  unfold callersWith
  rw [← Finset.add_sum_erase _ _ (Finset.mem_univ i), hrest, Function.update_self,
    ← Finset.add_sum_erase _ (fun j => if (stage j).handle? = some k then 1 else 0) (Finset.mem_univ i)]
  omega

theorem callersWith_eq_zero {stage : ι → Stage} {k : LockId} (h : ∀ i, (stage i).handle? ≠ some k) :
    callersWith stage k = 0 := Finset.sum_eq_zero fun i _ => if_neg (h i)

theorem callersWith_pos {stage : ι → Stage} {k : LockId} {i : ι} (h : (stage i).handle? = some k) :
    0 < callersWith stage k := by
  classical
  unfold callersWith
  rw [← Finset.add_sum_erase _ _ (Finset.mem_univ i), if_pos h]
  omega

namespace Kept
variable [DecidableEq ι] {l : Locks} {place : ι → Option Address} {stage : ι → Stage}

omit [DecidableEq ι] in
theorem initial (place : ι → Option Address) : empty.Kept place fun _ => Stage.outside where
  listed i k h := by cases h
  distinct a b k h := by cases h
  below a k h := by cases h
  handles a k h := by cases h
  held a k h := by cases h
  single i j k h := by cases h
  needed a k h := by cases h

variable (h : l.Kept place stage)
include h

omit [DecidableEq ι] in
/-- Two callers inside at one address are the same. -/
theorem eq_of_inside {i j : ι} {k k' : LockId} (hi : stage i = .inside k) (hj : stage j = .inside k')
    (hplace : place i = place j) : i = j := by
  obtain ⟨a, ha, hka⟩ := h.listed i k (by rw [hi]; rfl)
  obtain ⟨b, hb, hkb⟩ := h.listed j k' (by rw [hj]; rfl)
  obtain rfl : a = b := Option.some.inj (ha.symm.trans (hplace.trans hb))
  obtain rfl : k = k' := Option.some.inj (hka.symm.trans hkb)
  exact h.single i j k hi hj

omit [DecidableEq ι] in
/-- Nobody is inside at the address of a lock that can be acquired. -/
theorem vacant_of_acquire {l' : Locks} {i j : ι} {k k' : LockId} (hi : stage i = .waiting k)
    (hl : l.acquire? k = some l') (hplace : place j = place i) : stage j ≠ .inside k' := by
  intro hj
  obtain ⟨a, ha, hka⟩ := h.listed i k (by rw [hi]; rfl)
  obtain ⟨b, hb, hkb⟩ := h.listed j k' (by rw [hj]; rfl)
  obtain rfl : b = a := Option.some.inj (hb.symm.trans (hplace.trans ha))
  obtain rfl : k' = k := Option.some.inj (hkb.symm.trans hka)
  have hheld : (l.lock k').isHeld := (h.held b k' hka).2 ⟨j, hj⟩
  rw [acquire?, if_pos hheld] at hl
  cases hl

omit [DecidableEq ι] in
/-- When nobody is under way, the table is empty. -/
theorem size_of_outside (hall : ∀ i, stage i = .outside) : l.table.size = 0 := by
  refine l.table.size_eq_length [] List.nodup_nil fun a => ?_
  constructor
  · intro ha
    cases ha
  · rintro ⟨k, hk⟩
    obtain ⟨i, _, hi⟩ := h.needed a k hk
    exact absurd (hall i) hi

/-- A caller comes to another stage with the lock of its address, and only that lock changes. -/
theorem put {i : ι} {k : LockId} {s : Stage} {x : Lock}
    (hk : ∃ a, place i = some a ∧ l.table.get? a = some k)
    (hold : ∀ k', (stage i).handle? = some k' → k' = k) (hnew : ∀ k', s.handle? = some k' → k' = k)
    (hs : s ≠ .outside) (hhandles : x.handles = 1 + callersWith (Function.update stage i s) k)
    (hheld : x.isHeld ↔ ∃ j, Function.update stage i s j = .inside k)
    (hsingle : s = .inside k → ∀ j, stage j ≠ .inside k) :
    (l.put k x).Kept place (Function.update stage i s) := by
  have hinside {j : ι} {k' : LockId} (hne : k' ≠ k) :
      Function.update stage i s j = .inside k' ↔ stage j = .inside k' := by
    by_cases hj : j = i
    · subst hj
      rw [Function.update_self]
      refine ⟨fun heq => absurd (hnew k' ?_) hne, fun heq => absurd (hold k' ?_) hne⟩
      · rw [heq]
        rfl
      · rw [heq]
        rfl
    · rw [Function.update_of_ne hj]
  refine ⟨fun j k' hj => ?_, h.distinct, h.below, fun a k' ha => ?_, fun a k' ha => ?_,
    fun j j' k' hj hj' => ?_, fun a k' ha => ?_⟩
  · by_cases hji : j = i
    · subst hji
      rw [Function.update_self] at hj
      rw [hnew k' hj]
      exact hk
    · rw [Function.update_of_ne hji] at hj
      exact h.listed j k' hj
  · by_cases hkk : k' = k
    · subst hkk
      rw [← hhandles]
      simp [Locks.put]
    · have hcount := callersWith_update stage i s k'
      rw [if_neg fun heq => hkk (hold k' heq), if_neg fun heq => hkk (hnew k' heq)] at hcount
      have hsame : (l.put k x).lock k' = l.lock k' := if_neg hkk
      rw [hsame, h.handles a k' ha]
      omega
  · by_cases hkk : k' = k
    · subst hkk
      rw [← hheld]
      simp [Locks.put]
    · have hsame : (l.put k x).lock k' = l.lock k' := if_neg hkk
      rw [hsame, h.held a k' ha]
      exact exists_congr fun j => (hinside hkk).symm
  · by_cases hkk : k' = k
    · subst hkk
      by_cases hji : j = i
      · subst hji
        by_cases hji' : j' = j
        · exact hji'.symm
        · rw [Function.update_self] at hj
          rw [Function.update_of_ne hji'] at hj'
          exact absurd hj' (hsingle hj j')
      · rw [Function.update_of_ne hji] at hj
        by_cases hji' : j' = i
        · subst hji'
          rw [Function.update_self] at hj'
          exact absurd hj (hsingle hj' j)
        · rw [Function.update_of_ne hji'] at hj'
          exact h.single j j' k' hj hj'
    · exact h.single j j' k' ((hinside hkk).1 hj) ((hinside hkk).1 hj')
  · obtain ⟨j, hj, hstage⟩ := h.needed a k' ha
    refine ⟨j, hj, ?_⟩
    by_cases hji : j = i
    · subst hji
      rwa [Function.update_self]
    · rwa [Function.update_of_ne hji]

/-- A lock is made for the first caller at an address. -/
theorem add {i : ι} {a : Address} (hi : stage i = .outside) (ha : place i = some a)
    (hka : l.table.get? a = none) :
    Kept { l.put l.next ⟨false, 2⟩ with table := l.table.insert a l.next, next := l.next + 1 } place
      (Function.update stage i (.waiting l.next)) := by
  have hunused : ∀ j, (stage j).handle? ≠ some l.next := by
    intro j hj
    obtain ⟨b, _, hb⟩ := h.listed j _ hj
    exact Nat.lt_irrefl _ (h.below b _ hb)
  have hget (b : Address) : (l.table.insert a l.next).get? b = if a = b then some l.next else l.table.get? b :=
    l.table.get?_insert a b l.next
  have hold {b : Address} {k : LockId} (hb : l.table.get? b = some k) : a ≠ b ∧ k ≠ l.next := by
    refine ⟨fun heq => ?_, Nat.ne_of_lt (h.below b k hb)⟩
    rw [← heq, hka] at hb
    cases hb
  have hinside (j : ι) (k : LockId) :
      Function.update stage i (.waiting l.next) j = .inside k ↔ stage j = .inside k := by
    by_cases hji : j = i
    · subst hji
      simp [hi]
    · rw [Function.update_of_ne hji]
  refine ⟨fun j k hj => ?_, fun b c k hb hc => ?_, fun b k hb => ?_, fun b k hb => ?_, fun b k hb => ?_,
    fun j j' k hj hj' => h.single j j' k ((hinside j k).1 hj) ((hinside j' k).1 hj'), fun b k hb => ?_⟩
  · by_cases hji : j = i
    · subst hji
      rw [Function.update_self] at hj
      cases hj
      exact ⟨a, ha, by rw [hget, if_pos rfl]⟩
    · rw [Function.update_of_ne hji] at hj
      obtain ⟨b, hb, hkb⟩ := h.listed j k hj
      exact ⟨b, hb, by rw [hget, if_neg (hold hkb).1, hkb]⟩
  · simp only [hget] at hb hc
    split at hb
    · split at hc
      · next heq heq' => exact heq.symm.trans heq'
      · cases hb
        exact absurd rfl (hold hc).2
    · split at hc
      · cases hc
        exact absurd rfl (hold hb).2
      · exact h.distinct b c k hb hc
  · simp only [hget] at hb
    split at hb
    · cases hb
      exact Nat.lt_succ_self _
    · exact Nat.lt_succ_of_lt (h.below b k hb)
  · have hcount := callersWith_update stage i (.waiting l.next) k
    rw [hi] at hcount
    simp only [hget] at hb
    split at hb
    · cases hb
      have hzero := callersWith_eq_zero hunused
      simp only [Stage.handle?, if_true, reduceCtorEq, if_false] at hcount
      have hlock : (l.put l.next ⟨false, 2⟩).lock l.next = ⟨false, 2⟩ := if_pos rfl
      simp only [hlock]
      omega
    · have hne := (hold hb).2
      have hlock : (l.put l.next ⟨false, 2⟩).lock k = l.lock k := if_neg hne
      simp only [Stage.handle?, reduceCtorEq, if_false, Option.some.injEq, Ne.symm hne] at hcount
      simp only [hlock, h.handles b k hb]
      omega
  · simp only [hinside]
    simp only [hget] at hb
    split at hb
    · cases hb
      have hlock : (l.put l.next ⟨false, 2⟩).lock l.next = ⟨false, 2⟩ := if_pos rfl
      simp only [hlock]
      refine ⟨fun hheld => absurd hheld Bool.false_ne_true, fun hin => ?_⟩
      obtain ⟨j, hj⟩ := hin
      refine absurd ?_ (hunused j)
      rw [hj]
      rfl
    · have hlock : (l.put l.next ⟨false, 2⟩).lock k = l.lock k := if_neg (hold hb).2
      simp only [hlock]
      exact h.held b k hb
  · simp only [hget] at hb
    split at hb
    · next heq =>
      subst heq
      exact ⟨i, ha, by simp⟩
    · obtain ⟨j, hj, hstage⟩ := h.needed b k hb
      refine ⟨j, hj, ?_⟩
      by_cases hji : j = i
      · subst hji
        simp
      · rwa [Function.update_of_ne hji]

/-- A caller comes and gets a handle. -/
theorem take {i : ι} {a : Address} (hi : stage i = .outside) (ha : place i = some a) :
    (l.take a).2.Kept place (Function.update stage i (.waiting (l.take a).1)) := by
  cases hka : l.table.get? a with
  | some k =>
    have htake : l.take a = (k, l.put k { l.lock k with handles := (l.lock k).handles + 1 }) := by
      rw [Locks.take, hka]
    have hcount := callersWith_update stage i (.waiting k) k
    rw [hi] at hcount
    rw [htake]
    show (l.put k { l.lock k with handles := (l.lock k).handles + 1 }).Kept place
      (Function.update stage i (.waiting k))
    refine h.put ⟨a, ha, hka⟩ (by simp [hi, Stage.handle?]) (by simp [Stage.handle?]) (by simp) ?_ ?_ (by simp)
    · show (l.lock k).handles + 1 = _
      have hhandles := h.handles a k hka
      simp only [Stage.handle?, if_true, reduceCtorEq, if_false] at hcount
      omega
    · refine (h.held a k hka).trans (exists_congr fun j => ?_)
      by_cases hji : j = i
      · subst hji
        simp [hi]
      · rw [Function.update_of_ne hji]
  | none =>
    have htake : l.take a = (l.next,
        { l.put l.next ⟨false, 2⟩ with table := l.table.insert a l.next, next := l.next + 1 }) := by
      rw [Locks.take, hka]
    rw [htake]
    exact h.add hi ha hka

/-- A caller goes inside. -/
theorem acquire {l' : Locks} {i : ι} {k : LockId} (hi : stage i = .waiting k) (hl : l.acquire? k = some l') :
    l'.Kept place (Function.update stage i (.inside k)) := by
  obtain ⟨a, ha, hka⟩ := h.listed i k (by rw [hi]; rfl)
  have hvacant : ¬ (l.lock k).isHeld := by
    intro hheld
    rw [acquire?, if_pos hheld] at hl
    cases hl
  rw [acquire?, if_neg hvacant] at hl
  cases hl
  have hcount := callersWith_update stage i (.inside k) k
  rw [hi] at hcount
  refine h.put ⟨a, ha, hka⟩ (by simp [hi, Stage.handle?]) (by simp [Stage.handle?]) (by simp) ?_ ?_ ?_
  · show (l.lock k).handles = _
    have hhandles := h.handles a k hka
    simp only [Stage.handle?, if_true] at hcount
    omega
  · exact ⟨fun _ => ⟨i, Function.update_self ..⟩, fun _ => rfl⟩
  · exact fun _ j hj => hvacant ((h.held a k hka).2 ⟨j, hj⟩)

theorem release {i : ι} {k : LockId} (hi : stage i = .inside k) :
    (l.release k).Kept place (Function.update stage i (.released k)) := by
  obtain ⟨a, ha, hka⟩ := h.listed i k (by rw [hi]; rfl)
  have hcount := callersWith_update stage i (.released k) k
  rw [hi] at hcount
  refine h.put ⟨a, ha, hka⟩ (by simp [hi, Stage.handle?]) (by simp [Stage.handle?]) (by simp) ?_ ?_ (by simp)
  · show (l.lock k).handles = _
    have hhandles := h.handles a k hka
    simp only [Stage.handle?, if_true] at hcount
    omega
  · refine ⟨fun hheld => absurd hheld Bool.false_ne_true, fun hin => ?_⟩
    obtain ⟨j, hj⟩ := hin
    by_cases hji : j = i
    · subst hji
      rw [Function.update_self] at hj
      cases hj
    · rw [Function.update_of_ne hji] at hj
      exact absurd (h.single j i k hj hi) hji

theorem letGo {i : ι} {k : LockId} (hi : stage i = .released k) :
    (l.letGo k).Kept place (Function.update stage i .leaving) := by
  obtain ⟨a, ha, hka⟩ := h.listed i k (by rw [hi]; rfl)
  have hcount := callersWith_update stage i .leaving k
  rw [hi] at hcount
  refine h.put ⟨a, ha, hka⟩ (by simp [hi, Stage.handle?]) (by simp [Stage.handle?]) (by simp) ?_ ?_ (by simp)
  · show (l.lock k).handles - 1 = _
    have hhandles := h.handles a k hka
    simp only [Stage.handle?, if_true, reduceCtorEq, if_false] at hcount
    omega
  · refine (h.held a k hka).trans (exists_congr fun j => ?_)
    by_cases hji : j = i
    · subst hji
      simp [hi]
    · rw [Function.update_of_ne hji]

/-- A caller that gave its handle back goes, and the table may become smaller, but not by what is needed. -/
theorem leave {i : ι} {a : Address} {t : Dict Address LockId} (hi : stage i = .leaving)
    (ha : place i = some a) (hsub : ∀ b k, t.get? b = some k → l.table.get? b = some k)
    (hlisted : ∀ j k, (stage j).handle? = some k → ∃ b, place j = some b ∧ t.get? b = some k)
    (hneeded : ∀ k, t.get? a = some k → ∃ j, j ≠ i ∧ place j = some a ∧ stage j ≠ .outside) :
    Kept { l with table := t } place (Function.update stage i .outside) := by
  have hinside (j : ι) (k : LockId) :
      Function.update stage i .outside j = .inside k ↔ stage j = .inside k := by
    by_cases hji : j = i
    · subst hji
      simp [hi]
    · rw [Function.update_of_ne hji]
  refine ⟨fun j k hj => ?_, fun b c k hb hc => h.distinct b c k (hsub b k hb) (hsub c k hc),
    fun b k hb => h.below b k (hsub b k hb), fun b k hb => ?_, fun b k hb => ?_,
    fun j j' k hj hj' => h.single j j' k ((hinside j k).1 hj) ((hinside j' k).1 hj'), fun b k hb => ?_⟩
  · by_cases hji : j = i
    · subst hji
      rw [Function.update_self] at hj
      cases hj
    · rw [Function.update_of_ne hji] at hj
      exact hlisted j k hj
  · have hcount := callersWith_update stage i .outside k
    rw [hi] at hcount
    simp only [Stage.handle?, reduceCtorEq, if_false] at hcount
    have hhandles := h.handles b k (hsub b k hb)
    simp only [hhandles]
    omega
  · simp only [hinside]
    exact h.held b k (hsub b k hb)
  · obtain ⟨j, hj, hstage⟩ := h.needed b k (hsub b k hb)
    by_cases hji : j = i
    · subst hji
      obtain rfl : a = b := Option.some.inj (ha.symm.trans hj)
      obtain ⟨j', hne, hj', hstage'⟩ := hneeded k hb
      exact ⟨j', hj', by rwa [Function.update_of_ne hne]⟩
    · exact ⟨j, hj, by rwa [Function.update_of_ne hji]⟩

/-- A caller leaves, and the lock is forgotten if nobody else has a handle on it. -/
theorem tidy {i : ι} {a : Address} (hi : stage i = .leaving) (ha : place i = some a) :
    (l.tidy a).Kept place (Function.update stage i .outside) := by
  cases hka : l.table.get? a with
  | none =>
    have htidy : l.tidy a = l := by rw [Locks.tidy, hka]
    rw [htidy]
    exact h.leave hi ha (fun _ _ hb => hb) h.listed fun k hk => absurd (hka.symm.trans hk) (by simp)
  | some k =>
    have hhandles := h.handles a k hka
    by_cases hlast : (l.lock k).handles = 1
    · have htidy : l.tidy a = { l with table := l.table.erase a } := by
        simp only [Locks.tidy, hka, hlast, if_true]
      rw [htidy]
      refine h.leave hi ha (fun b k' hb => ?_) (fun j k' hj => ?_) fun k' hk => ?_
      · rw [Dict.get?_erase] at hb
        split at hb
        · cases hb
        · exact hb
      · obtain ⟨b, hb, hkb⟩ := h.listed j k' hj
        refine ⟨b, hb, ?_⟩
        rw [Dict.get?_erase, if_neg, hkb]
        rintro rfl
        obtain rfl : k = k' := Option.some.inj (hka.symm.trans hkb)
        have hpos := callersWith_pos hj
        omega
      · rw [Dict.get?_erase, if_pos rfl] at hk
        cases hk
    · have htidy : l.tidy a = l := by simp only [Locks.tidy, hka, hlast, if_false]
      rw [htidy]
      refine h.leave hi ha (fun _ _ hb => hb) h.listed fun k' hk => ?_
      obtain rfl : k = k' := Option.some.inj (hka.symm.trans hk)
      -- the table has not the only handle, so some caller has one
      obtain ⟨j, hj⟩ : ∃ j, (stage j).handle? = some k := by
        by_contra hnone
        have hzero := callersWith_eq_zero fun j hj => hnone ⟨j, hj⟩
        omega
      obtain ⟨b, hb, hkb⟩ := h.listed j k hj
      obtain rfl : a = b := h.distinct a b k hka hkb
      refine ⟨j, ?_, hb, ?_⟩
      · rintro rfl
        rw [hi] at hj
        cases hj
      · intro hout
        rw [hout] at hj
        cases hj

end Kept

end Locks

end Tidings
