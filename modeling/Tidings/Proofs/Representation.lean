import Tidings.Proofs.Dict
import Tidings.Proofs.Log
import Tidings.Proofs.StableSort
/-!
How a memory keeps a log. Under each address stands that address's part of the log, and the index leads
from the identifier of every entry to its address.
-/
namespace Tidings.Memory
open Log

/-- A memory that keeps a log. -/
structure Represents (m : Memory) (log : Log) : Prop where
  sound : Sound log
  entries_eq : ∀ a, m.entries a = log.filter (isAt a)
  index_eq : ∀ id, m.index.get? id = (log.find? (hasId id)).bind (·.notification.target)
  occupied : ∀ a, m.byAddress.get? a ≠ some []

theorem empty_represents : empty.Represents [] :=
  ⟨sound_nil, fun _ => rfl, fun _ => rfl, fun _ => by simp [empty]⟩

theorem entries_insert (d : Dict Address (List Stored)) (index : Dict Id Address) (a a' : Address)
    (l : List Stored) : entries ⟨d.insert a l, index⟩ a' = if a = a' then l else
      entries ⟨d, index⟩ a' := by
  unfold entries
  rw [Dict.get?_insert]
  split <;> rfl

theorem entries_erase (d : Dict Address (List Stored)) (index : Dict Id Address) (a a' : Address) :
    entries ⟨d.erase a, index⟩ a' = if a = a' then [] else entries ⟨d, index⟩ a' := by
  unfold entries
  rw [Dict.get?_erase]
  split <;> rfl

/-- Taking out the entry with an identifier leaves the others in their order. -/
theorem takeOut_eq {l : List Stored} (hn : (Log.ids l).Nodup) (id : Id) :
    takeOut id l = (l.find? (hasId id)).map fun s => (s.notification, without (hasId id) l) := by
  induction l with
  | nil => rfl
  | cons s rest ih =>
    have hnr := List.nodup_cons.1 hn
    unfold takeOut
    by_cases h : s.notification.id = id
    · have hrest : without (hasId id) rest = rest := by
        refine List.filter_eq_self.2 fun t ht => ?_
        have hne : ¬ t.notification.id = id := fun ht' =>
          hnr.1 (List.mem_map.2 ⟨t, ht, ht'.trans h.symm⟩)
        simp [hasId, hne]
      have hs : without (hasId id) (s :: rest) = without (hasId id) rest := by
        simp [without, hasId, h]
      rw [if_pos h, hs, hrest]
      simp [hasId, h]
    · have hs : without (hasId id) (s :: rest) = s :: without (hasId id) rest := by
        simp [without, hasId, h]
      rw [if_neg h, ih hnr.2, hs, List.find?_cons_of_neg (by simp [hasId, h]), Option.map_map]
      rfl

namespace Represents
variable {m : Memory} {log : Log}

/-- The entries under an address make up the whole log. -/
theorem values_perm (h : m.Represents log) : m.byAddress.values.flatten.Perm log := by
  refine Dict.values_perm m.byAddress (·.notification.target) log h.entries_eq fun s hs => ?_
  obtain ⟨a, ha, _⟩ := exists_target (h.sound.stored s hs)
  simp [ha]

theorem size_eq (h : m.Represents log) : m.size = log.length := by
  have hs := m.index.size_eq_length log.ids h.sound.distinct (by
    intro id
    rw [h.index_eq]
    constructor
    · intro hid
      obtain ⟨s, hs, rfl⟩ := List.mem_map.1 hid
      obtain ⟨a, ha, _⟩ := exists_target (h.sound.stored s hs)
      exact ⟨a, by rw [(h.sound.find?_hasId s _).2 ⟨hs, rfl⟩]; exact ha⟩
    · rintro ⟨a, ha⟩
      obtain ⟨s, hs, _⟩ := Option.bind_eq_some_iff.1 ha
      obtain ⟨hm, rfl⟩ := (h.sound.find?_hasId s id).1 hs
      exact List.mem_map_of_mem hm)
  simpa [size, ids] using hs

/-- An entry of the log stands under its address. -/
theorem find?_entries (h : m.Represents log) {s : Stored} {a : Address} (hs : s ∈ log)
    (ha : s.notification.target = some a) :
    (m.entries a).find? (hasId s.notification.id) = some s := by
  rw [h.entries_eq]
  refine ((h.sound.sublist List.filter_sublist).find?_hasId s _).2 ⟨?_, rfl⟩
  exact List.mem_filter.2 ⟨hs, by simp [isAt, ha]⟩

theorem get_eq (h : m.Represents log) (id : Id) : m.get id = log.get id := by
  unfold get Log.get
  rw [h.index_eq]
  cases hf : log.find? (hasId id) with
  | none => rfl
  | some s =>
    obtain ⟨hs, rfl⟩ := (h.sound.find?_hasId s id).1 hf
    obtain ⟨a, ha, _⟩ := exists_target (h.sound.stored s hs)
    have he := h.find?_entries hs ha
    simp only [Option.bind_some, ha, Option.map_some]
    exact congrArg (Option.map (·.notification)) he

theorem byCreation_eq (ns : List Notification) :
    ns.mergeSort (fun x y => x.createdAt ≤ y.createdAt) = byCreation ns :=
  StableSort.mergeSort_eq_insertionSort (fun n : Notification => n.createdAt.order) ns

theorem select_eq (h : m.Represents log) (a : Address) (keep : Notification → Bool) :
    m.select a keep = byCreation ((log.filter fun s => isAt a s && keep s.notification).map
      (·.notification)) := by
  unfold select
  rw [byCreation_eq, h.entries_eq, List.filter_map, List.filter_filter]
  simp only [Function.comp_def, Bool.and_comm]

theorem queued_eq (h : m.Represents log) (a : Address) : m.queued a = log.queued a :=
  h.select_eq a _

theorem since_eq (h : m.Represents log) (a : Address) (t : Instant) : m.since a t = log.since a t :=
  h.select_eq a _

/-- The holder of a group, sought under its address, is the one that the log has. -/
theorem groupHolder_eq (h : m.Represents log) (a : Address) (group : String) (mode : Option Mode) :
    m.groupHolder a group mode = (log.find? fun s =>
      holds a group s && mode.all fun wanted => s.notification.mode = wanted).map
        (·.notification.id) := by
  unfold groupHolder
  rw [h.entries_eq, List.find?_filter]
  refine congrArg (fun p => (List.find? p log).map (·.notification.id)) (funext fun s => ?_)
  simp only [holds, Bool.decide_and, Bool.decide_eq_true, Bool.and_assoc]
  rw [Bool.and_comm (mode.all _)]

/-- An address without the identifier keeps its part of the log when that goes. -/
theorem filter_without (h : m.Represents log) {s : Stored} (hs : s ∈ log) (a : Address) :
    (without (hasId s.notification.id) log).filter (isAt a) =
      if s.notification.target = some a then
        without (hasId s.notification.id) (log.filter (isAt a))
      else log.filter (isAt a) := by
  have hcomm : (without (hasId s.notification.id) log).filter (isAt a) =
      without (hasId s.notification.id) (log.filter (isAt a)) := by
    unfold without
    rw [List.filter_filter, List.filter_filter]
    exact List.filter_congr fun t _ => Bool.and_comm _ _
  rw [hcomm]
  split
  · rfl
  · next hne =>
    refine List.filter_eq_self.2 fun t ht => ?_
    obtain ⟨htl, hta⟩ := List.mem_filter.1 ht
    have hid : ¬ t.notification.id = s.notification.id := by
      intro hid
      rw [h.sound.eq_of_id htl hs hid] at hta
      exact hne (by simpa [isAt] using hta)
    simp [hasId, hid]

theorem remove_none (h : m.Represents log) {id : Id} (hf : log.find? (hasId id) = none) :
    m.remove id = (none, m) := by
  unfold remove
  rw [h.index_eq, hf, Option.bind_none]

/-- An address with an entry is one that the memory has. -/
theorem byAddress_of_mem (h : m.Represents log) {s : Stored} {a : Address} (hs : s ∈ log)
    (ha : s.notification.target = some a) : m.byAddress.get? a = some (m.entries a) := by
  have hfind := h.find?_entries hs ha
  unfold entries at hfind ⊢
  cases hg : m.byAddress.get? a with
  | none => rw [hg] at hfind; cases hfind
  | some l => rfl

theorem takeOut_entries (h : m.Represents log) {s : Stored} {a : Address} (hs : s ∈ log)
    (ha : s.notification.target = some a) :
    takeOut s.notification.id (m.entries a) =
      some (s.notification, without (hasId s.notification.id) (m.entries a)) := by
  have hdistinct : Log.Sound (m.entries a) := by
    rw [h.entries_eq]
    exact h.sound.sublist List.filter_sublist
  rw [takeOut_eq hdistinct.distinct, h.find?_entries hs ha, Option.map_some]

/-- Removing an identifier takes its entry out of the log. -/
theorem remove_some (h : m.Represents log) {s : Stored} (hs : s ∈ log) :
    (m.remove s.notification.id).1 = some s.notification ∧
      (m.remove s.notification.id).2.Represents (without (hasId s.notification.id) log) := by
  obtain ⟨a, ha, _⟩ := exists_target (h.sound.stored s hs)
  have hindex : m.index.get? s.notification.id = some a := by
    rw [h.index_eq, (h.sound.find?_hasId s _).2 ⟨hs, rfl⟩, Option.bind_some, ha]
  have hold : ∀ id, (if s.notification.id = id then none else m.index.get? id) =
      ((without (hasId s.notification.id) log).find? (hasId id)).bind (·.notification.target) := by
    intro id
    rw [find?_without_hasId, h.index_eq]
    split <;> rfl
  have hpart : ∀ a', (if a = a' then without (hasId s.notification.id) (m.entries a) else
      m.entries a') = (without (hasId s.notification.id) log).filter (isAt a') := by
    intro a'
    rw [h.filter_without hs, ha, h.entries_eq, h.entries_eq]
    by_cases heq : a = a'
    · subst heq; simp
    · simp [heq]
  unfold remove
  rw [hindex]
  simp only [h.byAddress_of_mem hs ha, Option.bind_some, h.takeOut_entries hs ha]
  -- an address whose last entry goes is forgotten
  cases hrest : without (hasId s.notification.id) (m.entries a) with
  | nil =>
    refine ⟨rfl, h.sound.without _, fun a' => ?_, fun id => ?_, fun a' => ?_⟩
    · rw [← hpart, hrest]
      exact entries_erase _ _ _ _
    · rw [← hold]
      exact Dict.get?_erase _ _ _
    · rw [Dict.get?_erase]
      split
      · simp
      · exact h.occupied a'
  | cons t more =>
    refine ⟨rfl, h.sound.without _, fun a' => ?_, fun id => ?_, fun a' => ?_⟩
    · rw [← hpart, hrest]
      exact entries_insert _ _ _ _ _
    · rw [← hold]
      exact Dict.get?_erase _ _ _
    · rw [Dict.get?_insert]
      split
      · simp
      · exact h.occupied a'

/-- Removal on a memory and on its log. -/
theorem remove (h : m.Represents log) (id : Id) :
    (m.remove id).1 = log.get id ∧ (m.remove id).2.Represents (without (hasId id) log) := by
  cases hf : log.find? (hasId id) with
  | none =>
    rw [h.remove_none hf, without_of_find?_none hf]
    exact ⟨by simp [Log.get, hf], h⟩
  | some s =>
    obtain ⟨hs, rfl⟩ := (h.sound.find?_hasId s id).1 hf
    obtain ⟨hr, hw⟩ := h.remove_some hs
    exact ⟨by rw [hr]; simp [Log.get, hf], hw⟩

/-- Taking out the one entry that a search finds, if all that satisfy the search hold one group. -/
theorem removeHolder (h : m.Represents log) {p : Stored → Bool} {a : Address} {group : String}
    (hp : ∀ s, p s → holds a group s) :
    (m.removeHolder ((log.find? p).map (·.notification.id))).1 =
        (log.find? p).map (·.notification.id) ∧
      (m.removeHolder ((log.find? p).map (·.notification.id))).2.Represents (without p log) := by
  cases hf : log.find? p with
  | none =>
    rw [without_of_find?_none hf]
    exact ⟨rfl, h⟩
  | some s =>
    have hs := List.mem_of_find?_eq_some hf
    obtain ⟨hr, hw⟩ := h.remove_some hs
    rw [h.sound.without_holder hs (List.find?_some hf) hp]
    exact ⟨by simp [Memory.removeHolder, hr], hw⟩

theorem groupHolder_queued (h : m.Represents log) (a : Address) (group : String) :
    m.groupHolder a group (some .queued) = (log.find? (holdsQueued a group)).map (·.notification.id) := by
  rw [h.groupHolder_eq]
  refine congrArg (fun p => (List.find? p log).map (·.notification.id)) (funext fun s => ?_)
  rw [holdsQueued, Bool.and_comm]
  rfl

theorem removeGroup (h : m.Represents log) (a : Address) (group : String) :
    (m.removeGroup a group).1 = (log.removeGroup a group).1 ∧
      (m.removeGroup a group).2.Represents (log.removeGroup a group).2 := by
  unfold Memory.removeGroup
  rw [h.groupHolder_queued]
  exact h.removeHolder fun s hs => (Bool.and_eq_true_iff.1 hs).2

/-- A group without a queued holder is left alone. -/
theorem removeGroup_none (h : m.Represents log) {a : Address} {group : String}
    (hr : (m.removeGroup a group).1 = none) : (m.removeGroup a group).2 = m := by
  have hnone : log.find? (holdsQueued a group) = none :=
    Option.map_eq_none_iff.1 ((h.removeGroup a group).1.symm.trans hr)
  rw [Memory.removeGroup, h.groupHolder_queued, hnone]
  rfl

/-- Adding an entry with a new identifier at the end. -/
theorem append (h : m.Represents log) {n : Notification} {a : Address} (now : Instant)
    (ha : n.target = some a) (hst : n.isStored) (hfresh : n.id ∉ log.ids)
    (hno : ∀ s ∈ log, yields n s = false) :
    Represents ⟨m.byAddress.insert a (m.entries a ++ [⟨n, now⟩]), m.index.insert n.id a⟩
      (log ++ [⟨n, now⟩]) where
  sound := h.sound.append now hst hfresh hno
  entries_eq a' := by
    rw [entries_insert, List.filter_append, ← h.entries_eq]
    by_cases heq : a = a'
    · subst heq; simp [isAt, ha]
    · rw [if_neg heq]
      simp [isAt, ha, heq, entries]
  index_eq id := by
    rw [Dict.get?_insert, List.find?_append]
    by_cases hid : n.id = id
    · subst hid
      have hnone : log.find? (hasId n.id) = none := by
        rw [List.find?_eq_none]
        intro s hs hsid
        exact hfresh (List.mem_map.2 ⟨s, hs, by simpa [hasId] using hsid⟩)
      simp [hnone, hasId, ha]
    · rw [if_neg hid, h.index_eq]
      simp [hasId, hid]
  occupied a' := by
    rw [Dict.get?_insert]
    split
    · simp
    · exact h.occupied a'

theorem store (h : m.Represents log) (now : Instant) {n : Notification}
    (hfresh : n.isStored → n.id ∉ log.ids) :
    (m.store now n).1 = (log.store now n).1 ∧
      (m.store now n).2.Represents (log.store now n).2 := by
  unfold Memory.store Log.store
  cases ha : n.target with
  | none => simpa [Notification.isStored, ha] using h
  | some a =>
    by_cases hmode : n.mode.isPersisted
    · have hst : n.isStored := by simp [Notification.isStored, ha, hmode]
      have hholder : (n.group.bind fun group => m.groupHolder a group none) =
          (log.find? (yields n)).map (·.notification.id) := by
        cases hg : n.group with
        | none =>
          have hnone : log.find? (yields n) = none := by
            simp [List.find?_eq_none, yields, ha, hg]
          rw [hnone]
          rfl
        | some group =>
          rw [Option.bind_some, h.groupHolder_eq]
          refine congrArg (fun p => (List.find? p log).map (·.notification.id))
            (funext fun s => ?_)
          simp [yields, ha, hg]
      have hrm := h.removeHolder fun s => holds_of_yields (n := n) (s := s) ha
      simp only [hmode, hst, if_true, hholder]
      refine ⟨hrm.1, hrm.2.append now ha hst ?_ yields_without⟩
      exact fun hm => hfresh hst (ids_without_subset _ _ hm)
    · simpa [Notification.isStored, ha, hmode] using h

theorem isExpired_eq {s : Stored} (hs : s.notification.isStored) (q t : Instant) :
    s.isExpired q t = isOld q t s := by
  obtain ⟨a, _, hmode⟩ := exists_target hs
  cases hm : s.notification.mode with
  | queued => simp [Stored.isExpired, isOld, hm]
  | timeseries => simp [Stored.isExpired, isOld, hm]
  | ephemeral => simp [hm, Mode.isPersisted] at hmode

theorem expired_perm (h : m.Represents log) (q t : Instant) :
    (m.expired q t).Perm ((log.filter (isOld q t)).map (·.notification.id)) := by
  unfold expired
  refine ((h.values_perm.filter _).trans (List.Perm.of_eq ?_)).map _
  exact List.filter_congr fun s hs => isExpired_eq (h.sound.stored s hs) q t

theorem foldl_remove (h : m.Represents log) (ids : List Id) :
    (ids.foldl (fun m id => (m.remove id).2) m).Represents
      (without (fun s => s.notification.id ∈ ids) log) := by
  induction ids generalizing m log with
  | nil => simpa [without] using h
  | cons id ids ih =>
    have hrest := ih (h.remove id).2
    have heq : without (fun s => s.notification.id ∈ ids) (without (hasId id) log) =
        without (fun s => s.notification.id ∈ id :: ids) log := by
      unfold without
      rw [List.filter_filter]
      refine List.filter_congr fun s _ => ?_
      by_cases hs : s.notification.id = id <;> simp [hasId, hs]
    rwa [heq] at hrest

theorem purge (h : m.Represents log) (q t : Instant) :
    (m.purge q t).1 = (log.purge q t).1 ∧ (m.purge q t).2.Represents (log.purge q t).2 := by
  have hp := h.expired_perm q t
  constructor
  · have hlen := hp.length_eq
    rw [List.length_map] at hlen
    exact hlen
  · have hall := h.foldl_remove (m.expired q t)
    have heq : without (fun s => s.notification.id ∈ m.expired q t) log =
        without (isOld q t) log := by
      refine without_congr fun s hs => ?_
      rw [Bool.eq_iff_iff, decide_eq_true_eq, hp.mem_iff, List.mem_map]
      constructor
      · rintro ⟨x, hx, hid⟩
        obtain ⟨hxl, hold⟩ := List.mem_filter.1 hx
        rwa [h.sound.eq_of_id hxl hs hid] at hold
      · intro hold
        exact ⟨s, List.mem_filter.2 ⟨hs, hold⟩, rfl⟩
    rw [heq] at hall
    exact hall

end Represents

/-- What is reached from the empty memory. A notification is stored under an identifier that nothing else is
stored under at the time. -/
inductive Reachable : Memory → Prop where
  | empty : Reachable .empty
  | store {m : Memory} (h : Reachable m) (now : Instant) (n : Notification) (hfresh : m.get n.id = none) :
    Reachable (m.store now n).2
  | remove {m : Memory} (h : Reachable m) (id : Id) : Reachable (m.remove id).2
  | removeGroup {m : Memory} (h : Reachable m) (a : Address) (group : String) :
    Reachable (m.removeGroup a group).2
  | purge {m : Memory} (h : Reachable m) (queuedBefore timeseriesBefore : Instant) :
    Reachable (m.purge queuedBefore timeseriesBefore).2

theorem Represents.notMem_ids {m : Memory} {log : Log} (h : m.Represents log) {id : Id}
    (hget : m.get id = none) : id ∉ log.ids := by
  rw [h.get_eq, Log.get, Option.map_eq_none_iff] at hget
  intro hid
  obtain ⟨s, hs, rfl⟩ := List.mem_map.1 hid
  exact List.find?_eq_none.1 hget s hs (by simp [Log.hasId])

/-- Every memory that is reached keeps a log. -/
theorem Reachable.represents {m : Memory} (h : m.Reachable) : ∃ log, m.Represents log := by
  induction h with
  | empty => exact ⟨[], empty_represents⟩
  | store _ now n hfresh ih =>
    obtain ⟨log, hr⟩ := ih
    exact ⟨_, (hr.store now fun _ => hr.notMem_ids hfresh).2⟩
  | remove _ id ih =>
    obtain ⟨log, hr⟩ := ih
    exact ⟨_, (hr.remove id).2⟩
  | removeGroup _ a group ih =>
    obtain ⟨log, hr⟩ := ih
    exact ⟨_, (hr.removeGroup a group).2⟩
  | purge _ q t ih =>
    obtain ⟨log, hr⟩ := ih
    exact ⟨_, (hr.purge q t).2⟩

/-- All rows, those of one address in the order of storing. -/
def rows (m : Memory) : List Stored := m.byAddress.values.flatten

end Tidings.Memory
