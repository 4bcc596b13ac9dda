import Mathlib.Data.List.Nodup
import Mathlib.Data.List.Sort
import Tidings.Memory
/-!
The log of a store: one list of what is stored, in the order in which it was stored. It says what a store
means without saying how it is kept.
-/
namespace Tidings

/-- Everything stored, in the order of storing. -/
abbrev Log := List Stored

namespace Log

def ids (log : Log) : List Id := log.map (·.notification.id)

def hasId (id : Id) (s : Stored) : Bool := s.notification.id = id

def isAt (a : Address) (s : Stored) : Bool := s.notification.target = some a

/-- Whether an entry holds a group at an address, whatever its mode. -/
def holds (a : Address) (group : String) (s : Stored) : Bool :=
  isAt a s && s.notification.group = some group

def holdsQueued (a : Address) (group : String) (s : Stored) : Bool :=
  s.notification.mode = .queued && holds a group s

/-- Whether a notification takes the place of an entry. -/
def yields (n : Notification) (s : Stored) : Bool :=
  match n.target, n.group with
  | some a, some group => holds a group s
  | _, _ => false

/-- The log without the entries of some kind. -/
def without (p : Stored → Bool) (log : Log) : Log := log.filter fun s => !p s

/-- Stores a notification in place of the entry with the same target and group. What has no target or is
ephemeral is not stored. -/
def store (now : Instant) (n : Notification) (log : Log) : Option Id × Log :=
  if n.isStored then
    ((log.find? (yields n)).map (·.notification.id), without (yields n) log ++ [⟨n, now⟩])
  else (none, log)

def remove (id : Id) (log : Log) : Option Address × Log :=
  ((log.find? (hasId id)).bind (·.notification.target), without (hasId id) log)

def removeGroup (a : Address) (group : String) (log : Log) : Option Id × Log :=
  ((log.find? (holdsQueued a group)).map (·.notification.id), without (holdsQueued a group) log)

def get (id : Id) (log : Log) : Option Notification :=
  (log.find? (hasId id)).map (·.notification)

def mode (id : Id) (log : Log) : Option Mode := (get id log).map (·.mode)

/-- Notifications in the order of creation, those of one time in the order of storing. -/
def byCreation (ns : List Notification) : List Notification :=
  ns.insertionSort fun x y => x.createdAt ≤ y.createdAt

def queued (a : Address) (log : Log) : List Notification :=
  byCreation ((log.filter fun s => isAt a s && s.notification.mode = .queued).map (·.notification))

def since (a : Address) (t : Instant) (log : Log) : List Notification :=
  byCreation ((log.filter fun s =>
    isAt a s && (s.notification.mode = .timeseries && t < s.notification.createdAt)).map
      (·.notification))

/-- Whether an entry was stored strictly before the cutoff of its mode. -/
def isOld (queuedBefore timeseriesBefore : Instant) (s : Stored) : Bool :=
  (s.notification.mode = .queued && s.storedAt < queuedBefore) ||
    (s.notification.mode = .timeseries && s.storedAt < timeseriesBefore)

def purge (queuedBefore timeseriesBefore : Instant) (log : Log) : Nat × Log :=
  ((log.filter (isOld queuedBefore timeseriesBefore)).length,
    without (isOld queuedBefore timeseriesBefore) log)

/-- What every log of a store keeps: identifiers are not shared, only what is to be stored is there, and
a group has one holder at most. -/
structure Sound (log : Log) : Prop where
  distinct : log.ids.Nodup
  stored : ∀ s ∈ log, s.notification.isStored
  single : ∀ a group, (log.filter (holds a group)).length ≤ 1

theorem sound_nil : Sound [] := ⟨List.nodup_nil, by simp, by simp⟩

theorem target_of_holdsQueued {a : Address} {group : String} {s : Stored} (h : holdsQueued a group s) :
    s.notification.target = some a := by
  simp only [holdsQueued, holds, isAt, Bool.and_eq_true, decide_eq_true_eq] at h
  exact h.2.1

theorem mem_without {p : Stored → Bool} {log : Log} {s : Stored} :
    s ∈ without p log ↔ s ∈ log ∧ p s = false := by
  simp [without]

theorem without_sublist (p : Stored → Bool) (log : Log) : (without p log).Sublist log :=
  List.filter_sublist

/-- The first entry of a kind of which there is one at most. -/
theorem find?_eq_some_iff_of_unique {p : Stored → Bool} {log : Log}
    (hu : ∀ s ∈ log, ∀ t ∈ log, p s → p t → s = t) (s : Stored) :
    log.find? p = some s ↔ s ∈ log ∧ p s := by
  constructor
  · intro h
    exact ⟨List.mem_of_find?_eq_some h, List.find?_some h⟩
  · rintro ⟨hs, hp⟩
    cases hf : log.find? p with
    | none => exact absurd hp (List.find?_eq_none.1 hf s hs)
    | some t => rw [hu t (List.mem_of_find?_eq_some hf) s hs (List.find?_some hf) hp]

theorem without_of_find?_none {p : Stored → Bool} {log : Log} (h : log.find? p = none) :
    without p log = log :=
  List.filter_eq_self.2 fun s hs => by simpa using List.find?_eq_none.1 h s hs

/-- Two conditions that agree on a log leave the same of it. -/
theorem without_congr {p q : Stored → Bool} {log : Log} (h : ∀ s ∈ log, p s = q s) :
    without p log = without q log :=
  List.filter_congr fun s hs => by rw [h s hs]

theorem find?_without_hasId (id id' : Id) (log : Log) :
    (without (hasId id) log).find? (hasId id') =
      if id = id' then none else log.find? (hasId id') := by
  rw [without, List.find?_filter]
  by_cases h : id = id'
  · subst h
    rw [if_pos rfl, List.find?_eq_none]
    intro s _
    simp
  · rw [if_neg h]
    refine congrArg (fun p => List.find? p log) (funext fun s => ?_)
    by_cases hs : s.notification.id = id'
    · simp [hasId, hs, Ne.symm h]
    · simp [hasId, hs]

theorem exists_target {s : Stored} (h : s.notification.isStored) :
    ∃ a, s.notification.target = some a ∧ s.notification.mode.isPersisted := by
  simp only [Notification.isStored, Bool.and_eq_true] at h
  obtain ⟨a, ha⟩ := Option.isSome_iff_exists.1 h.1
  exact ⟨a, ha, h.2⟩

namespace Sound
variable {log : Log}

theorem sublist {log' : Log} (h : Sound log) (hs : log'.Sublist log) : Sound log' where
  distinct := (hs.map _).nodup h.distinct
  stored s hm := h.stored s (hs.subset hm)
  single a group := (hs.filter _).length_le.trans (h.single a group)

theorem without (h : Sound log) (p : Stored → Bool) : Sound (Log.without p log) :=
  h.sublist (without_sublist p log)

theorem eq_of_id (h : Sound log) {s t : Stored} (hs : s ∈ log) (ht : t ∈ log)
    (hid : s.notification.id = t.notification.id) : s = t :=
  List.inj_on_of_nodup_map h.distinct hs ht hid

theorem find?_hasId (h : Sound log) (s : Stored) (id : Id) :
    log.find? (hasId id) = some s ↔ s ∈ log ∧ s.notification.id = id := by
  have hu : ∀ x ∈ log, ∀ y ∈ log, hasId id x → hasId id y → x = y := by
    intro x hx y hy hxid hyid
    refine h.eq_of_id hx hy ?_
    simp only [hasId, decide_eq_true_eq] at hxid hyid
    exact hxid.trans hyid.symm
  refine (find?_eq_some_iff_of_unique hu s).trans ?_
  simp only [hasId, decide_eq_true_eq]

theorem eq_of_holds (h : Sound log) {a : Address} {group : String} {s t : Stored} (hs : s ∈ log)
    (ht : t ∈ log) (hsg : holds a group s) (htg : holds a group t) : s = t := by
  have hs' : s ∈ log.filter (holds a group) := List.mem_filter.2 ⟨hs, hsg⟩
  have ht' : t ∈ log.filter (holds a group) := List.mem_filter.2 ⟨ht, htg⟩
  have hle := h.single a group
  cases hl : log.filter (holds a group) with
  | nil => rw [hl] at hs'; cases hs'
  | cons x rest =>
    have hrest : rest = [] := by
      rw [hl, List.length_cons] at hle
      exact List.eq_nil_of_length_eq_zero (by omega)
    rw [hl, hrest] at hs' ht'
    rw [List.mem_singleton.1 hs', List.mem_singleton.1 ht']

theorem find?_holds (h : Sound log) (a : Address) (group : String) (s : Stored) :
    log.find? (holds a group) = some s ↔ s ∈ log ∧ holds a group s :=
  find?_eq_some_iff_of_unique (fun _ hx _ hy hxg hyg => h.eq_of_holds hx hy hxg hyg) s

/-- The queued holder of a group, which is the only one. -/
theorem find?_holdsQueued (h : Sound log) (a : Address) (group : String) (s : Stored) :
    log.find? (holdsQueued a group) = some s ↔ s ∈ log ∧ holdsQueued a group s := by
  refine find?_eq_some_iff_of_unique (fun x hx y hy hxg hyg => ?_) s
  exact h.eq_of_holds hx hy (Bool.and_eq_true_iff.1 hxg).2 (Bool.and_eq_true_iff.1 hyg).2

/-- Taking out the holder of a group is taking out its identifier. -/
theorem without_holder (h : Sound log) {a : Address} {group : String} {s : Stored}
    {p : Stored → Bool} (hs : s ∈ log) (hp : p s) (hle : ∀ t, p t → holds a group t) :
    Log.without p log = Log.without (hasId s.notification.id) log := by
  refine without_congr fun t ht => ?_
  by_cases hpt : p t
  · have heq := h.eq_of_holds ht hs (hle t hpt) (hle s hp)
    simp [heq, hp, hasId]
  · have hne : ¬ t.notification.id = s.notification.id := fun hid =>
      hpt (h.eq_of_id ht hs hid ▸ hp)
    simp [hpt, hasId, hne]

theorem without_holdsQueued (h : Sound log) {a : Address} {group : String} {s : Stored}
    (hf : log.find? (holdsQueued a group) = some s) :
    Log.without (holdsQueued a group) log = Log.without (hasId s.notification.id) log := by
  obtain ⟨hs, hp⟩ := (h.find?_holdsQueued a group s).1 hf
  exact h.without_holder hs hp fun t ht => (Bool.and_eq_true_iff.1 ht).2

theorem append (h : Sound log) {n : Notification} (now : Instant) (hst : n.isStored)
    (hfresh : n.id ∉ log.ids) (hno : ∀ s ∈ log, yields n s = false) :
    Sound (log ++ [⟨n, now⟩]) where
  distinct := by
    rw [ids, List.map_append]
    refine List.Nodup.append h.distinct (List.nodup_singleton _) ?_
    exact List.disjoint_singleton.2 hfresh
  stored s hs := by
    rcases List.mem_append.1 hs with hs | hs
    · exact h.stored s hs
    · rw [List.mem_singleton.1 hs]; exact hst
  single a group := by
    rw [List.filter_append, List.length_append]
    by_cases hn : holds a group ⟨n, now⟩
    · have hnone : log.filter (holds a group) = [] := by
        rw [List.filter_eq_nil_iff]
        intro s hs
        simp only [holds, isAt, Bool.and_eq_true, decide_eq_true_eq] at hn
        simpa [yields, hn.1, hn.2] using hno s hs
      rw [hnone, List.length_nil, Nat.zero_add]
      exact List.length_filter_le _ _
    · simpa [hn] using h.single a group

end Sound

/-- What a notification takes the place of holds its group at its target. -/
theorem holds_of_yields {n : Notification} {s : Stored} {a : Address} (ha : n.target = some a)
    (h : yields n s) : holds a (n.group.getD "") s := by
  cases hg : n.group with
  | none => simp [yields, ha, hg] at h
  | some group => simpa [yields, ha, hg] using h

theorem yields_without {n : Notification} {log : Log} :
    ∀ s ∈ without (yields n) log, yields n s = false := fun _ hs => (mem_without.1 hs).2

theorem ids_without_subset (p : Stored → Bool) (log : Log) : (without p log).ids ⊆ log.ids :=
  ((without_sublist p log).map _).subset

end Log

end Tidings
