import Tidings.Proofs.Effects
import Tidings.Proofs.Recency
import Tidings.Proofs.Run
/-!
What comes of a dismissal. The answer depends on what is stored under the identifier, and on whether it is
among the last ones that were sent or heard of without being stored; a dismissal that fails changes nothing.
-/
namespace Tidings
open Log

/-- What happens to one service among others: a step of its own, or a message that arrives. -/
inductive Turn where
  | own (x : Step)
  | remote (now : Instant) (m : Message)

namespace Turn
variable (service : Service Memory)

def run : Turn → Service.State Memory → Service.State Memory
  | .own x, s => x.run service s
  | .remote now m, s => service.receiveRemote now m s

def runAll (xs : List Turn) (s : Service.State Memory) : Service.State Memory :=
  xs.foldl (fun s x => x.run service s) s

/-- The identifier that is given here to a new notification. -/
def fresh? : Turn → Option Id
  | .own x => x.fresh?
  | .remote _ _ => none

def freshIds (xs : List Turn) : List Id := xs.filterMap fresh?

/-- The notification that a turn brings, sent here or heard of from another instance. -/
def brought? : Turn → Option Notification
  | .own (.call now c) => c.sent? service now
  | .own _ => none
  | .remote _ m => if m.origin = service.id then none else m.event.notification?

/-- The identifiers of all that was not to be stored, in the order in which it came. -/
def passingIds (xs : List Turn) : List Id :=
  xs.filterMap fun x => (x.brought? service).bind Notification.passingId?

end Turn

/-- Whether a notification of a mode is stored under an identifier. -/
def Memory.Keeps (m : Memory) (id : Id) (mode : Mode) : Prop :=
  ∃ a, ∃ x ∈ m.entries a, x.notification.id = id ∧ x.notification.mode = mode

/-- From one state to the other a queued notification was taken out of the store, and its withdrawal came
once into the queue of everyone who listens at its target. -/
def Service.State.Withdrew (s : Service.State Memory) (id : Id) (s' : Service.State Memory) : Prop :=
  ∃ a before x after, s.store.entries a = before ++ x :: after ∧
    x.notification.id = id ∧ x.notification.mode = .queued ∧ x.notification.target = some a ∧
    s'.store.entries a = before ++ after ∧ (∀ b ≠ a, s'.store.entries b = s.store.entries b) ∧
    (∀ other, s'.store.get other = if other = id then none else s.store.get other) ∧
    s'.recent = s.recent ∧
    ∀ c, s'.registry.queues.get? c = (s.registry.queues.get? c).map fun q =>
      if s.registry.hears c (some a) then q.push (.dismissed id (some a)) else q

/-- From one state to the other an entry was taken out from under an address, and its withdrawal came once
into the queue of everyone who listens there, and to the hook. -/
structure Service.State.TookOut (s : Service.State Memory) (a : Address) (x : Stored)
    (s' : Service.State Memory) : Prop where
  here : ∃ before after, s.store.entries a = before ++ x :: after ∧ s'.store.entries a = before ++ after
  elsewhere : ∀ b ≠ a, s'.store.entries b = s.store.entries b
  get : ∀ id, s'.store.get id = if id = x.notification.id then none else s.store.get id
  recent : s'.recent = s.recent
  roll : s.registry.SameRoll s'.registry
  queues : ∀ c, s'.registry.queues.get? c = (s.registry.queues.get? c).map fun q =>
    if s.registry.hears c (some a) then q.push (.dismissed x.notification.id (some a)) else q
  told : s'.told = s.told ++ [.dismissed x.notification.id (some a)]

theorem Memory.Represents.keeps_iff {m : Memory} {log : Log} (h : m.Represents log) (id : Id)
    (mode : Mode) : m.Keeps id mode ↔
      ∃ x, log.find? (hasId id) = some x ∧ x.notification.mode = mode := by
  constructor
  · rintro ⟨a, x, hx, hid, hmode⟩
    rw [h.entries_eq] at hx
    exact ⟨x, (h.sound.find?_hasId x id).2 ⟨(List.mem_filter.1 hx).1, hid⟩, hmode⟩
  · rintro ⟨x, hf, hmode⟩
    obtain ⟨hx, hid⟩ := (h.sound.find?_hasId x id).1 hf
    obtain ⟨a, ha, _⟩ := exists_target (h.sound.stored x hx)
    refine ⟨a, x, ?_, hid, hmode⟩
    rw [h.entries_eq]
    exact List.mem_filter.2 ⟨hx, by simp [isAt, ha]⟩

/-- Without its one entry of an identifier, a list is what stands before it and behind it. -/
theorem without_hasId_split {l before after : Log} {x : Stored} (hn : l.ids.Nodup)
    (hl : l = before ++ x :: after) : without (hasId x.notification.id) l = before ++ after := by
  have hids : l.ids = Log.ids before ++ x.notification.id :: Log.ids after := by
    rw [hl, Log.ids, List.map_append, List.map_cons]
    rfl
  rw [hids] at hn
  have hnot : x.notification.id ∉ Log.ids before ++ Log.ids after :=
    (List.nodup_cons.1 (List.nodup_middle.1 hn)).1
  have hother : ∀ y ∈ before ++ after, (!hasId x.notification.id y) = true := by
    intro y hy
    have hne : ¬ y.notification.id = x.notification.id := by
      intro heq
      refine hnot ?_
      rw [← heq, Log.ids, Log.ids, ← List.map_append]
      exact List.mem_map_of_mem hy
    simp [hasId, hne]
  have hself : without (hasId x.notification.id) (x :: after) = without (hasId x.notification.id) after :=
    List.filter_cons_of_neg (by simp [hasId])
  calc without (hasId x.notification.id) l
      = without (hasId x.notification.id) before ++ without (hasId x.notification.id) (x :: after) := by
        rw [hl]
        exact List.filter_append _ _
    _ = without (hasId x.notification.id) (before ++ after) := by
        rw [hself]
        exact (List.filter_append _ _).symm
    _ = before ++ after := List.filter_eq_self.2 hother

namespace Service
variable {service : Service Memory} (hb : service.backend = Backend.inMemory) {now : Instant}
  {log : Log} {s : Service.State Memory}
include hb

/-- What is left when an entry has been removed and its withdrawal emitted. -/
theorem tookOut_of_dismissed (h : s.store.Represents log) (hr : s.registry.Sound) {x : Stored}
    (hx : x ∈ log) {a : Address} (ha : x.notification.target = some a) : s.TookOut a x
      (service.emitDismissed now x.notification.id a
        (s.withStore (s.store.remove x.notification.id).2)) := by
  obtain ⟨_, hrep⟩ := h.remove x.notification.id
  have hentry : x ∈ s.store.entries a := by
    rw [h.entries_eq]
    exact List.mem_filter.2 ⟨hx, by simp [isAt, ha]⟩
  obtain ⟨before, after, hsplit⟩ := List.append_of_mem hentry
  have hdistinct : (Log.ids (s.store.entries a)).Nodup := by
    rw [h.entries_eq]
    exact (h.sound.sublist List.filter_sublist).distinct
  have hentries : ∀ b, (s.store.remove x.notification.id).2.entries b =
      if some a = some b then without (hasId x.notification.id) (s.store.entries b)
      else s.store.entries b := by
    intro b
    rw [hrep.entries_eq, h.filter_without hx, ha, ← h.entries_eq]
  obtain ⟨_, hroll, hqueues⟩ :=
    Registry.deliver_spec now (.dismissed x.notification.id (some a)) hr
  unfold emitDismissed
  rw [emit_eq hb]
  refine ⟨⟨before, after, hsplit, ?_⟩, fun b hne => ?_, fun id => ?_, rfl, hroll, hqueues, rfl⟩
  · refine (hentries a).trans ?_
    rw [if_pos rfl]
    exact without_hasId_split hdistinct hsplit
  · refine (hentries b).trans (if_neg fun heq => ?_)
    exact hne (Option.some.inj heq).symm
  · refine (hrep.get_eq id).trans ?_
    rw [h.get_eq, Log.get, find?_without_hasId]
    by_cases heq : x.notification.id = id
    · simp [heq]
    · simp [heq, Ne.symm heq, Log.get]

/-- What is left when a queued entry has been dismissed. -/
theorem withdrew_of_dismissed (h : s.store.Represents log) (hr : s.registry.Sound) {x : Stored}
    (hx : x ∈ log) (hq : x.notification.mode = .queued) {a : Address}
    (ha : x.notification.target = some a) : s.Withdrew x.notification.id
      (service.emitDismissed now x.notification.id a
        (s.withStore (s.store.remove x.notification.id).2)) := by
  have htook : s.TookOut a x (service.emitDismissed now x.notification.id a
      (s.withStore (s.store.remove x.notification.id).2)) := tookOut_of_dismissed hb h hr hx ha
  obtain ⟨before, after, hbefore, hafter⟩ := htook.here
  exact ⟨a, before, x, after, hbefore, rfl, hq, ha, hafter, htook.elsewhere, htook.get, htook.recent,
    htook.queues⟩

end Service

namespace Turn
variable {service : Service Memory} {used : List Id} {s : Service.State Memory}

/-- A turn remembers what it brings that is not to be stored, and nothing else. -/
theorem recent_run (x : Turn) (s : Service.State Memory) : (x.run service s).recent =
    ((x.brought? service).bind Notification.passingId?).toList.foldl Recent.remember s.recent := by
  cases x with
  | own x =>
    cases x with
    | call now c =>
      obtain ⟨es, hes, _⟩ := c.perform_does service now s
      rw [← c.run_eq_perform] at hes
      exact hes.recent
    | sweep now => rfl
    | connect now as => rfl
    | unregister c => rfl
    | drop c => rfl
    | closeAll => rfl
    | receive c => rfl
  | remote now m =>
    rw [run, brought?]
    by_cases ho : m.origin = service.id
    · rw [service.receiveRemote_of_own now ho, if_pos ho]
      rfl
    · rw [service.receiveRemote_of_other now ho, if_neg ho]
      cases m.event.notification?.bind Notification.passingId? <;> rfl

theorem recent_runAll (xs : List Turn) (s : Service.State Memory) :
    (runAll service xs s).recent = (passingIds service xs).foldl Recent.remember s.recent := by
  induction xs generalizing s with
  | nil => rfl
  | cons x xs ih =>
    have hids : passingIds service (x :: xs) =
        ((x.brought? service).bind Notification.passingId?).toList ++ passingIds service xs := by
      cases hx : (x.brought? service).bind Notification.passingId? <;> simp [passingIds, hx]
    rw [hids, List.foldl_append, ← recent_run]
    exact ih (x.run service s)

variable (hb : service.backend = Backend.inMemory)
include hb

theorem kept_run {log : Log} (h : Kept used s log) (x : Turn)
    (hfresh : ∀ id, x.fresh? = some id → id ∉ used) :
    ∃ log', Kept (x.fresh?.toList ++ used) (x.run service s) log' := by
  cases x with
  | own x => exact h.step hb x hfresh
  | remote now m =>
    rw [run]
    by_cases ho : m.origin = service.id
    · rw [service.receiveRemote_of_own now ho]
      exact ⟨log, h⟩
    · rw [service.receiveRemote_of_other now ho]
      exact ⟨log, h.store, (Registry.deliver_spec now m.event h.registry).1, h.used⟩

/-- Only identifiers of the run occur in what it stores. -/
theorem kept_freshIds {log : Log} (h : Kept used s log) (xs : List Turn) (hf : Fresh (freshIds xs) used) :
    ∃ log', Kept (freshIds xs ++ used) (runAll service xs s) log' := by
  induction xs generalizing s log used with
  | nil => exact ⟨log, h⟩
  | cons x xs ih =>
    have hids : freshIds (x :: xs) = x.fresh?.toList ++ freshIds xs := by
      cases hx : x.fresh? <;> simp [freshIds, hx]
    rw [hids] at hf ⊢
    obtain ⟨hx, hxs⟩ := hf.cons
    obtain ⟨log₁, h₁⟩ := kept_run hb h x hx
    obtain ⟨log₂, h₂⟩ := ih h₁ hxs
    refine ⟨log₂, h₂.mono fun id hid => ?_⟩
    simp only [List.mem_append] at hid ⊢
    tauto

theorem kept_runAll {log : Log} (h : Kept used s log) (xs : List Turn) (hf : Fresh (freshIds xs) used) :
    ∃ used' log', Kept used' (runAll service xs s) log' := ⟨_, kept_freshIds hb h xs hf⟩

end Turn

/-- What comes of a dismissal after any run. It is refused when the identifier is among the last ones, as
many as are remembered, that came without being stored, or is that of a time series; otherwise it withdraws
the queued notification of that identifier; and there is no such notification when it finds none. -/
theorem dismiss_outcome (self : Id) (settings : Settings) (hooks : Hooks) (xs : List Turn)
    (hn : (Turn.freshIds xs).Nodup) (now : Instant) (id : Id) :
    let service := Service.overMemory self settings hooks
    let s := Turn.runAll service xs (Service.initial settings Memory.empty)
    let refused := AmongLast (max 1 settings.recentCapacity) (Turn.passingIds service xs) id ∨
      s.store.Keeps id .timeseries
    let r := service.dismiss now id s
    (r.1 = .error .notDismissible ↔ refused) ∧
    (r.1 = .ok () ↔ ¬ refused ∧ s.store.Keeps id .queued) ∧
    (r.1 = .error (.notFound "notification") ↔ ¬ refused ∧ ¬ s.store.Keeps id .queued) ∧
    (r.1 = .ok () → s.Withdrew id r.2) ∧
    (∀ fault, r.1 = .error fault → r.2 = s) := by
  intro service s refused r
  obtain ⟨used, log, h⟩ : ∃ used log, Kept used s log :=
    Turn.kept_runAll rfl (Kept.initial settings) xs ⟨hn, by simp⟩
  have hrecent : s.recent.contains id ↔
      AmongLast (max 1 settings.recentCapacity) (Turn.passingIds service xs) id := by
    rw [show s.recent = _ from Turn.recent_runAll xs _]
    exact Recent.contains_foldl_remember _ _ _
  have hr : r = _ := Service.dismiss_eq rfl h.store id
  have hne : Fault.notFound "notification" ≠ Fault.notDismissible := by decide
  simp only [refused, ← hrecent, h.store.keeps_iff, hr]
  by_cases hc : s.recent.contains id
  · simp [hc, hne.symm]
  · cases hf : log.find? (hasId id) with
    | none => simp [hc, hne]
    | some x =>
      obtain ⟨hx, rfl⟩ := (h.store.sound.find?_hasId x id).1 hf
      obtain ⟨a, ha, hp⟩ := exists_target (h.store.sound.stored x hx)
      cases hm : x.notification.mode with
      | timeseries => simp [hc, hm, Mode.isDismissible, hne.symm]
      | ephemeral => simp [hm, Mode.isPersisted] at hp
      | queued =>
        have hw : s.Withdrew x.notification.id (service.emitDismissed now x.notification.id a
            (s.withStore (s.store.remove x.notification.id).2)) :=
          Service.withdrew_of_dismissed rfl h.store h.registry hx hm ha
        simpa [hc, hm, ha, Mode.isDismissible] using hw

/-- There is room for one: a broadcast of another instance takes the place of what was sent here before. -/
theorem dismiss_outcome_of_eviction :
    let a : Address := ⟨.session, "s"⟩
    let settings : Settings := { recentCapacity := 0 }
    let service := Service.overMemory ⟨0⟩ settings Hooks.none
    let xs : List Turn := [.own (.call .epoch (.notify ⟨1⟩ a "note" .queued none [])),
      .own (.call .epoch (.notify ⟨2⟩ a "note" .ephemeral none [])),
      .remote .epoch ⟨⟨9⟩, .notify (.create ⟨3⟩ .epoch none "note" .ephemeral none [])⟩]
    let s := Turn.runAll service xs (Service.initial settings Memory.empty)
    (Turn.freshIds xs).Nodup ∧ (service.dismiss .epoch ⟨3⟩ s).1 = .error .notDismissible ∧
      (service.dismiss .epoch ⟨2⟩ s).1 = .error (.notFound "notification") ∧
      s.Withdrew ⟨1⟩ (service.dismiss .epoch ⟨1⟩ s).2 := by
  intro a settings service xs s
  have hn : (Turn.freshIds xs).Nodup := by decide
  have hlast : AmongLast 1 (Turn.passingIds service xs) ⟨3⟩ :=
    ⟨[⟨2⟩], [], rfl, List.not_mem_nil, by decide⟩
  obtain ⟨hrefused, _⟩ := dismiss_outcome ⟨0⟩ settings Hooks.none xs hn .epoch ⟨3⟩
  obtain ⟨_, _, _, hwithdrew, _⟩ := dismiss_outcome ⟨0⟩ settings Hooks.none xs hn .epoch ⟨1⟩
  exact ⟨hn, hrefused.2 (.inl hlast), rfl, hwithdrew rfl⟩

end Tidings
