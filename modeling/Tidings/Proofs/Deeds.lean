import Tidings.Backend.InMemory
import Tidings.Proofs.Delivery
import Tidings.Proofs.Representation
import Tidings.Service
/-!
What a call does, piece by piece. Over the backend without a database every call is a short list of deeds:
a notification is posted, or a stored one is withdrawn. The log and the events are both read off it.
-/
namespace Tidings

inductive Deed where
  /-- A notification is announced, and stored if it is to be. -/
  | post (n : Notification)
  /-- A stored notification is taken back. -/
  | withdraw (id : Id) (a : Address)

namespace Deed

def event : Deed → Event
  | .post n => .notify n
  | .withdraw id a => .dismissed id (some a)

def onLog (now : Instant) (log : Log) : Deed → Log
  | .post n => if n.isStored then log ++ [⟨n, now⟩] else log
  | .withdraw id _ => log.without (Log.hasId id)

/-- What a deed relies on: what is withdrawn is stored, and what is posted is new. -/
def Fits (log : Log) : Deed → Prop
  | .post n => n.id ∉ log.ids
  | .withdraw id a => ∃ s ∈ log, s.notification.id = id ∧ s.notification.target = some a

/-- Each deed fits the log that those before it leave. -/
def AllFit (now : Instant) : Log → List Deed → Prop
  | _, [] => True
  | log, d :: ds => d.Fits log ∧ AllFit now (d.onLog now log) ds

def logAfter (now : Instant) (log : Log) (ds : List Deed) : Log := ds.foldl (onLog now) log

def events (ds : List Deed) : List Event := ds.map event

end Deed

/-- A service over the backend without a database. -/
def Service.overMemory (id : Id) (settings : Settings) (hooks : Hooks) : Service Memory :=
  ⟨id, settings, Backend.inMemory, hooks⟩

/-- The withdrawal of the entry whose place a notification takes. -/
def replacement (log : Log) (n : Notification) : List Deed :=
  match n.target, log.find? (Log.yields n) with
  | some a, some s => [.withdraw s.notification.id a]
  | _, _ => []

namespace Service

/-- Whether a notification passes the checks and the hook. -/
def admits {σ : Type} (service : Service σ) (n : Notification) : Bool :=
  (problem? n).isNone && service.hooks.beforeSend n ≠ .suppress

variable (service : Service Memory)

/-- What the sending of a notification does. -/
def sendDeeds (log : Log) (n : Notification) : List Deed :=
  if service.admits n then
    if n.isStored then replacement log n ++ [.post n] else [.post n]
  else []

end Service

/-- The withdrawal of a queued entry by its identifier. -/
def dismissDeeds (log : Log) (recent : Recent) (id : Id) : List Deed :=
  if recent.contains id then []
  else
    match log.find? (Log.hasId id) with
    | some s =>
      if s.notification.mode.isDismissible then s.notification.target.toList.map (.withdraw id)
      else []
    | none => []

/-- The withdrawal of the queued holder of a group. -/
def dismissGroupDeeds (log : Log) (a : Address) (group : String) : List Deed :=
  (log.find? (Log.holdsQueued a group)).toList.map fun s => .withdraw s.notification.id a

/-- A call that producers and clients make. -/
inductive Call where
  | notify (fresh : Id) (target : Address) (kind : String) (mode : Mode) (group : Option String)
      (payload : Json.Members)
  | broadcast (fresh : Id) (kind : String) (group : Option String) (payload : Json.Members)
  | dismiss (id : Id)
  | dismissGroup (a : Address) (group : String)

namespace Call
variable (service : Service Memory) (now : Instant)

def run : Call → Service.State Memory → Service.State Memory
  | .notify fresh target kind mode group payload, s =>
    (service.notify now fresh target kind mode group payload s).2
  | .broadcast fresh kind group payload, s => (service.broadcast now fresh kind group payload s).2
  | .dismiss id, s => (service.dismiss now id s).2
  | .dismissGroup a group, s => (service.dismissGroup now a group s).2

/-- The identifier that is given to a new notification. -/
def fresh? : Call → Option Id
  | .notify fresh .. | .broadcast fresh .. => some fresh
  | .dismiss _ | .dismissGroup _ _ => none

/-- What a call does when so much is stored and remembered. -/
def deeds (log : Log) (recent : Recent) : Call → List Deed
  | .notify fresh target kind mode group payload =>
    if target.owner = "" then []
    else service.sendDeeds log (.create fresh now (some target) kind mode group payload)
  | .broadcast fresh kind group payload =>
    service.sendDeeds log (.create fresh now none kind .ephemeral group payload)
  | .dismiss id => dismissDeeds log recent id
  | .dismissGroup a group => dismissGroupDeeds log a group

end Call

/-- The log and the events of a state after some deeds. -/
structure Done (now : Instant) (log : Log) (s : Service.State Memory) (ds : List Deed)
    (s' : Service.State Memory) : Prop where
  store : s'.store.Represents (Deed.logAfter now log ds)
  registry : s'.registry = s.registry.deliverAll now (Deed.events ds)
  fit : Deed.AllFit now log ds

open Log

theorem replacement_eq {log : Log} {n : Notification} {a : Address} (ha : n.target = some a) :
    replacement log n =
      (log.find? (yields n)).toList.map fun s => .withdraw s.notification.id a := by
  unfold replacement
  cases hf : log.find? (yields n) <;> simp [ha]

/-- Withdrawing what is replaced and posting what replaces it is storing. -/
theorem logAfter_send {log : Log} (h : Sound log) (now : Instant) {n : Notification}
    (hst : n.isStored) :
    Deed.logAfter now log (replacement log n ++ [.post n]) = (log.store now n).2 := by
  obtain ⟨a, ha, _⟩ : ∃ a, n.target = some a ∧ n.mode.isPersisted :=
    exists_target (s := ⟨n, now⟩) hst
  rw [replacement_eq ha]
  simp only [Log.store, hst, if_true]
  cases hf : log.find? (yields n) with
  | none =>
    have hw := without_of_find?_none hf
    simp [Deed.logAfter, Deed.onLog, hst, hw]
  | some s =>
    have hs := List.mem_of_find?_eq_some hf
    have hw := h.without_holder hs (List.find?_some hf) fun t => holds_of_yields (s := t) ha
    simp [Deed.logAfter, Deed.onLog, hst, hw]

theorem allFit_send {log : Log} (now : Instant) {n : Notification} (hst : n.isStored)
    (hfresh : n.id ∉ log.ids) : Deed.AllFit now log (replacement log n ++ [.post n]) := by
  obtain ⟨a, ha, _⟩ : ∃ a, n.target = some a ∧ n.mode.isPersisted :=
    exists_target (s := ⟨n, now⟩) hst
  rw [replacement_eq ha]
  cases hf : log.find? (yields n) with
  | none => exact ⟨hfresh, trivial⟩
  | some s =>
    have hs := List.mem_of_find?_eq_some hf
    have hheld := holds_of_yields ha (List.find?_some hf)
    simp only [holds, isAt, Bool.and_eq_true, decide_eq_true_eq] at hheld
    refine ⟨⟨s, hs, rfl, hheld.1⟩, ?_, trivial⟩
    exact fun hm => hfresh (ids_without_subset _ _ hm)

namespace Service
variable {service : Service Memory} (hb : service.backend = Backend.inMemory) {now : Instant}
  {log : Log} {s : Service.State Memory} (h : s.store.Represents log)

include h in
theorem done_nil : Done now log s [] s := ⟨h, rfl, trivial⟩

include hb

theorem emit_eq (e : Event) (s : Service.State Memory) :
    service.emit now e s = { s with registry := (s.registry.deliver now e).2 } := by
  unfold emit
  rw [hb]
  rfl

include h

/-- Storing, in a service over memory. -/
theorem sendStored_done {a : Address} {n : Notification} (ha : n.target = some a)
    (hmode : n.mode.isPersisted) (hfresh : n.id ∉ log.ids) :
    (service.sendStored now a n s).1 = .ok () ∧
      Done now log s (replacement log n ++ [.post n]) (service.sendStored now a n s).2 := by
  have hst : n.isStored := by simp [Notification.isStored, ha, hmode]
  obtain ⟨hr, hrep⟩ := h.store now fun _ => hfresh
  have haccess : access (service.backend.store now n) s =
      (.ok (s.store.store now n).1, s.withStore (s.store.store now n).2) := by
    rw [hb]
    rfl
  have hfound : (s.store.store now n).1 = (log.find? (yields n)).map (·.notification.id) := by
    rw [hr, Log.store, if_pos hst]
  unfold sendStored
  simp only [haccess]
  rw [← logAfter_send h.sound now hst] at hrep
  refine ⟨trivial, ?_, ?_, allFit_send now hst hfresh⟩
  · rw [hfound]
    cases log.find? (yields n) <;> simpa [emit_eq hb, State.withStore] using hrep
  · rw [hfound, replacement_eq ha]
    cases log.find? (yields n) <;>
      simp [emit_eq hb, Registry.deliverAll, Deed.events, Deed.event, State.withStore]

theorem sendUnstored_done {n : Notification} (hst : ¬ n.isStored) (hfresh : n.id ∉ log.ids) :
    (service.sendUnstored now n s).1 = .ok () ∧
      Done now log s [.post n] (service.sendUnstored now n s).2 := by
  unfold sendUnstored
  rw [emit_eq hb]
  refine ⟨rfl, ?_, rfl, hfresh, trivial⟩
  rw [show Deed.logAfter now log [.post n] = log from if_neg hst]
  exact h

theorem send_done {n : Notification} (hfresh : n.id ∉ log.ids) :
    (service.send now n s).1 = .ok () ∧
      Done now log s (if n.isStored then replacement log n ++ [.post n] else [.post n])
        (service.send now n s).2 := by
  unfold send
  cases ha : n.target with
  | none =>
    have hst : ¬ n.isStored := by simp [Notification.isStored, ha]
    rw [if_neg hst]
    exact sendUnstored_done hb h hst hfresh
  | some a =>
    by_cases hmode : n.mode.isPersisted
    · have hst : n.isStored := by simp [Notification.isStored, ha, hmode]
      simp only [hmode, hst, if_true]
      exact sendStored_done hb h ha hmode hfresh
    · have hst : ¬ n.isStored := by simp [Notification.isStored, hmode]
      simp only [hmode, hst, if_false, Bool.false_eq_true]
      exact sendUnstored_done hb h hst hfresh

theorem dispatch_done {n : Notification} (hfresh : n.id ∉ log.ids) :
    Done now log s (service.sendDeeds log n) (service.dispatch now n s).2 ∧
      ∀ n', (service.dispatch now n s).1 = .ok (some n') → n' = n ∧ service.admits n := by
  unfold dispatch sendDeeds admits
  cases hp : problem? n with
  | some fault => exact ⟨done_nil h, fun n' hr => by cases hr⟩
  | none =>
    by_cases hv : service.hooks.beforeSend n = .suppress
    · simp only [hv, if_true]
      exact ⟨done_nil h, fun n' hr => by cases hr⟩
    · obtain ⟨hr, hd⟩ : _ ∧ Done now log s _ _ := send_done hb h hfresh
      simp only [if_neg hv]
      obtain ⟨_, s', hsend, rfl, rfl⟩ : ∃ r s', service.send now n s = (r, s') ∧
          r = .ok () ∧ s' = (service.send now n s).2 := ⟨_, _, rfl, hr, rfl⟩
      rw [hsend]
      simp only [hv, Option.isNone_none, Bool.true_and, ne_eq, not_false_eq_true, decide_true,
        if_true]
      refine ⟨⟨hd.store, hd.registry, hd.fit⟩, fun n' hn' => ?_⟩
      cases hn'
      exact ⟨rfl, trivial⟩

omit h in
theorem emitDismissed_done {m : Memory} {x : Stored} {a : Address} (hx : x ∈ log)
    (ha : x.notification.target = some a)
    (hm : m.Represents (without (hasId x.notification.id) log)) :
    Done now log s [.withdraw x.notification.id a]
      (service.emitDismissed now x.notification.id a (s.withStore m)) := by
  unfold emitDismissed
  rw [emit_eq hb]
  exact ⟨hm, rfl, ⟨x, hx, rfl, ha⟩, trivial⟩

/-- A dismissal, as the log has it. -/
theorem dismiss_eq (id : Id) : service.dismiss now id s =
    if s.recent.contains id then (.error .notDismissible, s)
    else
      match log.find? (hasId id) with
      | none => (.error (.notFound "notification"), s)
      | some x =>
        if x.notification.mode.isDismissible then
          match x.notification.target with
          | some a => (.ok (), service.emitDismissed now id a (s.withStore (s.store.remove id).2))
          | none => (.error (.notFound "notification"), s.withStore (s.store.remove id).2)
        else (.error .notDismissible, s) := by
  have hmode : access (service.backend.mode id) s = (.ok ((log.get id).map (·.mode)), s) := by
    rw [hb, ← h.get_eq]
    rfl
  have hremove : access (service.backend.remove id) s =
      (.ok ((log.get id).bind (·.target)), s.withStore (s.store.remove id).2) := by
    rw [hb, ← (h.remove id).1]
    rfl
  unfold dismiss
  rw [hmode, Log.get]
  cases hf : log.find? (hasId id) with
  | none => rfl
  | some x =>
    simp only [Option.map_some, hremove, Log.get, hf, Option.bind_some]
    cases x.notification.target <;> rfl

theorem dismiss_done (id : Id) :
    Done now log s (dismissDeeds log s.recent id) (service.dismiss now id s).2 := by
  rw [dismiss_eq hb h id, dismissDeeds]
  by_cases hrecent : s.recent.contains id
  · rw [if_pos hrecent, if_pos hrecent]
    exact done_nil h
  · rw [if_neg hrecent, if_neg hrecent]
    cases hf : log.find? (hasId id) with
    | none => exact done_nil h
    | some x =>
      obtain ⟨hx, rfl⟩ := (h.sound.find?_hasId x id).1 hf
      obtain ⟨a, ha, _⟩ := exists_target (h.sound.stored x hx)
      by_cases hd : x.notification.mode.isDismissible
      · simp only [hd, if_true, ha]
        exact emitDismissed_done hb hx ha (h.remove _).2
      · simp only [hd]
        exact done_nil h

/-- The dismissal of a group, as the log has it. -/
theorem dismissGroup_eq (a : Address) (group : String) : service.dismissGroup now a group s =
    match log.find? (holdsQueued a group) with
    | none => (.ok none, s)
    | some x => (.ok (some x.notification.id), service.emitDismissed now x.notification.id a
        (s.withStore (s.store.remove x.notification.id).2)) := by
  have haccess : access (service.backend.removeGroup a group) s =
      (.ok (s.store.removeGroup a group).1, s.withStore (s.store.removeGroup a group).2) := by
    rw [hb]
    rfl
  unfold dismissGroup
  rw [haccess, Memory.removeGroup, h.groupHolder_queued]
  cases hf : log.find? (holdsQueued a group) with
  | none => rfl
  | some x =>
    have hremoved := (h.remove_some (List.mem_of_find?_eq_some hf)).1
    simp only [Option.map_some, Memory.removeHolder, hremoved]

theorem dismissGroup_done (a : Address) (group : String) :
    Done now log s (dismissGroupDeeds log a group) (service.dismissGroup now a group s).2 := by
  rw [dismissGroup_eq hb h, dismissGroupDeeds]
  cases hf : log.find? (holdsQueued a group) with
  | none => exact done_nil h
  | some x =>
    obtain ⟨hx, hp⟩ := (h.sound.find?_holdsQueued a group x).1 hf
    exact emitDismissed_done hb hx (target_of_holdsQueued hp) (h.remove _).2

end Service

namespace Call
variable {service : Service Memory} (hb : service.backend = Backend.inMemory) {now : Instant}
  {log : Log} {s : Service.State Memory} (h : s.store.Represents log)
include hb h

/-- A call does its deeds and nothing else. -/
theorem run_done (c : Call) (hfresh : ∀ id, c.fresh? = some id → id ∉ log.ids) :
    Done now log s (c.deeds service now log s.recent) (c.run service now s) := by
  cases c with
  | notify fresh target kind mode group payload =>
    simp only [run, deeds, Service.notify]
    split
    · exact Service.done_nil h
    · exact (Service.dispatch_done hb h (n := .create fresh now target kind mode group payload)
        (hfresh fresh rfl)).1
  | broadcast fresh kind group payload =>
    exact (Service.dispatch_done hb h (n := .create fresh now none kind .ephemeral group payload)
      (hfresh fresh rfl)).1
  | dismiss id => exact Service.dismiss_done hb h id
  | dismissGroup a group => exact Service.dismissGroup_done hb h a group

end Call

end Tidings
