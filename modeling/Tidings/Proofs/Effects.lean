import Tidings.Expiry
import Tidings.Proofs.Deeds
/-!
What a call does over any backend, effect by effect: the backend is used, an identifier is remembered, an
event is emitted, the hook is told. Whatever every effect keeps, every call keeps.
-/
namespace Tidings

variable {σ : Type}

/-- What a backend may do to its state for a service, besides publishing. -/
inductive Backend.Serves (b : Backend σ) : σ → σ → Prop where
  | store (now : Instant) (n : Notification) (t : σ) : b.Serves t (b.store now n t).2
  | remove (id : Id) (t : σ) : b.Serves t (b.remove id t).2
  | removeGroup (a : Address) (group : String) (t : σ) : b.Serves t (b.removeGroup a group t).2
  | mode (id : Id) (t : σ) : b.Serves t (b.mode id t).2
  | purge (queuedBefore timeseriesBefore : Instant) (t : σ) :
    b.Serves t (b.purge queuedBefore timeseriesBefore t).2

/-- From one state to another some effects were had, one after the other; their events and the identifiers
that were remembered are listed in order. -/
inductive Service.Does (service : Service σ) (now : Instant) :
    State σ → List Event → List Id → State σ → Prop where
  | nothing {s : State σ} : Does service now s [] [] s
  | serve {s s' : State σ} {es : List Event} {ids : List Id} {t : σ}
    (h : Does service now s es ids s') (ht : service.backend.Serves s'.store t) :
    Does service now s es ids (s'.withStore t)
  | remember {s s' : State σ} {es : List Event} {ids : List Id}
    (h : Does service now s es ids s') (id : Id) :
    Does service now s es (ids ++ [id]) (s'.remember id)
  | emit {s s' : State σ} {es : List Event} {ids : List Id}
    (h : Does service now s es ids s') (e : Event) :
    Does service now s (es ++ [e]) ids (service.emit now e s')
  | tell {s s' : State σ} {es : List Event} {ids : List Id}
    (h : Does service now s es ids s') (e : Event) : Does service now s es ids (s'.tell e)

/-- The identifier of a notification that is not to be stored. -/
def Notification.passingId? (n : Notification) : Option Id := if n.isStored then none else some n.id

/-- The notification that an event tells of. -/
def Event.notification? : Event → Option Notification
  | .notify n => some n
  | .dismissed _ _ => none

/-- The notification that a call sends, if it passes the checks and the hook. -/
def Call.sent? (service : Service σ) (now : Instant) : Call → Option Notification
  | .notify fresh target kind mode group payload =>
    let n := Notification.create fresh now (some target) kind mode group payload
    if target.owner ≠ "" ∧ service.admits n then some n else none
  | .broadcast fresh kind group payload =>
    let n := Notification.create fresh now none kind .ephemeral group payload
    if service.admits n then some n else none
  | .dismiss _ | .dismissGroup _ _ => none

/-- What a call sends is admitted, has the identifier that was given to the call, and is made at its time. -/
theorem Call.of_sent? {service : Service σ} {now : Instant} {c : Call} {n : Notification}
    (h : c.sent? service now = some n) :
    service.admits n ∧ c.fresh? = some n.id ∧ n.createdAt = now.toMicrosecond := by
  cases c with
  | notify fresh target kind mode group payload =>
    simp only [sent?, Option.ite_none_right_eq_some, Option.some.injEq] at h
    obtain ⟨⟨_, hadmits⟩, rfl⟩ := h
    exact ⟨hadmits, rfl, rfl⟩
  | broadcast fresh kind group payload =>
    simp only [sent?, Option.ite_none_right_eq_some, Option.some.injEq] at h
    obtain ⟨hadmits, rfl⟩ := h
    exact ⟨hadmits, rfl, rfl⟩
  | dismiss id => cases h
  | dismissGroup a group => cases h

/-- A call to a service over any backend. -/
def Call.perform (service : Service σ) (now : Instant) : Call → Service.State σ → Service.State σ
  | .notify fresh target kind mode group payload, s =>
    (service.notify now fresh target kind mode group payload s).2
  | .broadcast fresh kind group payload, s => (service.broadcast now fresh kind group payload s).2
  | .dismiss id, s => (service.dismiss now id s).2
  | .dismissGroup a group, s => (service.dismissGroup now a group s).2

theorem Call.run_eq_perform (service : Service Memory) (now : Instant) (c : Call)
    (s : Service.State Memory) : c.run service now s = c.perform service now s := by
  cases c <;> rfl

namespace Service
variable (service : Service σ) (now : Instant)

theorem access_eq {α : Type} (x : Access σ α) (s : State σ) :
    access x s = ((x s.store).1, s.withStore (x s.store).2) := rfl

theorem Does.recent {service : Service σ} {now : Instant} {s s' : State σ} {es : List Event}
    {ids : List Id} (h : service.Does now s es ids s') :
    s'.recent = ids.foldl Recent.remember s.recent := by
  induction h with
  | nothing => rfl
  | serve h ht ih => exact ih
  | remember h id ih =>
    rw [List.foldl_append, ← ih]
    rfl
  | emit h e ih => exact ih
  | tell h e ih => exact ih

theorem Does.registry {service : Service σ} {now : Instant} {s s' : State σ} {es : List Event}
    {ids : List Id} (h : service.Does now s es ids s') :
    s'.registry = s.registry.deliverAll now es := by
  induction h with
  | nothing => rfl
  | serve h ht ih => exact ih
  | remember h id ih => exact ih
  | emit h e ih =>
    rw [Registry.deliverAll_append, ← ih]
    rfl
  | tell h e ih => exact ih

/-- Of notifications, sending emits no other than the one to be sent. -/
theorem sendStored_does (a : Address) (n : Notification) (s : State σ) :
    ∃ es, service.Does now s es [] (service.sendStored now a n s).2 ∧
      (es.filterMap Event.notification?).Sublist [n] := by
  have hstored : service.Does now s [] [] (s.withStore (service.backend.store now n s.store).2) :=
    Does.nothing.serve (.store now n s.store)
  unfold sendStored
  rw [access_eq]
  cases hr : (service.backend.store now n s.store).1 with
  | error fault => exact ⟨_, hstored, List.nil_sublist _⟩
  | ok replaced =>
    cases replaced with
    | none => exact ⟨_, hstored.emit (.notify n), List.Sublist.refl _⟩
    | some old => exact ⟨_, (hstored.emit (.dismissed old (some a))).emit (.notify n), List.Sublist.refl _⟩

theorem send_does (n : Notification) (s : State σ) :
    ∃ es, service.Does now s es n.passingId?.toList (service.send now n s).2 ∧
      (es.filterMap Event.notification?).Sublist [n] := by
  have hunstored : service.Does now s [.notify n] [n.id] (service.sendUnstored now n s).2 :=
    (Does.nothing.remember n.id).emit (.notify n)
  unfold send
  cases ha : n.target with
  | none =>
    have hpassing : n.passingId? = some n.id := by
      simp [Notification.passingId?, Notification.isStored, ha]
    rw [hpassing]
    exact ⟨_, hunstored, List.Sublist.refl _⟩
  | some a =>
    by_cases hmode : n.mode.isPersisted
    · have hpassing : n.passingId? = none := by
        simp [Notification.passingId?, Notification.isStored, ha, hmode]
      rw [hpassing]
      simp only [hmode, if_true]
      exact service.sendStored_does now a n s
    · have hpassing : n.passingId? = some n.id := by
        simp [Notification.passingId?, Notification.isStored, hmode]
      rw [hpassing]
      simp only [hmode, Bool.false_eq_true, if_false]
      exact ⟨_, hunstored, List.Sublist.refl _⟩

/-- Whoever has a notification sent gets that one back. -/
theorem eq_of_dispatch {n n' : Notification} {s : State σ}
    (h : (service.dispatch now n s).1 = .ok (some n')) : n' = n := by
  unfold dispatch at h
  split at h
  · cases h
  split at h
  · cases h
  split at h
  · cases h
  · exact (Option.some.inj (Except.ok.inj h)).symm

/-- A notification that passes is sent, and one that does not has no effect. -/
theorem dispatch_does (n : Notification) (s : State σ) :
    ∃ es, service.Does now s es
      ((if service.admits n then some n else none).bind Notification.passingId?).toList
      (service.dispatch now n s).2 ∧
      (es.filterMap Event.notification?).Sublist (if service.admits n then some n else none).toList := by
  unfold dispatch admits
  cases hp : problem? n with
  | some fault => exact ⟨_, Does.nothing, List.nil_sublist _⟩
  | none =>
    by_cases hv : service.hooks.beforeSend n = .suppress
    · simp only [hv, if_true]
      exact ⟨_, Does.nothing, List.nil_sublist _⟩
    · obtain ⟨es, hes, hsent⟩ := service.send_does now n s
      have hpasses : (if (Option.isNone (none : Option Fault) &&
          decide (service.hooks.beforeSend n ≠ .suppress)) = true then some n else none) = some n := by
        simp [hv]
      rw [hpasses, if_neg hv, Option.bind_some]
      rcases hs : service.send now n s with ⟨outcome, s'⟩
      rw [hs] at hes
      cases outcome with
      | error fault => exact ⟨es, hes, hsent⟩
      | ok _ => exact ⟨es, hes.tell (.notify n), hsent⟩

theorem emitDismissed_does {s s' : State σ} (h : service.Does now s [] [] s') (id : Id) (a : Address) :
    ∃ es, service.Does now s es [] (service.emitDismissed now id a s') ∧ es.filterMap Event.notification? = [] :=
  ⟨_, (h.emit (.dismissed id (some a))).tell (.dismissed id (some a)), rfl⟩

theorem dismiss_does (id : Id) (s : State σ) :
    ∃ es, service.Does now s es [] (service.dismiss now id s).2 ∧ es.filterMap Event.notification? = [] := by
  have hlooked : service.Does now s [] [] (s.withStore (service.backend.mode id s.store).2) :=
    Does.nothing.serve (.mode id s.store)
  unfold dismiss
  by_cases hrecent : s.recent.contains id
  · rw [if_pos hrecent]
    exact ⟨_, .nothing, rfl⟩
  · rw [if_neg hrecent, access_eq]
    cases hr : (service.backend.mode id s.store).1 with
    | error fault => exact ⟨_, hlooked, rfl⟩
    | ok found =>
      cases found with
      | none => exact ⟨_, hlooked, rfl⟩
      | some mode =>
        by_cases hd : mode.isDismissible
        · have hremoved := hlooked.serve (.remove id (service.backend.mode id s.store).2)
          simp only [hd, if_true, access_eq]
          cases hm : (service.backend.remove id (service.backend.mode id s.store).2).1 with
          | error fault =>
            simp only [State.withStore, hm]
            exact ⟨_, hremoved, rfl⟩
          | ok target =>
            cases target with
            | none =>
              simp only [State.withStore, hm]
              exact ⟨_, hremoved, rfl⟩
            | some a =>
              simp only [State.withStore, hm]
              exact service.emitDismissed_does now hremoved id a
        · simp only [hd]
          exact ⟨_, hlooked, rfl⟩

theorem dismissGroup_does (a : Address) (group : String) (s : State σ) :
    ∃ es, service.Does now s es [] (service.dismissGroup now a group s).2 ∧
      es.filterMap Event.notification? = [] := by
  have hremoved : service.Does now s [] []
      (s.withStore (service.backend.removeGroup a group s.store).2) :=
    Does.nothing.serve (.removeGroup a group s.store)
  unfold dismissGroup
  rw [access_eq]
  cases hr : (service.backend.removeGroup a group s.store).1 with
  | error fault => exact ⟨_, hremoved, rfl⟩
  | ok removed =>
    cases removed with
    | none => exact ⟨_, hremoved, rfl⟩
    | some id => exact service.emitDismissed_does now hremoved id a

/-- A sweep uses the backend and has no other effect. -/
theorem sweep_does (s : State σ) :
    service.Does now s [] [] (access (service.backend.sweep service.settings now) s).2 := by
  rw [access_eq]
  unfold Backend.sweep
  cases cutoff now service.settings.queuedTtlSecs "queued" with
  | error fault => exact .nothing
  | ok q =>
    cases cutoff now service.settings.timeseriesTtlSecs "timeseries" with
    | error fault => exact .nothing
    | ok t => exact Does.nothing.serve (.purge q t s.store)

theorem receiveRemote_of_own {m : Message} (h : m.origin = service.id) (s : State σ) :
    service.receiveRemote now m s = s := if_pos h

/-- A message of another instance: its event is delivered, and an identifier may be remembered. -/
theorem receiveRemote_of_other {m : Message} (h : m.origin ≠ service.id) (s : State σ) :
    service.receiveRemote now m s = { s with
      recent := (m.event.notification?.bind Notification.passingId?).elim s.recent s.recent.remember
      registry := (s.registry.deliver now m.event).2 } := by
  obtain ⟨origin, e⟩ := m
  unfold receiveRemote
  rw [if_neg h]
  cases e with
  | dismissed id target => rfl
  | notify n =>
    by_cases hst : n.isStored <;>
      simp [Event.notification?, Notification.passingId?, State.remember, hst]

end Service

/-- What a call does over any backend. It remembers the notification that it sends, if that is not to be
stored, and nothing else; it emits no other notification. -/
theorem Call.perform_does (service : Service σ) (now : Instant) (c : Call) (s : Service.State σ) :
    ∃ es, service.Does now s es ((c.sent? service now).bind Notification.passingId?).toList
      (c.perform service now s) ∧ (es.filterMap Event.notification?).Sublist (c.sent? service now).toList := by
  cases c with
  | notify fresh target kind mode group payload =>
    by_cases ho : target.owner = ""
    · have hfail : (Call.notify fresh target kind mode group payload).perform service now s = s := by
        rw [perform, Service.notify, if_pos ho]
        rfl
      rw [hfail]
      simp only [sent?, ho, ne_eq, not_true_eq_false, false_and, if_false]
      exact ⟨_, .nothing, List.nil_sublist _⟩
    · simp only [perform, Service.notify, sent?, ho, if_false, ne_eq, not_false_eq_true, true_and]
      exact service.dispatch_does now _ s
  | broadcast fresh kind group payload => exact service.dispatch_does now _ s
  | dismiss id =>
    obtain ⟨es, hes, hnone⟩ := service.dismiss_does now id s
    exact ⟨es, hes, List.sublist_nil.2 hnone⟩
  | dismissGroup a group =>
    obtain ⟨es, hes, hnone⟩ := service.dismissGroup_does now a group s
    exact ⟨es, hes, List.sublist_nil.2 hnone⟩

end Tidings
