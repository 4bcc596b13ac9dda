import Tidings.Proofs.Effects
import Tidings.Proofs.Routing
/-!
A backend and what it is used for. A service goes by the answers of its backend and by nothing else: over
two backends that answer alike, whatever comes of publishing, it does the same.
-/
namespace Tidings

variable {σ τ α β : Type}

/-- What a service asks a backend for. -/
inductive Backend.Inquiry where
  | store (now : Instant) (n : Notification)
  | remove (id : Id)
  | removeGroup (a : Address) (group : String)
  | get (id : Id)
  | mode (id : Id)
  | queued (a : Address)
  | since (a : Address) (t : Instant)
  | purge (queuedBefore timeseriesBefore : Instant)
  | health

def Backend.Inquiry.Reply : Inquiry → Type
  | .store _ _ | .removeGroup _ _ => Option Id
  | .remove _ => Option Address
  | .get _ => Option Notification
  | .mode _ => Option Mode
  | .queued _ | .since _ _ => List Notification
  | .purge _ _ => Nat
  | .health => Unit

def Backend.ask (b : Backend σ) : (q : Inquiry) → Access σ q.Reply
  | .store now n => b.store now n
  | .remove id => b.remove id
  | .removeGroup a group => b.removeGroup a group
  | .get id => b.get id
  | .mode id => b.mode id
  | .queued a => b.queued a
  | .since a t => b.since a t
  | .purge queuedBefore timeseriesBefore => b.purge queuedBefore timeseriesBefore
  | .health => b.health

/-- One use of a backend. -/
inductive Backend.Use where
  | asked (q : Inquiry)
  | published (m : Message)

/-- The answers that a backend gives when it is used like this. What comes of publishing is no answer. -/
def Backend.replies (b : Backend σ) : List Use → σ → List (Σ q : Inquiry, Except Fault q.Reply)
  | [], _ => []
  | .asked q :: us, s => ⟨q, (b.ask q s).1⟩ :: b.replies us (b.ask q s).2
  | .published m :: us, s => b.replies us (b.publish m s).2

/-- The state of a backend, with all the uses that were made of it. -/
structure Journal (σ : Type) where
  store : σ
  uses : List Backend.Use

def Access.noting (use : Backend.Use) (x : Access σ α) : Access (Journal σ) α := fun j =>
  ((x j.store).1, ⟨(x j.store).2, j.uses ++ [use]⟩)

/-- A backend that takes down what it is used for. -/
def Backend.journaled (b : Backend σ) : Backend (Journal σ) where
  kind := b.kind
  store now n := (b.store now n).noting (.asked (.store now n))
  remove id := (b.remove id).noting (.asked (.remove id))
  removeGroup a group := (b.removeGroup a group).noting (.asked (.removeGroup a group))
  get id := (b.get id).noting (.asked (.get id))
  mode id := (b.mode id).noting (.asked (.mode id))
  queued a := (b.queued a).noting (.asked (.queued a))
  since a t := (b.since a t).noting (.asked (.since a t))
  publish m := (b.publish m).noting (.published m)
  purge q t := (b.purge q t).noting (.asked (.purge q t))
  health := b.health.noting (.asked .health)

/-- The same service over another backend. -/
def Service.over (service : Service σ) (b : Backend τ) : Service τ :=
  ⟨service.id, service.settings, b, service.hooks⟩

/-- The same service, with its uses of the backend taken down. -/
def Service.journaled (service : Service σ) : Service (Journal σ) := service.over service.backend.journaled

/-- A state from which the uses of the backend are taken down. -/
def Service.State.noted (s : State σ) : State (Journal σ) := ⟨⟨s.store, []⟩, s.registry, s.recent, s.told⟩

/-- What a call gives back. -/
inductive Reply where
  | sent (n : Option Notification)
  | dismissed
  | dismissedGroup (id : Option Id)

def Access.map (f : α → β) (x : Access σ α) : Access σ β := fun s => ((x s).1.map f, (x s).2)

/-- A call with what it gives back. -/
def Call.answer (service : Service σ) (now : Instant) : Call → Service.Action σ Reply
  | .notify fresh target kind mode group payload =>
    (service.notify now fresh target kind mode group payload).map .sent
  | .broadcast fresh kind group payload => (service.broadcast now fresh kind group payload).map .sent
  | .dismiss id => (service.dismiss now id).map fun _ => .dismissed
  | .dismissGroup a group => (service.dismissGroup now a group).map .dismissedGroup

/-- What a call uses the backend for, in order. -/
def Call.uses (service : Service σ) (now : Instant) (c : Call) (s : Service.State σ) : List Backend.Use :=
  (c.answer service.journaled now s.noted).2.store.uses

theorem Call.answer_snd (service : Service σ) (now : Instant) (c : Call) (s : Service.State σ) :
    (c.answer service now s).2 = c.perform service now s := by
  cases c <;> rfl

theorem Backend.ask_journaled (b : Backend σ) (q : Inquiry) :
    b.journaled.ask q = (b.ask q).noting (.asked q) := by
  cases q <;> rfl

/-- From states that belong together two backends answer alike, and their states belong together again. -/
structure Backend.Matches (b : Backend σ) (b' : Backend τ) (R : σ → τ → Prop) : Prop where
  ask : ∀ q {s : σ} {t : τ}, R s t → (b'.ask q t).1 = (b.ask q s).1 ∧ R (b.ask q s).2 (b'.ask q t).2
  publish : ∀ m {s : σ} {t : τ}, R s t → R (b.publish m s).2 (b'.publish m t).2

/-- A backend answers as it does when its uses are taken down. -/
theorem Backend.matches_journaled (b : Backend σ) : b.journaled.Matches b fun j s => s = j.store where
  ask q j s h := by
    rw [h, ask_journaled]
    exact ⟨rfl, rfl⟩
  publish m j s h := by
    rw [h]
    rfl

/-- Two backends whose answers are the same however they are used are used alike. -/
theorem Backend.matches_of_replies (b : Backend σ) (b' : Backend τ) :
    b.journaled.Matches b'.journaled fun j k =>
      k.uses = j.uses ∧ ∀ us, b'.replies us k.store = b.replies us j.store where
  ask q j k h := by
    obtain ⟨huses, hreplies⟩ := h
    rw [ask_journaled, ask_journaled]
    have hfirst := hreplies [.asked q]
    simp only [replies, List.cons.injEq, Sigma.mk.injEq, heq_eq_eq, true_and, and_true] at hfirst
    refine ⟨hfirst, ?_, fun us => ?_⟩
    · simp [Access.noting, huses]
    · have hall := hreplies (.asked q :: us)
      simp only [replies, List.cons.injEq] at hall
      exact hall.2
  publish m j k h := by
    obtain ⟨huses, hreplies⟩ := h
    refine ⟨?_, fun us => hreplies (.published m :: us)⟩
    simp [journaled, Access.noting, huses]

namespace Service

/-- Two states that differ in what belongs to the backend only, and there belong together. -/
structure State.Matched (R : σ → τ → Prop) (s : State σ) (t : State τ) : Prop where
  store : R s.store t.store
  registry : t.registry = s.registry
  recent : t.recent = s.recent
  told : t.told = s.told

/-- The same result, and states that belong together. -/
inductive Agree (R : σ → τ → Prop) : α × State σ → α × State τ → Prop where
  | intro (result : α) {s : State σ} {t : State τ} (h : s.Matched R t) : Agree R (result, s) (result, t)

theorem Agree.result {R : σ → τ → Prop} {x : α × State σ} {y : α × State τ} (h : Agree R x y) :
    y.1 = x.1 := by
  cases h
  rfl

theorem Agree.matched {R : σ → τ → Prop} {x : α × State σ} {y : α × State τ} (h : Agree R x y) :
    x.2.Matched R y.2 := by
  cases h
  assumption

variable {R : σ → τ → Prop} {s : State σ} {t : State τ}

theorem State.Matched.withStore (h : s.Matched R t) {u : σ} {v : τ} (huv : R u v) :
    (s.withStore u).Matched R (t.withStore v) := ⟨huv, h.registry, h.recent, h.told⟩

theorem State.Matched.remember (h : s.Matched R t) (id : Id) :
    (s.remember id).Matched R (t.remember id) :=
  ⟨h.store, h.registry, congrArg (Recent.remember · id) h.recent, h.told⟩

theorem State.Matched.tell (h : s.Matched R t) (e : Event) : (s.tell e).Matched R (t.tell e) :=
  ⟨h.store, h.registry, h.recent, congrArg (· ++ [e]) h.told⟩

theorem State.Matched.withRegistry (h : s.Matched R t) (r : Registry) :
    State.Matched R { s with registry := r } { t with registry := r } := ⟨h.store, rfl, h.recent, h.told⟩

theorem access_agree {x : Access σ α} {y : Access τ α} (h : s.Matched R t)
    (hxy : (y t.store).1 = (x s.store).1 ∧ R (x s.store).2 (y t.store).2) :
    Agree R (access x s) (access y t) := by
  rw [access_eq, access_eq, hxy.1]
  exact ⟨_, h.withStore hxy.2⟩

theorem Agree.map {x : Action σ α} {y : Action τ α} (h : Agree R (x s) (y t)) (f : α → β) :
    Agree R (Access.map f x s) (Access.map f y t) := by
  unfold Access.map
  generalize x s = x', y t = y' at h ⊢
  obtain ⟨result, h⟩ := h
  exact ⟨_, h⟩

variable (service : Service σ) {b : Backend τ} (hb : service.backend.Matches b R) (now : Instant)
  (h : s.Matched R t)
include hb h

/-- What comes of publishing is not looked at. -/
theorem emit_matched (e : Event) : (service.emit now e s).Matched R ((service.over b).emit now e t) := by
  refine ⟨hb.publish _ h.store, ?_, h.recent, h.told⟩
  exact congrArg (fun r => (r.deliver now e).2) h.registry

theorem sendStored_agree (a : Address) (n : Notification) :
    Agree R (service.sendStored now a n s) ((service.over b).sendStored now a n t) := by
  have hstore : Agree R (access (service.backend.store now n) s) (access (b.store now n) t) :=
    access_agree h (hb.ask (.store now n) h.store)
  have hover : (service.over b).backend = b := rfl
  unfold sendStored
  rw [hover]
  generalize access (service.backend.store now n) s = x, access (b.store now n) t = y at hstore ⊢
  obtain ⟨outcome, hs⟩ := hstore
  cases outcome with
  | error fault => exact ⟨_, hs⟩
  | ok replaced =>
    cases replaced with
    | none => exact ⟨_, service.emit_matched hb now hs _⟩
    | some old => exact ⟨_, service.emit_matched hb now (service.emit_matched hb now hs _) _⟩

theorem sendUnstored_agree (n : Notification) :
    Agree R (service.sendUnstored now n s) ((service.over b).sendUnstored now n t) :=
  .intro (Except.ok ()) (service.emit_matched hb now (h.remember n.id) _)

theorem send_agree (n : Notification) :
    Agree R (service.send now n s) ((service.over b).send now n t) := by
  unfold send
  cases n.target with
  | none => exact service.sendUnstored_agree hb now h n
  | some a =>
    by_cases hmode : n.mode.isPersisted
    · simp only [hmode, if_true]
      exact service.sendStored_agree hb now h a n
    · simp only [hmode, Bool.false_eq_true, if_false]
      exact service.sendUnstored_agree hb now h n

theorem dispatch_agree (n : Notification) :
    Agree R (service.dispatch now n s) ((service.over b).dispatch now n t) := by
  have hhooks : (service.over b).hooks = service.hooks := rfl
  unfold dispatch
  rw [hhooks]
  cases problem? n with
  | some fault => exact ⟨_, h⟩
  | none =>
    by_cases hv : service.hooks.beforeSend n = .suppress
    · simp only [hv, if_true]
      exact ⟨_, h⟩
    · have hsend := service.send_agree hb now h n
      simp only [hv, if_false]
      generalize service.send now n s = x, (service.over b).send now n t = y at hsend ⊢
      obtain ⟨outcome, hs⟩ := hsend
      cases outcome with
      | error fault => exact ⟨_, hs⟩
      | ok _ => exact ⟨_, hs.tell _⟩

theorem emitDismissed_matched (id : Id) (a : Address) :
    (service.emitDismissed now id a s).Matched R ((service.over b).emitDismissed now id a t) :=
  (service.emit_matched hb now h _).tell _

theorem dismiss_agree (id : Id) :
    Agree R (service.dismiss now id s) ((service.over b).dismiss now id t) := by
  have hmode : Agree R (access (service.backend.mode id) s) (access (b.mode id) t) :=
    access_agree h (hb.ask (.mode id) h.store)
  have hover : (service.over b).backend = b := rfl
  unfold dismiss
  rw [hover, h.recent]
  by_cases hrecent : s.recent.contains id
  · rw [if_pos hrecent, if_pos hrecent]
    exact ⟨_, h⟩
  · rw [if_neg hrecent, if_neg hrecent]
    generalize access (service.backend.mode id) s = x, access (b.mode id) t = y at hmode ⊢
    obtain @⟨found, s₁, t₁, hs⟩ := hmode
    rcases found with fault | _ | mode
    · exact ⟨_, hs⟩
    · exact ⟨_, hs⟩
    · by_cases hd : mode.isDismissible
      · have hremove : Agree R (access (service.backend.remove id) s₁) (access (b.remove id) t₁) :=
          access_agree hs (hb.ask (.remove id) hs.store)
        simp only [hd, if_true]
        generalize access (service.backend.remove id) s₁ = x, access (b.remove id) t₁ = y at hremove ⊢
        obtain ⟨removed, hs⟩ := hremove
        rcases removed with fault | _ | a
        · exact ⟨_, hs⟩
        · exact ⟨_, hs⟩
        · exact ⟨_, service.emitDismissed_matched hb now hs id a⟩
      · simp only [hd]
        exact ⟨_, hs⟩

theorem dismissGroup_agree (a : Address) (group : String) :
    Agree R (service.dismissGroup now a group s) ((service.over b).dismissGroup now a group t) := by
  have hremove : Agree R (access (service.backend.removeGroup a group) s)
      (access (b.removeGroup a group) t) := access_agree h (hb.ask (.removeGroup a group) h.store)
  have hover : (service.over b).backend = b := rfl
  unfold dismissGroup
  rw [hover]
  generalize access (service.backend.removeGroup a group) s = x, access (b.removeGroup a group) t = y
    at hremove ⊢
  obtain ⟨removed, hs⟩ := hremove
  rcases removed with fault | _ | id
  · exact ⟨_, hs⟩
  · exact ⟨_, hs⟩
  · exact ⟨_, service.emitDismissed_matched hb now hs id a⟩

theorem sweep_agree : Agree R (access (service.backend.sweep service.settings now) s)
    (access (b.sweep service.settings now) t) := by
  refine access_agree h ?_
  unfold Backend.sweep
  cases cutoff now service.settings.queuedTtlSecs "queued" with
  | error fault => exact ⟨rfl, h.store⟩
  | ok queuedBefore =>
    cases cutoff now service.settings.timeseriesTtlSecs "timeseries" with
    | error fault => exact ⟨rfl, h.store⟩
    | ok timeseriesBefore => exact hb.ask (.purge queuedBefore timeseriesBefore) h.store

omit hb in
theorem receiveRemote_matched (m : Message) :
    (service.receiveRemote now m s).Matched R ((service.over b).receiveRemote now m t) := by
  by_cases ho : m.origin = service.id
  · rw [service.receiveRemote_of_own now ho, (service.over b).receiveRemote_of_own now ho]
    exact h
  · rw [service.receiveRemote_of_other now ho, (service.over b).receiveRemote_of_other now ho, h.recent,
      h.registry]
    exact ⟨h.store, rfl, rfl, h.told⟩

end Service

/-- Over two backends that answer alike a call comes out the same. -/
theorem Call.answer_agree {R : σ → τ → Prop} {s : Service.State σ} {t : Service.State τ}
    (service : Service σ) {b : Backend τ} (hb : service.backend.Matches b R) (now : Instant)
    (h : s.Matched R t) (c : Call) :
    Service.Agree R (c.answer service now s) (c.answer (service.over b) now t) := by
  cases c with
  | notify fresh target kind mode group payload =>
    refine Service.Agree.map ?_ Reply.sent
    unfold Service.notify
    by_cases ho : target.owner = ""
    · simp only [ho, if_true]
      exact ⟨_, h⟩
    · simp only [ho, if_false]
      exact service.dispatch_agree hb now h _
  | broadcast fresh kind group payload => exact (service.dispatch_agree hb now h _).map Reply.sent
  | dismiss id => exact (service.dismiss_agree hb now h id).map fun _ => Reply.dismissed
  | dismissGroup a group => exact (service.dismissGroup_agree hb now h a group).map Reply.dismissedGroup

/-- Taking down what a call uses the backend for changes nothing. -/
theorem Call.answer_journaled (service : Service σ) (now : Instant) (c : Call) (s : Service.State σ) :
    Service.Agree (fun j t => t = j.store) (c.answer service.journaled now s.noted)
      (c.answer service now s) :=
  c.answer_agree service.journaled service.backend.matches_journaled now ⟨rfl, rfl, rfl, rfl⟩

end Tidings
