import Tidings.Proofs.Groups
import Tidings.Proofs.Serial
/-!
What is told of each notification over the backend without a database. It is announced when it is sent, and
withdrawn when a call takes it out of the store; one that gets too old leaves without a word.
-/
namespace Tidings
open Log

namespace Event

/-- The events about one identifier. -/
def about (id : Id) (es : List Event) : List Event := es.filter (·.id = id)

/-- All that may ever be told of an identifier: nothing, its announcement, or that and its withdrawal from
where it was announced. -/
inductive IsHistory (id : Id) : List Event → Prop where
  | unknown : IsHistory id []
  | announced {n : Notification} (hid : n.id = id) : IsHistory id [.notify n]
  | withdrawn {n : Notification} (hid : n.id = id) : IsHistory id [.notify n, .dismissed id n.target]

theorem about_append (id : Id) (es : List Event) (e : Event) :
    about id (es ++ [e]) = if e.id = id then about id es ++ [e] else about id es := by
  unfold about
  split <;> simp [*]

theorem about_eq_nil {id : Id} {es : List Event} : about id es = [] ↔ ∀ e ∈ es, e.id ≠ id := by
  simp [about]

end Event

/-- What a call that goes this way does when so much is stored and remembered. -/
def Plan.deeds (log : Log) (recent : Recent) : Plan → List Deed
  | .settled _ => []
  | .atOnce n => [.post n]
  | .inTurn a x => x.deeds a log
  | .dismissal id => dismissDeeds log recent id

section Emission
variable {service : Service Memory}

theorem Service.sendDeeds_eq (log : Log) (recent : Recent) (n : Notification) :
    service.sendDeeds log n = (service.recorded.plan n).deeds log recent := by
  have hhooks : service.recorded.hooks = service.hooks := rfl
  unfold sendDeeds admits plan
  rw [hhooks]
  cases problem? n with
  | some fault => rfl
  | none =>
    by_cases hv : service.hooks.beforeSend n = .suppress
    · simp [hv, Plan.deeds]
    · simp only [hv, Option.isNone_none, ne_eq, not_false_eq_true, decide_true, Bool.and_self, if_true,
        if_false]
      cases ha : n.target with
      | none => simp [Notification.isStored, ha, Plan.deeds]
      | some a =>
        by_cases hmode : n.mode.isPersisted
        · simp [Notification.isStored, ha, hmode, Plan.deeds, Change.deeds]
        · simp [Notification.isStored, hmode, Plan.deeds]

theorem Job.deeds_eq (log : Log) (recent : Recent) (job : Job) :
    job.call.deeds service job.now log recent = (job.plan service.recorded).deeds log recent := by
  obtain ⟨now, call⟩ := job
  cases call with
  | notify fresh target kind mode group payload =>
    simp only [Call.deeds, plan]
    split
    · rfl
    · exact Service.sendDeeds_eq log recent _
  | broadcast fresh kind group payload => exact Service.sendDeeds_eq log recent _
  | dismiss id => rfl
  | dismissGroup a group => rfl

variable (hb : service.backend = Backend.inMemory) {now : Instant} {log : Log}
  {s : Service.State (Posted Memory)} (h : s.store.store.Represents log)
include hb h

theorem Service.emitted_dismiss (id : Id) : (service.recorded.dismiss now id s).2.emitted =
    s.emitted ++ Deed.events (dismissDeeds log s.recent id) := by
  unfold dismiss dismissDeeds
  by_cases hrecent : s.recent.contains id
  · rw [if_pos hrecent, if_pos hrecent]
    exact (List.append_nil _).symm
  · rw [if_neg hrecent, if_neg hrecent, Concurrent.access_mode hb h, Log.get]
    cases hf : log.find? (hasId id) with
    | none => exact (List.append_nil _).symm
    | some x =>
      obtain ⟨hx, rfl⟩ := (h.sound.find?_hasId x id).1 hf
      obtain ⟨a, ha, _⟩ := exists_target (h.sound.stored x hx)
      by_cases hd : x.notification.mode.isDismissible
      · simp only [Option.map_some, hd, if_true, Concurrent.access_remove hb h, Log.get, hf,
          Option.bind_some, ha]
        exact (Effect.run_emitted hb now (.emit (.dismissed x.notification.id (some a))) _).2
      · simp only [Option.map_some, hd]
        exact (List.append_nil _).symm

/-- A call emits the events of its deeds. -/
theorem Call.emitted_perform (c : Call) (hnew : ∀ id, c.fresh? = some id → id ∉ log.ids) :
    (c.perform service.recorded now s).emitted =
      s.emitted ++ Deed.events (c.deeds service now log s.recent) := by
  let job : Job := ⟨now, c⟩
  have hanswer := job.run_plan service.recorded s
  rw [show c.deeds service now log s.recent = _ from job.deeds_eq log s.recent, ← c.answer_snd,
    ← hanswer]
  cases hplan : job.plan service.recorded with
  | settled reply => exact (List.append_nil _).symm
  | atOnce n => exact (Effect.runAll_emitted hb now (Effect.sending n) s).2
  | inTurn a x =>
    obtain ⟨hone, _⟩ := Job.isOf_perform (b := ⟨log, s.emitted⟩) hb ⟨h, rfl⟩ hplan hnew
    rw [Job.book_of_inTurn hplan] at hone
    rw [hplan] at hanswer
    rw [hanswer, Call.answer_snd]
    exact hone.events
  | dismissal id => exact Service.emitted_dismiss hb h id

end Emission

namespace Log

/-- What has been told of the notifications that are stored and of all that were sent before. -/
structure Announced (log : Log) (used : List Id) (tape : List Event) : Prop where
  known : ∀ e ∈ tape, e.id ∈ used
  stored : ∀ x ∈ log, Event.about x.notification.id tape = [.notify x.notification]
  history : ∀ id, Event.IsHistory id (Event.about id tape)

namespace Announced
variable {log : Log} {used : List Id} {tape : List Event} (h : log.Announced used tape)
include h

theorem about_of_not_mem {id : Id} (hid : id ∉ used) : Event.about id tape = [] :=
  Event.about_eq_nil.2 fun e he heq => hid (heq ▸ h.known e he)

theorem mono {used' : List Id} (hu : used ⊆ used') : log.Announced used' tape :=
  { h with known := fun e he => hu (h.known e he) }

theorem sublist {log' : Log} (hsub : log'.Sublist log) : log'.Announced used tape :=
  { h with stored := fun x hx => h.stored x (hsub.subset hx) }

theorem post {n : Notification} (hfresh : n.id ∉ used) (hlog : n.id ∉ log.ids) (now : Instant) :
    Announced (Deed.onLog now log (.post n)) (n.id :: used) (tape ++ [.notify n]) where
  known e he := by
    rcases List.mem_append.1 he with he | he
    · exact List.mem_cons_of_mem _ (h.known e he)
    · rw [List.mem_singleton.1 he]
      exact List.mem_cons_self
  stored x hx := by
    rw [Event.about_append]
    have hcases : x ∈ log ∨ x = ⟨n, now⟩ := by
      rw [Deed.onLog] at hx
      split at hx
      · exact (List.mem_append.1 hx).imp_right List.mem_singleton.1
      · exact .inl hx
    rcases hcases with hx | rfl
    · have hne : n.id ≠ x.notification.id := fun heq => hlog (heq ▸ List.mem_map_of_mem hx)
      exact (if_neg hne).trans (h.stored x hx)
    · refine (if_pos rfl).trans ?_
      rw [h.about_of_not_mem hfresh]
      rfl
  history id := by
    rw [Event.about_append]
    split
    · next hid =>
      have hid : n.id = id := hid
      rw [h.about_of_not_mem (hid ▸ hfresh)]
      exact .announced hid
    · exact h.history id

theorem withdraw {id : Id} {a : Address} (hfit : (Deed.withdraw id a).Fits log) (now : Instant) :
    Announced (Deed.onLog now log (.withdraw id a)) used (tape ++ [.dismissed id (some a)]) := by
  obtain ⟨x, hx, rfl, ha⟩ := hfit
  have htold := h.stored x hx
  have hknown : x.notification.id ∈ used := by
    by_contra hnot
    rw [h.about_of_not_mem hnot] at htold
    cases htold
  refine ⟨fun e he => ?_, fun y hy => ?_, fun id => ?_⟩
  · rcases List.mem_append.1 he with he | he
    · exact h.known e he
    · rw [List.mem_singleton.1 he]
      exact hknown
  · obtain ⟨hy, hother⟩ := mem_without.1 hy
    have hne : ¬ x.notification.id = y.notification.id := by simpa [hasId, eq_comm] using hother
    rw [Event.about_append]
    exact (if_neg hne).trans (h.stored y hy)
  · rw [Event.about_append]
    split
    · next hid =>
      have hid : x.notification.id = id := hid
      subst hid
      rw [htold, ← ha]
      exact .withdrawn rfl
    · exact h.history id

/-- Some deeds, one after the other. -/
theorem deeds {now : Instant} {ds : List Deed} (hfit : Deed.AllFit now log ds) (hnew : Deed.AllNew used ds)
    {used' : List Id} (hu : used ⊆ used') (hpost : ∀ n, .post n ∈ ds → n.id ∈ used') :
    Announced (Deed.logAfter now log ds) used' (tape ++ Deed.events ds) := by
  induction ds generalizing used log tape with
  | nil =>
    rw [show Deed.events [] = [] from rfl, List.append_nil]
    exact h.mono hu
  | cons d ds ih =>
    obtain ⟨hd, hfit⟩ := hfit
    have hrest : ∀ n, .post n ∈ ds → n.id ∈ used' := fun n hn => hpost n (List.mem_cons_of_mem d hn)
    rw [show Deed.events (d :: ds) = [d.event] ++ Deed.events ds from rfl, ← List.append_assoc]
    cases d with
    | post n =>
      obtain ⟨⟨hfresh, _⟩, hnew⟩ := hnew
      exact ih (h.post hfresh hd now) hfit hnew (List.cons_subset.2 ⟨hpost n List.mem_cons_self, hu⟩) hrest
    | withdraw id a => exact ih (h.withdraw hd now) hfit hnew hu hrest

end Announced

theorem get_eq_none {log : Log} {id : Id} : log.get id = none ↔ id ∉ log.ids := by
  simp [Log.get, Log.ids, hasId]

theorem Sound.get_eq_some {log : Log} (h : log.Sound) {id : Id} {n : Notification} :
    log.get id = some n ↔ ∃ x ∈ log, x.notification = n ∧ n.id = id := by
  rw [Log.get, Option.map_eq_some_iff]
  constructor
  · rintro ⟨x, hf, rfl⟩
    obtain ⟨hx, hid⟩ := (h.find?_hasId x id).1 hf
    exact ⟨x, hx, rfl, hid⟩
  · rintro ⟨x, hx, rfl, hid⟩
    exact ⟨x, (h.find?_hasId x id).2 ⟨hx, hid⟩, rfl⟩

end Log

/-- What is withdrawn and not posted is not there afterwards. -/
theorem Deed.not_mem_logAfter {now : Instant} {log : Log} {ds : List Deed} {id : Id} {a : Address}
    (h : .withdraw id a ∈ ds) (hpost : ∀ n, .post n ∈ ds → n.id ≠ id) : id ∉ (logAfter now log ds).ids := by
  obtain ⟨before, after, rfl⟩ := List.append_of_mem h
  intro hm
  rw [logAfter, List.foldl_append, List.foldl_cons] at hm
  rcases ids_logAfter now _ after id hm with hm | ⟨n, hn, hid⟩
  · obtain ⟨x, hx, hid⟩ := List.mem_map.1 hm
    have hother : hasId id x = false := (mem_without.1 hx).2
    simp [hasId, hid] at hother
  · exact hpost n (by simp [hn]) hid

/-- The calls that take a notification out of the store: one that stores another in its group, a dismissal
by its identifier, and a dismissal of its group. -/
inductive Call.TakesOut : Call → Notification → Prop where
  | replaced (fresh : Id) {a : Address} (kind : String) {mode : Mode} {group : String}
    (payload : Json.Members) {n : Notification} (hmode : mode.isPersisted) (ha : n.target = some a)
    (hgroup : n.group = some group) : TakesOut (.notify fresh a kind mode (some group) payload) n
  | dismissed {n : Notification} (hmode : n.mode = .queued) : TakesOut (.dismiss n.id) n
  | dismissedGroup {a : Address} {group : String} {n : Notification} (hmode : n.mode = .queued)
    (ha : n.target = some a) (hgroup : n.group = some group) : TakesOut (.dismissGroup a group) n

/-- Only such calls withdraw, and where the notification is stored. -/
theorem Call.takesOut_of_withdraw {service : Service Memory} {now : Instant} {log : Log} (hlog : log.Sound)
    {recent : Recent} {c : Call} {id : Id} {b : Address} (h : .withdraw id b ∈ c.deeds service now log recent) :
    ∃ x ∈ log, x.notification.id = id ∧ x.notification.target = some b ∧ c.TakesOut x.notification := by
  cases c with
  | notify fresh target kind mode group payload =>
    simp only [deeds] at h
    split at h
    · cases h
    · obtain ⟨hst, hreplaced⟩ := Service.withdraw_mem_sendDeeds h
      obtain ⟨ht, x, hx, hid, hat, key, hgroup, hheld⟩ := mem_replacement hreplaced
      have hgroup : group = some key := hgroup
      obtain rfl : target = b := by simpa [Notification.create] using ht
      subst hgroup
      have hmode : mode.isPersisted := (Bool.and_eq_true_iff.1 hst).2
      exact ⟨x, hx, hid, hat, .replaced fresh kind payload hmode hat hheld⟩
  | broadcast fresh kind group payload =>
    obtain ⟨ht, _⟩ := mem_replacement (Service.withdraw_mem_sendDeeds h).2
    simp [Notification.create] at ht
  | dismiss id' =>
    simp only [deeds, dismissDeeds] at h
    split at h
    · cases h
    · cases hf : log.find? (hasId id') with
      | none => simp [hf] at h
      | some x =>
        obtain ⟨hx, rfl⟩ := (hlog.find?_hasId x id').1 hf
        by_cases hd : x.notification.mode.isDismissible
        · have hmode : x.notification.mode = .queued := by
            cases hm : x.notification.mode <;> simp [hm, Mode.isDismissible] at hd ⊢
          obtain ⟨hid, ht⟩ : x.notification.id = id ∧ x.notification.target = some b := by
            simpa [hf, hd, and_comm, eq_comm] using h
          exact ⟨x, hx, hid, ht, .dismissed hmode⟩
        · simp [hf, hd] at h
  | dismissGroup a group =>
    obtain ⟨x, hf, heq⟩ := List.mem_map.1 h
    cases heq
    obtain ⟨hx, hheld⟩ := (hlog.find?_holdsQueued _ _ x).1 (Option.mem_toList.1 hf)
    simp only [holdsQueued, holds, isAt, Bool.and_eq_true, decide_eq_true_eq] at hheld
    obtain ⟨hmode, ha, hgroup⟩ := hheld
    exact ⟨x, hx, rfl, ha, .dismissedGroup hmode ha hgroup⟩

/-- What is withdrawn is withdrawn from where it is stored. -/
theorem Call.target_of_withdraw {service : Service Memory} {now : Instant} {log : Log} (hlog : log.Sound)
    {recent : Recent} {c : Call} {y : Stored} (hy : y ∈ log) {b : Address}
    (h : .withdraw y.notification.id b ∈ c.deeds service now log recent) : y.notification.target = some b := by
  obtain ⟨z, hz, hid, hzb, _⟩ := takesOut_of_withdraw hlog h
  exact hlog.eq_of_id hz hy hid ▸ hzb

/-- A call posts nothing that was sent before. -/
theorem Call.ne_of_post {service : Service Memory} {now : Instant} {log : Log} {recent : Recent} {c : Call}
    {used : List Id} (hfresh : ∀ id, c.fresh? = some id → id ∉ used) {id : Id} (hid : id ∈ used)
    {n : Notification} (hn : .post n ∈ c.deeds service now log recent) : n.id ≠ id :=
  fun heq => hfresh n.id (post_mem_deeds hn) (heq ▸ hid)

end Tidings
