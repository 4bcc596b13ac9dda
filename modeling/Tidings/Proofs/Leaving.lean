import Tidings.Proofs.Announcing
/-!
Runs over the backend without a database, and what leaves the store in them. A notification leaves it once:
a call withdraws it in so many words, or a sweep drops it without any, and it does not come back.
-/
namespace Tidings
open Log

/-- Steps of one instance, over any backend. -/
def Step.performAll {σ : Type} (service : Service σ) (xs : List Step) (s : Service.State σ) :
    Service.State σ :=
  xs.foldl (fun s x => x.perform service s) s

/-- The identifiers that an answer gives. -/
def Reply.ids : Reply → List Id
  | .sent n => (n.map (·.id)).toList
  | .dismissed => []
  | .dismissedGroup id => id.toList

/-- A notification is not there, no call that does not bring it gives it back, and it cannot be dismissed. -/
structure Service.Forgets {σ : Type} (service : Service σ) (id : Id) (s : State σ) : Prop where
  get : (access (service.backend.get id) s).1 = .ok none
  mode : (service.mode id s).1 = .ok none
  queued : ∀ a, ∃ ns, (service.queued a s).1 = .ok ns ∧ ∀ n ∈ ns, n.id ≠ id
  since : ∀ a t, ∃ ns, (service.since a t s).1 = .ok ns ∧ ∀ n ∈ ns, n.id ≠ id
  replies : ∀ now (c : Call) (reply : Reply), c.fresh? ≠ some id → (c.answer service now s).1 = .ok reply →
    id ∉ reply.ids
  dismissal : ∀ now, ∃ fault, (service.dismiss now id s).1 = .error fault

section Forgetting
variable {service : Service Memory} (hb : service.backend = Backend.inMemory) {log : Log}
  {s : Service.State (Posted Memory)} (h : s.store.store.Represents log)
include hb h

theorem Service.dismissGroup_fst (now : Instant) (a : Address) (group : String) :
    (service.recorded.dismissGroup now a group s).1 = .ok (log.removeGroup a group).1 := by
  have hforget : (service.recorded.dismissGroup now a group s).1 = (service.dismissGroup now a group s.forget).1 :=
    congrArg Prod.fst (service.forgetting_dismissGroup now s a group)
  rw [hforget, dismissGroup_eq hb h, Log.removeGroup]
  cases log.find? (holdsQueued a group) <;> rfl

/-- A call that does not bring a notification and does not find it gives no answer with it. -/
theorem Call.not_mem_ids_of_answer {id : Id} (hid : id ∉ log.ids) {now : Instant} {c : Call} {reply : Reply}
    (hc : c.fresh? ≠ some id) (hreply : (c.answer service.recorded now s).1 = .ok reply) : id ∉ reply.ids := by
  have hsent {n : Notification} (hn : n.id ≠ id)
      (hreply : ((service.recorded.dispatch now n).map .sent s).1 = .ok reply) : id ∉ reply.ids := by
    unfold Access.map at hreply
    cases hr : (service.recorded.dispatch now n s).1 with
    | error fault => simp [hr, Except.map] at hreply
    | ok sent =>
      obtain rfl : Reply.sent sent = reply := by simpa [hr, Except.map] using hreply
      cases sent with
      | none => exact List.not_mem_nil
      | some n' =>
        rw [service.recorded.eq_of_dispatch now hr]
        simpa [Reply.ids] using Ne.symm hn
  cases c with
  | notify fresh target kind mode group payload =>
    have hne : fresh ≠ id := fun heq => hc (congrArg some heq)
    by_cases ho : target.owner = ""
    · simp only [Call.answer, Service.notify, ho, if_true] at hreply
      cases hreply
    · simp only [Call.answer, Service.notify, ho, if_false] at hreply
      exact hsent hne hreply
  | broadcast fresh kind group payload => exact hsent (fun heq => hc (congrArg some heq)) hreply
  | dismiss id' =>
    unfold Call.answer Access.map at hreply
    cases hr : (service.recorded.dismiss now id' s).1 with
    | error fault => simp [hr, Except.map] at hreply
    | ok _ =>
      obtain rfl : Reply.dismissed = reply := by simpa [hr, Except.map] using hreply
      exact List.not_mem_nil
  | dismissGroup a group =>
    obtain rfl : Reply.dismissedGroup (log.removeGroup a group).1 = reply := by
      simpa [Call.answer, Access.map, Service.dismissGroup_fst hb h, Except.map] using hreply
    intro hm
    obtain ⟨x, hf, rfl⟩ := Option.map_eq_some_iff.1 (Option.mem_toList.1 hm)
    exact hid (List.mem_map_of_mem (List.mem_of_find?_eq_some hf))

theorem Service.forgets_of_not_mem {id : Id} (hid : id ∉ log.ids) : service.recorded.Forgets id s := by
  have hget : s.store.store.get id = none := (h.get_eq id).trans (Log.get_eq_none.2 hid)
  have hselect (a : Address) (keep : Notification → Bool) : ∀ n ∈ s.store.store.select a keep, n.id ≠ id := by
    rintro n hn rfl
    rw [h.select_eq, byCreation, List.mem_insertionSort] at hn
    obtain ⟨x, hx, rfl⟩ := List.mem_map.1 hn
    exact hid (List.mem_map_of_mem (List.mem_filter.1 hx).1)
  refine ⟨?_, ?_, fun a => ?_, fun a t => ?_, fun now c reply hc => Call.not_mem_ids_of_answer hb h hid hc,
    fun now => ?_⟩
  · unfold Service.recorded
    rw [hb, ← hget]
    rfl
  · unfold Service.recorded
    rw [mode, hb]
    exact congrArg (fun n : Option Notification => Except.ok (n.map (·.mode))) hget
  · exact ⟨s.store.store.queued a, by unfold Service.recorded; rw [queued, hb]; rfl, hselect a _⟩
  · exact ⟨s.store.store.since a t, by unfold Service.recorded; rw [since, hb]; rfl, hselect a _⟩
  · have hnone : log.find? (hasId id) = none := Option.map_eq_none_iff.1 (Log.get_eq_none.2 hid)
    have hforget : (service.recorded.dismiss now id s).1 = (service.dismiss now id s.forget).1 :=
      congrArg Prod.fst (service.forgetting_dismiss now s id)
    rw [hforget, Service.dismiss_eq hb (s := s.forget) h id]
    split
    · exact ⟨_, rfl⟩
    · rw [hnone]
      exact ⟨_, rfl⟩

end Forgetting

/-- What every state of a run keeps when events are taken down. -/
structure Recorded (used : List Id) (s : Service.State (Posted Memory)) (log : Log) : Prop where
  kept : Kept used s.forget log
  announced : log.Announced used s.emitted

/-- The ways of a step: a call does its deeds, a sweep drops entries without a word, and anything else leaves
the store alone and tells nothing. -/
inductive Step.Makes (service : Service Memory) (s : Service.State (Posted Memory)) (log : Log) :
    Step → List Event → Log → Prop where
  | call (now : Instant) (c : Call) :
    Makes service s log (.call now c) (Deed.events (c.deeds service now log s.recent))
      (Deed.logAfter now log (c.deeds service now log s.recent))
  | sweep (now : Instant) {log' : Log} (hsub : log'.Sublist log) : Makes service s log (.sweep now) [] log'
  | other {x : Step} (hcall : ∀ now c, x ≠ .call now c) : Makes service s log x [] log

/-- What a step tells here and elsewhere, and what leaves the store in it. -/
structure Step.Accounts (x : Step) (s s' : Service.State (Posted Memory)) (new : List Event) : Prop where
  emitted : s'.emitted = s.emitted ++ new
  delivered : ∀ now c, x = .call now c → s'.registry = s.registry.deliverAll now new
  got : ∀ now c, x = .call now c → s.registry.Got s'.registry new
  quiet : (∀ now c, x ≠ .call now c) → new = []
  dismissed : ∀ id target, .dismissed id target ∈ new ↔ ∃ now c n, x = .call now c ∧ c.TakesOut n ∧
    s.store.store.get id = some n ∧ s'.store.store.get id = none ∧ target = n.target
  left : ∀ id n, s.store.store.get id = some n → s'.store.store.get id ≠ some n →
    s'.store.store.get id = none ∧ ((∃ now, x = .sweep now) ∨ .dismissed id n.target ∈ new)

namespace Recorded

theorem initial (settings : Settings) : Recorded [] (Service.initial settings Memory.empty).recorded [] :=
  ⟨Kept.initial settings, fun _ he => (nomatch he), fun _ hx => (nomatch hx), fun _ => .unknown⟩

variable {service : Service Memory} (hb : service.backend = Backend.inMemory) {used : List Id}
  {s : Service.State (Posted Memory)} {log : Log} (h : Recorded used s log)

section Ways
variable {used' : List Id} {s' : Service.State (Posted Memory)} {log' : Log} {x : Step} {new : List Event}
  (hm : x.Makes service s log new log') (hfresh : ∀ id, x.fresh? = some id → id ∉ used)
include h hm hfresh

/-- What has left does not come back, and nothing is told of it. -/
theorem stays_away {id : Id} (hid : id ∈ used) (hgone : id ∉ log.ids) :
    id ∉ log'.ids ∧ Event.about id new = [] := by
  cases hm with
  | call now c =>
    refine ⟨fun hmem => ?_, Event.about_eq_nil.2 fun e he => ?_⟩
    · rcases Deed.ids_logAfter _ _ _ id hmem with hmem | ⟨n, hn, heq⟩
      · exact hgone hmem
      · exact Call.ne_of_post hfresh hid hn heq
    · obtain ⟨d, hd, rfl⟩ := List.mem_map.1 he
      cases d with
      | post n => exact Call.ne_of_post hfresh hid hd
      | withdraw id' a =>
        obtain ⟨y, hy, rfl, _⟩ := Call.takesOut_of_withdraw h.kept.store.sound hd
        exact fun heq => hgone (heq ▸ List.mem_map_of_mem hy)
  | sweep now hsub => exact ⟨fun hmem => hgone ((hsub.map _).subset hmem), rfl⟩
  | other => exact ⟨hgone, rfl⟩

section Store
variable (h' : Recorded used' s' log')
include h'

/-- A withdrawal is told exactly of what a call takes out of the store. -/
theorem dismissed_iff (id : Id) (target : Option Address) :
    .dismissed id target ∈ new ↔ ∃ now c n, x = .call now c ∧ c.TakesOut n ∧
      s.store.store.get id = some n ∧ s'.store.store.get id = none ∧ target = n.target := by
  have hsound : log.Sound := h.kept.store.sound
  have hused {y : Stored} (hy : y ∈ log) : y.notification.id ∈ used := h.kept.used (List.mem_map_of_mem hy)
  rw [show s.store.store.get id = log.get id from h.kept.store.get_eq id,
    show s'.store.store.get id = log'.get id from h'.kept.store.get_eq id]
  cases hm with
  | call now c =>
    constructor
    · intro he
      obtain ⟨d, hd, heq⟩ := List.mem_map.1 he
      cases d with
      | post n => cases heq
      | withdraw id' a =>
        cases heq
        obtain ⟨y, hy, rfl, ha, htakes⟩ := Call.takesOut_of_withdraw hsound hd
        exact ⟨now, c, y.notification, rfl, htakes, hsound.get_eq_some.2 ⟨y, hy, rfl, rfl⟩,
          Log.get_eq_none.2 (Deed.not_mem_logAfter hd fun _ => Call.ne_of_post hfresh (hused hy)), ha.symm⟩
    · rintro ⟨_, _, n, _, _, hn, hnone, rfl⟩
      obtain ⟨y, hy, rfl, rfl⟩ := hsound.get_eq_some.1 hn
      by_contra hnot
      refine Log.get_eq_none.1 hnone (List.mem_map_of_mem (Deed.mem_logAfter hy fun b hb => hnot ?_))
      rw [Call.target_of_withdraw hsound hy hb]
      exact List.mem_map_of_mem hb
  | sweep now hsub => simp
  | other hcall =>
    refine ⟨fun he => (nomatch he), ?_⟩
    rintro ⟨now, c, _, hx, _⟩
    exact absurd hx (hcall now c)

/-- What is stored stays as it is, or a sweep drops it, or it is withdrawn. -/
theorem gone_of_left {id : Id} {n : Notification} (hn : s.store.store.get id = some n)
    (hleft : s'.store.store.get id ≠ some n) :
    s'.store.store.get id = none ∧ ((∃ now, x = .sweep now) ∨ .dismissed id n.target ∈ new) := by
  have hget : s'.store.store.get id = log'.get id := h'.kept.store.get_eq id
  have hsound : log.Sound := h.kept.store.sound
  obtain ⟨y, hy, rfl, rfl⟩ := hsound.get_eq_some.1 ((h.kept.store.get_eq id).symm.trans hn)
  rw [hget] at hleft ⊢
  have hout : y ∉ log' := fun hmem =>
    hleft (h'.kept.store.sound.get_eq_some.2 ⟨y, hmem, rfl, rfl⟩)
  cases hm with
  | call now c =>
    obtain ⟨b, hb⟩ : ∃ b, .withdraw y.notification.id b ∈ c.deeds service now log s.recent := by
      by_contra hnone
      exact hout (Deed.mem_logAfter hy fun b hb => hnone ⟨b, hb⟩)
    have hknown : y.notification.id ∈ used := h.kept.used (List.mem_map_of_mem hy)
    refine ⟨Log.get_eq_none.2 (Deed.not_mem_logAfter hb fun _ => Call.ne_of_post hfresh hknown), .inr ?_⟩
    rw [Call.target_of_withdraw hsound hy hb]
    exact List.mem_map_of_mem hb
  | sweep now hsub =>
    refine ⟨Log.get_eq_none.2 fun hmem => ?_, .inl ⟨now, rfl⟩⟩
    obtain ⟨z, hz, hid⟩ := List.mem_map.1 hmem
    exact hout (hsound.eq_of_id (hsub.subset hz) hy hid ▸ hz)
  | other => exact absurd hy hout

theorem accounts (hemitted : s'.emitted = s.emitted ++ new)
    (hdelivered : ∀ now c, x = .call now c → s'.registry = s.registry.deliverAll now new) :
    x.Accounts s s' new where
  emitted := hemitted
  delivered := hdelivered
  got now c hx := by
    rw [hdelivered now c hx]
    exact Registry.got_deliverAll now new h.kept.registry
  quiet hcall := by
    cases hm with
    | call now c => exact absurd rfl (hcall now c)
    | sweep now hsub => rfl
    | other => rfl
  dismissed := h.dismissed_iff hm hfresh h'
  left _ _ := h.gone_of_left hm hfresh h'

end Store

end Ways

theorem withRegistry (h : Recorded used s log) {r : Registry} (hr : r.Sound) :
    Recorded used { s with registry := r } log :=
  ⟨h.kept.withRegistry hr, h.announced⟩

include h

/-- A step that only concerns the connections. -/
theorem step_of_registry {x : Step} {r : Registry} (hr : r.Sound) (hcall : ∀ now c, x ≠ .call now c)
    (hx : x.fresh? = none) (hstep : x.perform service.recorded s = { s with registry := r }) :
    ∃ new log', x.Makes service s log new log' ∧
      Recorded (x.fresh?.toList ++ used) (x.perform service.recorded s) log' ∧
      x.Accounts s (x.perform service.recorded s) new := by
  rw [hx, hstep]
  have hm : x.Makes service s log [] log := .other hcall
  have h' := h.withRegistry hr
  refine ⟨[], log, hm, h', h.accounts hm (fun id hid => ?_) h' (List.append_nil _).symm fun now c heq => ?_⟩
  · rw [hx] at hid
    cases hid
  · exact absurd heq (hcall now c)

include hb

/-- Each step goes one of these ways and keeps the invariant. -/
theorem step (x : Step) (hfresh : ∀ id, x.fresh? = some id → id ∉ used) :
    ∃ new log', x.Makes service s log new log' ∧
      Recorded (x.fresh?.toList ++ used) (x.perform service.recorded s) log' ∧
      x.Accounts s (x.perform service.recorded s) new := by
  cases x with
  | call now c =>
    have hnew : ∀ id, c.fresh? = some id → id ∉ log.ids := fun id hid hm => hfresh id hid (h.kept.used hm)
    have hdone : Done now log s.forget _ _ := c.run_done hb h.kept.store hnew
    have hforget : ((Step.call now c).perform service.recorded s).forget = c.run service now s.forget :=
      ((Step.call now c).forget_perform service s).trans (c.run_eq_perform service now s.forget).symm
    have hemitted : ((Step.call now c).perform service.recorded s).emitted =
        s.emitted ++ Deed.events (c.deeds service now log s.recent) := c.emitted_perform hb h.kept.store hnew
    have hannounced := h.announced.deeds hdone.fit (Call.allNew hfresh)
      (List.subset_append_right c.fresh?.toList used) fun n hn =>
        List.mem_append_left _ (by rw [Call.post_mem_deeds hn]; exact List.mem_singleton_self _)
    have h' : Recorded (c.fresh?.toList ++ used) ((Step.call now c).perform service.recorded s)
        (Deed.logAfter now log (c.deeds service now log s.recent)) := by
      refine ⟨?_, ?_⟩
      · rw [hforget]
        exact h.kept.call hb now c hfresh
      · rw [hemitted]
        exact hannounced
    refine ⟨_, _, .call now c, h', h.accounts (.call now c) hfresh h' hemitted ?_⟩
    rintro _ _ ⟨⟩
    exact (congrArg Service.State.registry hforget).trans hdone.registry
  | sweep now =>
    obtain ⟨log', hsub, hk, _⟩ := h.kept.sweep hb now
    obtain ⟨new, hsent, _, hnew⟩ := (service.recorded.sweep_does now s).sent
    have hemitted : ((Step.sweep now).perform service.recorded s).emitted = s.emitted ++ [] := by
      rw [← hnew]
      exact Service.State.emitted_of_sent hsent
    have hforget : ((Step.sweep now).perform service.recorded s).forget = (Step.sweep now).run service s.forget :=
      (Step.sweep now).forget_perform service s
    have h' : Recorded used ((Step.sweep now).perform service.recorded s) log' := by
      refine ⟨?_, ?_⟩
      · rw [hforget]
        exact hk
      · rw [hemitted, List.append_nil]
        exact h.announced.sublist hsub
    have hm : (Step.sweep now).Makes service s log [] log' := .sweep now hsub
    exact ⟨[], log', hm, h', h.accounts hm hfresh h' hemitted fun _ _ heq => (nomatch heq)⟩
  | connect now as => exact h.step_of_registry (h.kept.registry.register now as) (fun _ _ heq => (nomatch heq)) rfl rfl
  | unregister c => exact h.step_of_registry (h.kept.registry.unregister c) (fun _ _ heq => (nomatch heq)) rfl rfl
  | drop c => exact h.step_of_registry (h.kept.registry.drop c) (fun _ _ heq => (nomatch heq)) rfl rfl
  | closeAll => exact h.step_of_registry h.kept.registry.closeAll (fun _ _ heq => (nomatch heq)) rfl rfl
  | receive c => exact h.step_of_registry (h.kept.registry.receive c) (fun _ _ heq => (nomatch heq)) rfl rfl

/-- And so does a run. What was sent before and is gone stays away in it. -/
theorem performAll (xs : List Step) (hf : Fresh (Step.freshIds xs) used) :
    ∃ log', Recorded (Step.freshIds xs ++ used) (Step.performAll service.recorded xs s) log' ∧
      ∀ id ∈ used, id ∉ log.ids → id ∉ log'.ids ∧
        Event.about id (Step.performAll service.recorded xs s).emitted = Event.about id s.emitted := by
  induction xs generalizing s log used with
  | nil => exact ⟨log, h, fun id _ hgone => ⟨hgone, rfl⟩⟩
  | cons x xs ih =>
    rw [Step.freshIds_cons] at hf ⊢
    obtain ⟨hx, hxs⟩ := hf.cons
    obtain ⟨new, log₁, hm, h₁, haccounts⟩ := h.step hb x hx
    obtain ⟨log₂, h₂, hgone₂⟩ := ih h₁ hxs
    have hused : Step.freshIds xs ++ (x.fresh?.toList ++ used) ⊆ x.fresh?.toList ++ Step.freshIds xs ++ used := by
      intro id hid
      simp only [List.mem_append] at hid ⊢
      tauto
    refine ⟨log₂, ⟨h₂.kept.mono hused, h₂.announced.mono hused⟩, fun id hid hgone => ?_⟩
    obtain ⟨hgone₁, hnew⟩ := h.stays_away hm hx hid hgone
    obtain ⟨hfinal, habout⟩ := hgone₂ id (List.mem_append_right _ hid) hgone₁
    refine ⟨hfinal, habout.trans ?_⟩
    rw [haccounts.emitted, Event.about, List.filter_append, show new.filter (·.id = id) = [] from hnew,
      List.append_nil]
    rfl

omit h in
/-- Every state that a run reaches from the start. -/
theorem reached (xs : List Step) (hn : (Step.freshIds xs).Nodup) :
    ∃ log, Recorded (Step.freshIds xs)
      (Step.performAll service.recorded xs (Service.initial service.settings Memory.empty).recorded) log := by
  obtain ⟨log, h, _⟩ := (initial service.settings).performAll hb xs ⟨hn, by simp⟩
  exact ⟨log, by simpa using h⟩

omit hb in
theorem get_eq_some {id : Id} {n : Notification} (hn : s.store.store.get id = some n) :
    ∃ x ∈ log, x.notification = n ∧ n.id = id :=
  h.kept.store.sound.get_eq_some.1 ((h.kept.store.get_eq id).symm.trans hn)

omit hb in
/-- What is stored was announced, and nothing else was told of it. -/
theorem about_of_get {id : Id} {n : Notification} (hn : s.store.store.get id = some n) :
    Event.about id s.emitted = [.notify n] := by
  obtain ⟨x, hx, rfl, rfl⟩ := h.get_eq_some hn
  exact h.announced.stored x hx

omit hb in
/-- What was told of a notification that has just left: it was announced, and then withdrawn if a call took
it out. -/
theorem about_of_left {x : Step} {used' : List Id} {s' : Service.State (Posted Memory)} {log' : Log}
    {new : List Event} (h' : Recorded used' s' log') (haccounts : x.Accounts s s' new) {id : Id}
    {n : Notification} (hn : s.store.store.get id = some n) (hleft : s'.store.store.get id ≠ some n) :
    (∃ now, x = .sweep now) ∧ Event.about id s'.emitted = [.notify n] ∨
      (∃ now c, x = .call now c ∧ c.TakesOut n) ∧
        Event.about id s'.emitted = [.notify n, .dismissed id n.target] := by
  have htold : Event.about id s'.emitted = .notify n :: Event.about id new := by
    rw [haccounts.emitted, Event.about, List.filter_append,
      show s.emitted.filter (·.id = id) = [.notify n] from h.about_of_get hn]
    rfl
  obtain ⟨_, ⟨now, rfl⟩ | hd⟩ := haccounts.left id n hn hleft
  · rw [haccounts.quiet (by simp)] at htold
    exact .inl ⟨⟨now, rfl⟩, htold⟩
  · obtain ⟨now, c, n', hx, htakes, hn', _⟩ := (haccounts.dismissed id n.target).1 hd
    obtain rfl : n = n' := Option.some.inj (hn.symm.trans hn')
    have hmem : Event.dismissed id n.target ∈ Event.about id new := List.mem_filter.2 ⟨hd, by simp [Event.id]⟩
    refine .inr ⟨⟨now, c, hx, htakes⟩, htold.trans ?_⟩
    have hhistory := h'.announced.history id
    rw [htold] at hhistory
    cases hnew : Event.about id new with
    | nil => simp [hnew] at hmem
    | cons e es =>
      rw [hnew] at hhistory
      cases hhistory
      rfl

end Recorded

/-- Whatever was withdrawn was stored, and where it was withdrawn from. -/
theorem Service.stored_of_dismissed {service : Service Memory} (hb : service.backend = Backend.inMemory)
    (xs : List Step) (hn : (Step.freshIds xs).Nodup) {id : Id} {target : Option Address}
    (h : .dismissed id target ∈ (Step.performAll service.recorded xs
      (Service.initial service.settings Memory.empty).recorded).emitted) :
    ∃ ys n, ys <+: xs ∧ (Step.performAll service.recorded ys
      (Service.initial service.settings Memory.empty).recorded).store.store.get id = some n ∧
        target = n.target := by
  induction xs using List.reverseRecOn with
  | nil => cases h
  | append_singleton xs x ih =>
    rw [Step.freshIds, List.filterMap_append] at hn
    obtain ⟨hxs, _, hdisjoint⟩ := List.nodup_append.1 hn
    have hfresh : ∀ id, x.fresh? = some id → id ∉ Step.freshIds xs := fun id hid hm =>
      hdisjoint id hm id (by simp [hid]) rfl
    obtain ⟨log, hrun⟩ := Recorded.reached hb xs hxs
    obtain ⟨new, _, _, _, haccounts⟩ := hrun.step hb x hfresh
    rw [Step.performAll, List.foldl_append] at h
    rcases List.mem_append.1 (haccounts.emitted ▸ h) with h | h
    · obtain ⟨ys, n, hys, hget, htarget⟩ := ih hxs h
      exact ⟨ys, n, hys.trans (List.prefix_append xs [x]), hget, htarget⟩
    · obtain ⟨_, _, n, _, _, hget, _, htarget⟩ := (haccounts.dismissed id target).1 h
      exact ⟨xs, n, List.prefix_append xs [x], hget, htarget⟩

/-- What is told in a run whose notifications have different identifiers. Of each identifier there is at
most an announcement, and then a withdrawal; what is stored was announced, and what was withdrawn was stored.
Each call emits what it delivers, so every connection gets what is for it, and withdraws exactly what it takes
out of the store; what leaves that with a sweep was announced and is never withdrawn. What has left is not given back later. -/
theorem announced_and_withdrawn_once (self : Id) (settings : Settings) (hooks : Hooks) (xs : List Step)
    (hn : (Step.freshIds xs).Nodup) :
    let service := (Service.overMemory self settings hooks).recorded
    let after := fun ys => Step.performAll service ys (Service.initial settings Memory.empty).recorded
    (∀ id, Event.IsHistory id (Event.about id (after xs).emitted)) ∧
    (∀ id n, (after xs).store.store.get id = some n → Event.about id (after xs).emitted = [.notify n]) ∧
    (∀ id target, .dismissed id target ∈ (after xs).emitted →
      ∃ ys n, ys <+: xs ∧ (after ys).store.store.get id = some n ∧ target = n.target) ∧
    ∀ ys x zs, xs = ys ++ x :: zs →
      (∃ new, x.Accounts (after ys) (after (ys ++ [x])) new) ∧
      ∀ id n, (after ys).store.store.get id = some n → (after (ys ++ [x])).store.store.get id ≠ some n →
        service.Forgets id (after xs) ∧
        ((∃ now, x = .sweep now) ∧ Event.about id (after xs).emitted = [.notify n] ∨
          (∃ now c, x = .call now c ∧ c.TakesOut n) ∧
            Event.about id (after xs).emitted = [.notify n, .dismissed id n.target]) := by
  intro service after
  have hb : (Service.overMemory self settings hooks).backend = Backend.inMemory := rfl
  obtain ⟨log, hall⟩ : ∃ log, Recorded (Step.freshIds xs) (after xs) log := Recorded.reached hb xs hn
  refine ⟨hall.announced.history, fun id n => hall.about_of_get,
    fun id target => Service.stored_of_dismissed hb xs hn, fun ys x zs hxs => ?_⟩
  subst hxs
  rw [Step.freshIds, List.filterMap_append] at hn
  obtain ⟨hys, hrest, hdisjoint⟩ := List.nodup_append.1 hn
  have hfresh : Fresh (Step.freshIds (x :: zs)) (Step.freshIds ys) :=
    ⟨hrest, fun id hid hm => hdisjoint id hm id hid rfl⟩
  rw [Step.freshIds_cons] at hfresh
  obtain ⟨hx, hzs⟩ := hfresh.cons
  obtain ⟨log₁, h₁⟩ : ∃ log, Recorded (Step.freshIds ys) (after ys) log := Recorded.reached hb ys hys
  obtain ⟨new, log₂, hm, h₂, haccounts⟩ := h₁.step hb x hx
  have hstep : after (ys ++ [x]) = x.perform service (after ys) := List.foldl_append
  have hend : after (ys ++ x :: zs) = Step.performAll service zs (x.perform service (after ys)) :=
    List.foldl_append
  rw [hstep, hend]
  refine ⟨⟨new, haccounts⟩, fun id n hget hleft => ?_⟩
  obtain ⟨hnone, _⟩ := haccounts.left id n hget hleft
  have hgone : id ∉ log₂.ids := Log.get_eq_none.1 ((h₂.kept.store.get_eq id).symm.trans hnone)
  have hused : id ∈ x.fresh?.toList ++ Step.freshIds ys := by
    obtain ⟨y, hy, rfl, rfl⟩ := h₁.get_eq_some hget
    exact List.mem_append_right _ (h₁.kept.used (List.mem_map_of_mem hy))
  obtain ⟨log₃, h₃, hstays⟩ := h₂.performAll hb zs hzs
  obtain ⟨hout, habout⟩ := hstays id hused hgone
  refine ⟨Service.forgets_of_not_mem hb h₃.kept.store hout, ?_⟩
  rw [show Event.about id (Step.performAll service zs (x.perform service (after ys))).emitted = _ from habout]
  exact h₁.about_of_left h₂ haccounts hget hleft

/-- One holder of a group takes the place of another, and gets too old together with a third notification;
a dismissal comes too late for it. -/
theorem announced_and_withdrawn_once_of_expiry :
    let a : Address := ⟨.session, "s"⟩
    let later : Instant := ⟨100000, 0, by decide, by decide, by decide⟩
    let service := (Service.overMemory ⟨0⟩ {} Hooks.none).recorded
    let xs : List Step := [.connect .epoch [a],
      .call .epoch (.notify ⟨1⟩ a "note" .queued (some "g") []),
      .call .epoch (.notify ⟨2⟩ a "note" .queued (some "g") []),
      .sweep later, .call later (.dismissGroup a "g"), .call later (.dismiss ⟨2⟩)]
    let after := fun ys => Step.performAll service ys (Service.initial {} Memory.empty).recorded
    let s := after xs
    (Step.freshIds xs).Nodup ∧ service.Forgets ⟨1⟩ s ∧ service.Forgets ⟨2⟩ s ∧
      (Event.about ⟨1⟩ s.emitted).length = 2 ∧ (Event.about ⟨2⟩ s.emitted).length = 1 ∧
      s.emitted.map Event.id = [⟨1⟩, ⟨1⟩, ⟨2⟩] := by
  intro a later service xs after s
  have hn : (Step.freshIds xs).Nodup := by decide
  obtain ⟨_, _, _, hsteps⟩ := announced_and_withdrawn_once ⟨0⟩ {} Hooks.none xs hn
  obtain ⟨_, hreplaced⟩ := hsteps (xs.take 2) _ (xs.drop 3) rfl
  obtain ⟨_, hexpired⟩ := hsteps (xs.take 3) _ (xs.drop 4) rfl
  obtain ⟨n₁, hn₁⟩ := Option.isSome_iff_exists.1
    (by decide +kernel : ((after (xs.take 2)).store.store.get ⟨1⟩).isSome)
  have hout₁ : (after (xs.take 3)).store.store.get ⟨1⟩ = none := Option.isNone_iff_eq_none.1 (by decide +kernel)
  obtain ⟨hgone₁, _⟩ := hreplaced ⟨1⟩ n₁ hn₁ fun h => nomatch hout₁.symm.trans h
  obtain ⟨n₂, hn₂⟩ := Option.isSome_iff_exists.1
    (by decide +kernel : ((after (xs.take 3)).store.store.get ⟨2⟩).isSome)
  have hout₂ : (after (xs.take 4)).store.store.get ⟨2⟩ = none := Option.isNone_iff_eq_none.1 (by decide +kernel)
  obtain ⟨hgone₂, _⟩ := hexpired ⟨2⟩ n₂ hn₂ fun h => nomatch hout₂.symm.trans h
  exact ⟨hn, hgone₁, hgone₂, by decide +kernel, by decide +kernel, by decide +kernel⟩

end Tidings
