import Tidings.Proofs.Dismissal
import Tidings.Proofs.Journal
/-!
What calls that come to nothing leave behind. A call either only asks the backend, or ends with one event
that is emitted and told to the hook.
-/
namespace Tidings

variable {σ α β : Type}

/-- Whether a call failed, was suppressed, or found nothing to dismiss. -/
def Reply.isFruitless : Except Fault Reply → Bool
  | .error _ | .ok (.sent none) | .ok (.dismissedGroup none) => true
  | .ok (.sent (some _)) | .ok .dismissed | .ok (.dismissedGroup (some _)) => false

/-- The event that tells of what a call came to. -/
inductive Call.Tells : Call → Reply → Event → Prop where
  | sent {c : Call} (n : Notification) : Tells c (.sent (some n)) (.notify n)
  | dismissed (id : Id) (a : Address) : Tells (.dismiss id) .dismissed (.dismissed id (some a))
  | dismissedGroup (a : Address) (group : String) (id : Id) :
    Tells (.dismissGroup a group) (.dismissedGroup (some id)) (.dismissed id (some a))

/-- Whether a call is to send what is unfit: to nobody, of no type or the reserved one, or to no group. -/
def Call.isUnfit : Call → Bool
  | .notify _ target kind _ group _ =>
    target.owner = "" || kind = "" || kind = dismissedKind || group = some ""
  | .broadcast _ kind group _ => kind = "" || kind = dismissedKind || group = some ""
  | .dismiss _ | .dismissGroup _ _ => false

/-- A hook that allows where another breaks down. -/
def Hooks.lenient (hooks : Hooks) : Hooks :=
  ⟨fun n => match hooks.beforeSend n with
    | .suppress => .suppress
    | .allow | .failed | .crashed => .allow⟩

namespace Service

/-- From one state to another the backend was asked, and nothing else happened. -/
structure State.OnlyAsked (s s' : State (Journal σ)) : Prop where
  registry : s'.registry = s.registry
  recent : s'.recent = s.recent
  told : s'.told = s.told
  uses : ∃ qs : List Backend.Inquiry, s'.store.uses = s.store.uses ++ qs.map .asked

/-- From one state to another several things happened, the last of which was that an event was emitted; the
hook was not told. -/
structure State.Emitted (origin : Id) (e : Event) (s s' : State (Journal σ)) : Prop where
  told : s'.told = s.told
  uses : ∃ us, s'.store.uses = s.store.uses ++ us ++ [.published ⟨origin, e⟩]

/-- The ways in which an operation goes: it only asks, and fails or gives an idle result; or its last deed
is an event that it also tells. -/
inductive Course (origin : Id) (s : State (Journal σ)) (idle : α → Prop) (tells : α → Event → Prop) :
    Except Fault α × State (Journal σ) → Prop where
  | failed (fault : Fault) {s' : State (Journal σ)} (h : s.OnlyAsked s') :
    Course origin s idle tells (.error fault, s')
  | idle (result : α) {s' : State (Journal σ)} (hresult : idle result) (h : s.OnlyAsked s') :
    Course origin s idle tells (.ok result, s')
  | told (result : α) {s' : State (Journal σ)} {e : Event} (he : tells result e)
    (h : s.Emitted origin e s') : Course origin s idle tells (.ok result, s'.tell e)

namespace State
variable {origin : Id} {s s' : State (Journal σ)}

theorem OnlyAsked.refl (s : State (Journal σ)) : s.OnlyAsked s := ⟨rfl, rfl, rfl, [], (List.append_nil _).symm⟩

/-- One more question. -/
theorem OnlyAsked.ask (h : s.OnlyAsked s') (b : Backend σ) (q : Backend.Inquiry) :
    s.OnlyAsked (access (b.journaled.ask q) s').2 := by
  obtain ⟨qs, hqs⟩ := h.uses
  refine ⟨h.registry, h.recent, h.told, qs ++ [q], ?_⟩
  rw [b.ask_journaled, access_eq]
  simp [Access.noting, State.withStore, hqs]

/-- Whatever happened before, an event that is emitted comes last. -/
theorem emit_emitted (service : Service σ) (now : Instant) (e : Event) (htold : s'.told = s.told)
    (huses : ∃ us, s'.store.uses = s.store.uses ++ us) :
    s.Emitted service.id e (service.journaled.emit now e s') := by
  obtain ⟨us, hus⟩ := huses
  refine ⟨htold, us, ?_⟩
  rw [← hus]
  rfl

theorem OnlyAsked.emit (h : s.OnlyAsked s') (service : Service σ) (now : Instant) (e : Event) :
    s.Emitted service.id e (service.journaled.emit now e s') := by
  obtain ⟨qs, hqs⟩ := h.uses
  exact emit_emitted service now e h.told ⟨_, hqs⟩

theorem Emitted.emit {e : Event} (h : s.Emitted origin e s') (service : Service σ) (now : Instant) (e' : Event) :
    s.Emitted service.id e' (service.journaled.emit now e' s') := by
  obtain ⟨us, hus⟩ := h.uses
  exact emit_emitted service now e' h.told ⟨us ++ [.published ⟨origin, e⟩], by rw [hus, List.append_assoc]⟩

end State

variable (service : Service σ) (now : Instant) {s s' : State (Journal σ)}

theorem Course.map {origin : Id} {idle : α → Prop} {tells : α → Event → Prop} {idle' : β → Prop}
    {tells' : β → Event → Prop} {f : α → β} {x : Action (Journal σ) α} (h : Course origin s idle tells (x s))
    (hidle : ∀ result, idle result → idle' (f result))
    (htells : ∀ result e, tells result e → tells' (f result) e) :
    Course origin s idle' tells' (Access.map f x s) := by
  unfold Access.map
  generalize x s = x' at h ⊢
  cases h with
  | failed fault h => exact .failed fault h
  | idle result hresult h => exact .idle _ (hidle result hresult) h
  | told result he h => exact .told _ (htells result _ he) h

/-- Sending fails without a trace, or emits the notification last. -/
theorem send_course (n : Notification) (s : State (Journal σ)) :
    (∃ fault s', service.journaled.send now n s = (.error fault, s') ∧ s.OnlyAsked s') ∨
      ∃ s', service.journaled.send now n s = (.ok (), s') ∧ s.Emitted service.id (.notify n) s' := by
  have hunstored : s.Emitted service.id (.notify n) (service.journaled.sendUnstored now n s).2 :=
    State.emit_emitted service now _ rfl ⟨[], (List.append_nil _).symm⟩
  unfold send
  cases n.target with
  | none => exact .inr ⟨_, rfl, hunstored⟩
  | some a =>
    by_cases hmode : n.mode.isPersisted
    · have hasked := (State.OnlyAsked.refl s).ask service.backend (.store now n)
      have hover : access (service.journaled.backend.store now n) s =
        access (service.backend.journaled.ask (.store now n)) s := rfl
      simp only [hmode, if_true, sendStored, hover]
      generalize access (service.backend.journaled.ask (.store now n)) s = x at hasked ⊢
      obtain ⟨outcome, s'⟩ := x
      rcases outcome with fault | _ | old
      · exact .inl ⟨fault, s', rfl, hasked⟩
      · exact .inr ⟨_, rfl, hasked.emit service now _⟩
      · exact .inr ⟨_, rfl, (hasked.emit service now _).emit service now _⟩
    · simp only [hmode, Bool.false_eq_true, if_false]
      exact .inr ⟨_, rfl, hunstored⟩

theorem dispatch_course (n : Notification) (s : State (Journal σ)) :
    Course service.id s (· = none) (fun sent e => ∃ n, sent = some n ∧ e = .notify n)
      (service.journaled.dispatch now n s) := by
  unfold dispatch
  cases problem? n with
  | some fault => exact .failed fault (.refl s)
  | none =>
    by_cases hv : service.journaled.hooks.beforeSend n = .suppress
    · simp only [hv, if_true]
      exact .idle none rfl (.refl s)
    · simp only [hv, if_false]
      obtain ⟨fault, s', hsend, h⟩ | ⟨s', hsend, h⟩ := service.send_course now n s
      · rw [hsend]
        exact .failed fault h
      · rw [hsend]
        exact .told (some n) ⟨n, rfl, rfl⟩ h

theorem dismiss_course (id : Id) (s : State (Journal σ)) :
    Course service.id s (fun _ => False) (fun _ e => ∃ a, e = .dismissed id (some a))
      (service.journaled.dismiss now id s) := by
  have hlooked := (State.OnlyAsked.refl s).ask service.backend (.mode id)
  have hmode : access (service.journaled.backend.mode id) s =
    access (service.backend.journaled.ask (.mode id)) s := rfl
  unfold dismiss
  by_cases hrecent : s.recent.contains id
  · rw [if_pos hrecent]
    exact .failed _ (.refl s)
  · rw [if_neg hrecent, hmode]
    generalize access (service.backend.journaled.ask (.mode id)) s = x at hlooked ⊢
    obtain ⟨found, s₁⟩ := x
    rcases found with fault | _ | mode
    · exact .failed fault hlooked
    · exact .failed _ hlooked
    · by_cases hd : mode.isDismissible
      · have hremoved := hlooked.ask service.backend (.remove id)
        have hremove : access (service.journaled.backend.remove id) s₁ =
          access (service.backend.journaled.ask (.remove id)) s₁ := rfl
        simp only [hd, if_true, hremove]
        generalize access (service.backend.journaled.ask (.remove id)) s₁ = x at hremoved ⊢
        obtain ⟨removed, s₂⟩ := x
        rcases removed with fault | _ | a
        · exact .failed fault hremoved
        · exact .failed _ hremoved
        · exact .told () ⟨a, rfl⟩ (hremoved.emit service now _)
      · simp only [hd]
        exact .failed _ hlooked

theorem dismissGroup_course (a : Address) (group : String) (s : State (Journal σ)) :
    Course service.id s (· = none) (fun removed e => ∃ id, removed = some id ∧ e = .dismissed id (some a))
      (service.journaled.dismissGroup now a group s) := by
  have hremoved := (State.OnlyAsked.refl s).ask service.backend (.removeGroup a group)
  have hremove : access (service.journaled.backend.removeGroup a group) s =
    access (service.backend.journaled.ask (.removeGroup a group)) s := rfl
  unfold dismissGroup
  rw [hremove]
  generalize access (service.backend.journaled.ask (.removeGroup a group)) s = x at hremoved ⊢
  obtain ⟨removed, s'⟩ := x
  rcases removed with fault | _ | id
  · exact .failed fault hremoved
  · exact .idle none rfl hremoved
  · exact .told (some id) ⟨id, rfl, rfl⟩ (hremoved.emit service now _)

end Service

namespace Call
variable (service : Service σ) (now : Instant) (c : Call)

theorem answer_course (s : Service.State (Journal σ)) :
    Service.Course service.id s (fun reply => Reply.isFruitless (.ok reply)) c.Tells
      (c.answer service.journaled now s) := by
  have hdispatch {c : Call} (n : Notification) :
      Service.Course service.id s (fun reply => Reply.isFruitless (.ok reply)) c.Tells
        (Access.map .sent (service.journaled.dispatch now n) s) := by
    refine (service.dispatch_course now n s).map ?_ ?_
    · rintro _ rfl
      rfl
    · rintro _ _ ⟨n, rfl, rfl⟩
      exact .sent n
  cases c with
  | notify fresh target kind mode group payload =>
    simp only [answer, Service.notify]
    by_cases ho : target.owner = ""
    · rw [if_pos ho]
      exact .failed _ (.refl s)
    · rw [if_neg ho]
      exact hdispatch _
  | broadcast fresh kind group payload => exact hdispatch _
  | dismiss id =>
    refine (service.dismiss_course now id s).map (fun _ hidle => hidle.elim) ?_
    rintro _ _ ⟨a, rfl⟩
    exact .dismissed id a
  | dismissGroup a group =>
    refine (service.dismissGroup_course now a group s).map ?_ ?_
    · rintro _ rfl
      rfl
    · rintro _ _ ⟨id, rfl, rfl⟩
      exact .dismissedGroup a group id

/-- A call that comes to nothing only asks. -/
theorem onlyAsked_of_fruitless {s : Service.State (Journal σ)}
    (hr : Reply.isFruitless (c.answer service.journaled now s).1) :
    s.OnlyAsked (c.answer service.journaled now s).2 := by
  have hcourse := c.answer_course service now s
  generalize c.answer service.journaled now s = x at hcourse hr ⊢
  cases hcourse with
  | failed fault h => exact h
  | idle reply hreply h => exact h
  | told reply he h => cases he <;> cases hr

/-- A call that comes to something ends with its event, which it tells. -/
theorem emitted_of_not_fruitless {s : Service.State (Journal σ)}
    (hr : ¬ Reply.isFruitless (c.answer service.journaled now s).1) :
    ∃ reply e s', c.answer service.journaled now s = (.ok reply, s'.tell e) ∧ c.Tells reply e ∧
      s.Emitted service.id e s' := by
  have hcourse := c.answer_course service now s
  generalize c.answer service.journaled now s = x at hcourse hr ⊢
  cases hcourse with
  | failed fault h => exact absurd rfl hr
  | idle reply hreply h => exact absurd hreply hr
  | told reply he h => exact ⟨reply, _, _, rfl, he, h⟩

/-- What is unfit is turned away with one fault, whatever the hook says and the backend holds. -/
theorem answer_of_isUnfit (hc : c.isUnfit) : ∃ fault : Fault, fault.kind = .invalidInput ∧
    ∀ {σ : Type} (service : Service σ) (s : Service.State σ), c.answer service now s = (.error fault, s) := by
  have hdispatch {n : Notification} (hn : n.kind = "" ∨ n.kind = dismissedKind ∨ n.group = some "") :
      ∃ fault : Fault, fault.kind = .invalidInput ∧ ∀ {σ : Type} (service : Service σ) (s : Service.State σ),
        service.dispatch now n s = (.error fault, s) := by
    obtain ⟨fault, hfault, hkind⟩ : ∃ fault, Service.problem? n = some fault ∧ fault.kind = .invalidInput := by
      unfold Service.problem?
      by_cases hempty : n.kind = ""
      · exact ⟨_, if_pos hempty, rfl⟩
      · by_cases hreserved : n.kind = dismissedKind
        · exact ⟨_, (if_neg hempty).trans (if_pos hreserved), rfl⟩
        · have hgroup : n.group = some "" := by tauto
          exact ⟨_, (if_neg hempty).trans ((if_neg hreserved).trans (if_pos hgroup)), rfl⟩
    refine ⟨fault, hkind, fun service s => ?_⟩
    rw [Service.dispatch, hfault]
  cases c with
  | notify fresh target kind mode group payload =>
    by_cases ho : target.owner = ""
    · refine ⟨.invalidInput (target.scope.name ++ " id must not be empty"), rfl, fun service s => ?_⟩
      simp only [answer, Access.map, Service.notify, ho, if_true]
      rfl
    · have hunfit : kind = "" ∨ kind = dismissedKind ∨ group = some "" := by
        simpa [isUnfit, ho, or_assoc] using hc
      obtain ⟨fault, hkind, hfault⟩ := hdispatch (n := .create fresh now target kind mode group payload) hunfit
      refine ⟨fault, hkind, fun service s => ?_⟩
      simp only [answer, Access.map, Service.notify, ho, if_false, hfault]
      rfl
  | broadcast fresh kind group payload =>
    have hunfit : kind = "" ∨ kind = dismissedKind ∨ group = some "" := by
      simpa [isUnfit, or_assoc] using hc
    obtain ⟨fault, hkind, hfault⟩ := hdispatch (n := .create fresh now none kind .ephemeral group payload)
      hunfit
    refine ⟨fault, hkind, fun service s => ?_⟩
    simp only [answer, Access.map, Service.broadcast, hfault]
    rfl
  | dismiss id => cases hc
  | dismissGroup a group => cases hc

/-- A hook that breaks down is as good as one that allows. -/
theorem answer_lenient (s : Service.State σ) :
    c.answer { service with hooks := service.hooks.lenient } now s = c.answer service now s := by
  have hdispatch (n : Notification) :
      Service.dispatch { service with hooks := service.hooks.lenient } now n s = service.dispatch now n s := by
    have hverdict : service.hooks.lenient.beforeSend n = .suppress ↔
        service.hooks.beforeSend n = .suppress := by
      cases hv : service.hooks.beforeSend n <;> simp [Hooks.lenient, hv]
    have hsend : Service.send { service with hooks := service.hooks.lenient } now n s =
      service.send now n s := rfl
    simp only [Service.dispatch, hverdict, hsend]
  cases c with
  | notify fresh target kind mode group payload =>
    simp only [answer, Access.map, Service.notify]
    split
    · rfl
    · rw [hdispatch]
  | broadcast fresh kind group payload =>
    simp only [answer, Access.map, Service.broadcast]
    rw [hdispatch]
  | dismiss id => rfl
  | dismissGroup a group => rfl

section InMemory
variable {service : Service Memory} (hb : service.backend = Backend.inMemory) {log : Log}
  {s : Service.State Memory}
include hb

theorem dispatch_of_fruitless {n : Notification}
    (hr : Reply.isFruitless ((service.dispatch now n s).1.map .sent)) : (service.dispatch now n s).2 = s := by
  have hsend : (service.send now n s).1 = .ok () := by
    unfold Service.send
    cases n.target with
    | none => rfl
    | some a =>
      simp only
      split
      · rw [Service.sendStored, hb]
        rfl
      · rfl
  revert hr
  unfold Service.dispatch
  cases Service.problem? n with
  | some fault => exact fun _ => rfl
  | none =>
    by_cases hv : service.hooks.beforeSend n = .suppress
    · rw [if_pos hv]
      exact fun _ => rfl
    · simp only [hv, if_false]
      generalize service.send now n s = x at hsend ⊢
      obtain ⟨outcome, s'⟩ := x
      cases hsend
      exact fun hr => by cases hr

/-- A call that comes to nothing leaves the memory as it is, to the last detail. -/
theorem answer_of_fruitless (h : s.store.Represents log) (c : Call)
    (hr : Reply.isFruitless (c.answer service now s).1) : (c.answer service now s).2 = s := by
  cases c with
  | notify fresh target kind mode group payload =>
    revert hr
    simp only [answer, Access.map, Service.notify]
    split
    · exact fun _ => rfl
    · exact dispatch_of_fruitless now hb
  | broadcast fresh kind group payload => exact dispatch_of_fruitless now hb hr
  | dismiss id =>
    revert hr
    simp only [answer, Access.map, Service.dismiss_eq hb h id]
    split
    · exact fun _ => rfl
    · split
      · exact fun _ => rfl
      · next x hf =>
        split
        · obtain ⟨hx, rfl⟩ := (h.sound.find?_hasId x id).1 hf
          obtain ⟨a, ha, _⟩ := Log.exists_target (h.sound.stored x hx)
          rw [ha]
          exact fun hr => by cases hr
        · exact fun _ => rfl
  | dismissGroup a group =>
    have haccess : Service.access (service.backend.removeGroup a group) s =
        (.ok (s.store.removeGroup a group).1, s.withStore (s.store.removeGroup a group).2) := by
      rw [hb]
      rfl
    revert hr
    simp only [answer, Access.map, Service.dismissGroup, haccess]
    cases hremoved : (s.store.removeGroup a group).1 with
    | some id => exact fun hr => by cases hr
    | none =>
      rw [h.removeGroup_none hremoved]
      exact fun _ => rfl

end InMemory

end Call

/-- A call that comes to nothing delivers, publishes, remembers and tells nothing, whatever hook and backend
there are, and one over memory leaves what is stored as it is after any run; what is unfit is turned away
before hook and backend; a hook that breaks down is one that allows; and a call that comes to something
tells its one event, after it was emitted. -/
theorem fruitless_calls_leave_no_trace (service : Service σ) (now : Instant) (c : Call) (s : Service.State σ) :
    let r := c.answer service now s
    (Reply.isFruitless r.1 → r.2.registry = s.registry ∧ r.2.recent = s.recent ∧ r.2.told = s.told ∧
      ∀ m, .published m ∉ c.uses service now s) ∧
    (∀ (self : Id) (settings : Settings) (hooks : Hooks) (xs : List Turn), (Turn.freshIds xs).Nodup →
      let service := Service.overMemory self settings hooks
      let s := Turn.runAll service xs (Service.initial settings Memory.empty)
      Reply.isFruitless (c.answer service now s).1 → (c.answer service now s).2.store = s.store) ∧
    (c.isUnfit → ∃ fault : Fault, fault.kind = .invalidInput ∧
      ∀ (hooks : Hooks) (b : Backend σ),
        c.answer { service with hooks, backend := b } now s = (.error fault, s) ∧
        c.uses { service with hooks, backend := b } now s = []) ∧
    c.answer { service with hooks := service.hooks.lenient } now s = r ∧
    (¬ Reply.isFruitless r.1 → ∃ reply e, r.1 = .ok reply ∧ c.Tells reply e ∧ r.2.told = s.told ++ [e] ∧
      (c.uses service now s).getLast? = some (.published ⟨service.id, e⟩)) := by
  intro r
  have hplain := c.answer_journaled service now s
  have hresult : r.1 = (c.answer service.journaled now s.noted).1 := hplain.result
  obtain ⟨_, hregistry, hrecent, htold⟩ := hplain.matched
  refine ⟨fun hr => ?_, fun self settings hooks xs hn => ?_, fun hc => ?_, c.answer_lenient service now s,
    fun hr => ?_⟩
  · rw [hresult] at hr
    have hasked := c.onlyAsked_of_fruitless service now hr
    obtain ⟨qs, hqs⟩ := hasked.uses
    refine ⟨hregistry.trans hasked.registry, hrecent.trans hasked.recent, htold.trans hasked.told,
      fun m hm => ?_⟩
    have hmem : Backend.Use.published m ∈ qs.map Backend.Use.asked := by
      rw [Call.uses, hqs] at hm
      exact hm
    obtain ⟨q, _, hq⟩ := List.mem_map.1 hmem
    cases hq
  · intro service s hr
    obtain ⟨used, log, h⟩ : ∃ used log, Kept used s log :=
      Turn.kept_runAll rfl (Kept.initial settings) xs ⟨hn, by simp⟩
    rw [Call.answer_of_fruitless now rfl h.store c hr]
  · obtain ⟨fault, hkind, hfault⟩ := c.answer_of_isUnfit now hc
    refine ⟨fault, hkind, fun hooks b => ⟨hfault _ s, ?_⟩⟩
    rw [Call.uses, hfault]
    rfl
  · rw [hresult] at hr
    obtain ⟨reply, e, s', hanswer, he, hemitted⟩ := c.emitted_of_not_fruitless service now hr
    obtain ⟨us, hus⟩ := hemitted.uses
    refine ⟨reply, e, hresult.trans (congrArg Prod.fst hanswer), he, ?_, ?_⟩
    · rw [htold, hanswer]
      exact congrArg (· ++ [e]) hemitted.told
    · have huses : c.uses service now s = us ++ [.published ⟨service.id, e⟩] := by
        rw [Call.uses, hanswer]
        exact hus
      rw [huses, List.getLast?_concat]

/-- A store that fails, a dismissal that finds nothing after something was stored, a sending to nobody, and
one that succeeds. -/
theorem fruitless_calls_leave_no_trace_of_failing_store :
    let a : Address := ⟨.user, "u"⟩
    let note (id : Id) (owner : String) : Call := .notify id ⟨.user, owner⟩ "note" .queued none []
    let failing : Backend Memory := { Backend.inMemory with store := fun _ _ => Access.fail (.database "down") }
    let service : Service Memory := ⟨⟨0⟩, {}, failing, ⟨fun _ => .crashed⟩⟩
    let s : Service.State Memory := Service.initial {} Memory.empty
    let sound := Service.overMemory ⟨0⟩ {} Hooks.none
    let stored := Turn.runAll sound [.own (.call .epoch (note ⟨1⟩ "u"))] s
    (∀ m, .published m ∉ (note ⟨1⟩ "u").uses service .epoch s) ∧
      ((Call.dismissGroup a "g").answer sound .epoch stored).2.store = stored.store ∧
      (∃ fault : Fault, (note ⟨1⟩ "").answer service .epoch s = (.error fault, s)) ∧
      ∃ e, ((note ⟨1⟩ "u").answer sound .epoch s).2.told = [e] := by
  intro a note failing service s sound stored
  obtain ⟨hquiet, _⟩ := fruitless_calls_leave_no_trace service .epoch (note ⟨1⟩ "u") s
  obtain ⟨_, hmemory, _⟩ := fruitless_calls_leave_no_trace service .epoch (.dismissGroup a "g") s
  obtain ⟨_, _, hunfit, _⟩ := fruitless_calls_leave_no_trace service .epoch (note ⟨1⟩ "") s
  obtain ⟨_, _, _, _, htold⟩ := fruitless_calls_leave_no_trace sound .epoch (note ⟨1⟩ "u") s
  obtain ⟨_, _, _, hnone⟩ := hquiet rfl
  obtain ⟨fault, _, hfault⟩ := hunfit rfl
  obtain ⟨_, e, _, _, hone, _⟩ := htold (by decide)
  exact ⟨hnone, hmemory ⟨0⟩ {} Hooks.none [.own (.call .epoch (note ⟨1⟩ "u"))] (by decide) rfl,
    ⟨fault, (hfault service.hooks failing).1⟩, e, hone⟩

end Tidings
