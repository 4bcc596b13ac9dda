import Tidings.Proofs.Interleaving
import Tidings.Proofs.Seclusion
/-!
What stays true while calls run at the same time over memory. The store keeps a log, locks and callers are
in step, and what a caller still has to say was decided when it made its change.
-/
namespace Tidings
open Log

/-- What a change at an address does, as deeds. -/
def Change.deeds (a : Address) (log : Log) : Change → List Deed
  | .store n => replacement log n ++ [.post n]
  | .removeGroup group => dismissGroupDeeds log a group

namespace Phase

/-- How far a caller is: before the first step, on its way, about to change the store, or past that. -/
def progress : Phase → Nat
  | .ready => 0
  | .waiting _ | .asked => 1
  | .locked _ | .found => 2
  | .telling _ _ | .released _ _ | .leaving _ | .doing _ _ => 3

/-- The events that a caller still has to emit. -/
def pending : Phase → List Event
  | .telling _ rest => Effect.events rest.effects
  | .doing es _ => Effect.events es
  | .ready | .waiting _ | .locked _ | .released _ _ | .leaving _ | .asked | .found => []

/-- A caller with nothing to emit comes from one point to another, and is not inside any more. -/
structure Passes (p q : Phase) : Prop where
  before : p.pending = []
  after : q.pending = []
  outside : ∀ k, q.stage ≠ .inside k
  forward : p.progress ≤ q.progress
  changed : ∀ k, p.stage = .inside k → p.progress = 3

/-- A point outside at which nothing is to be emitted. -/
def IsQuiet : Phase → Prop
  | .ready | .waiting _ | .released _ _ | .leaving _ | .asked | .found | .doing [] _ => True
  | .locked _ | .telling _ _ | .doing (_ :: _) _ => False

theorem IsQuiet.pending {p : Phase} (h : p.IsQuiet) : p.pending = [] := by
  cases p with
  | telling k rest => exact h.elim
  | doing es reply =>
    cases es with
    | nil => rfl
    | cons e es => exact h.elim
  | _ => rfl

theorem IsQuiet.outside {p : Phase} (h : p.IsQuiet) (k : LockId) : p.stage ≠ .inside k := by
  cases p with
  | locked j => exact h.elim
  | telling j rest => exact h.elim
  | _ => exact Stage.noConfusion

theorem Passes.of_quiet {p q : Phase} (hp : p.IsQuiet) (hq : q.IsQuiet) (h : p.progress ≤ q.progress) :
    p.Passes q :=
  ⟨hp.pending, hq.pending, hq.outside, h, fun k hk => absurd hk (hp.outside k)⟩

end Phase

/-- A call that is turned away, takes its turn, or dismisses by an identifier. -/
def Job.IsOrderly {σ : Type} (service : Service σ) (job : Job) : Prop := ∀ n, job.plan service ≠ .atOnce n

theorem Job.of_store {σ : Type} {service : Service σ} {job : Job} {a : Address} {n : Notification}
    (h : job.plan service = .inTurn a (.store n)) :
    n.target = some a ∧ n.mode.isPersisted ∧ job.call.fresh? = some n.id := by
  obtain ⟨now, call⟩ := job
  cases call with
  | notify fresh target kind mode group payload =>
    simp only [plan] at h
    split at h
    · cases h
    · obtain ⟨_, _, ha, hmode, hx⟩ := Service.plan_inTurn h
      cases hx
      exact ⟨ha, hmode, rfl⟩
  | broadcast fresh kind group payload =>
    obtain ⟨_, _, ha, _⟩ := Service.plan_inTurn h
    cases ha
  | dismiss id => cases h
  | dismissGroup b group => cases h

/-- What a change does happens at its address. -/
theorem Change.target_of_mem_deeds {σ : Type} {service : Service σ} {job : Job} {a : Address} {x : Change}
    (hplan : job.plan service = .inTurn a x) {log : Log} {d : Deed} (h : d ∈ x.deeds a log) :
    d.event.target = some a := by
  cases x with
  | store n =>
    obtain ⟨ha, _⟩ := Job.of_store hplan
    rcases List.mem_append.1 h with h | h
    · rw [replacement_eq ha] at h
      obtain ⟨s, _, rfl⟩ := List.mem_map.1 h
      rfl
    · rw [List.mem_singleton.1 h]
      exact ha
  | removeGroup group =>
    obtain ⟨s, _, rfl⟩ := List.mem_map.1 h
    rfl

theorem Change.fresh?_of_post_mem {σ : Type} {service : Service σ} {job : Job} {a : Address} {x : Change}
    (hplan : job.plan service = .inTurn a x) {log : Log} {n : Notification} (h : .post n ∈ x.deeds a log) :
    job.call.fresh? = some n.id := by
  cases x with
  | store m =>
    obtain ⟨ha, _, hid⟩ := Job.of_store hplan
    rcases List.mem_append.1 h with h | h
    · rw [replacement_eq ha] at h
      obtain ⟨s, _, hs⟩ := List.mem_map.1 h
      cases hs
    · cases List.mem_singleton.1 h
      exact hid
  | removeGroup group =>
    obtain ⟨s, _, hs⟩ := List.mem_map.1 h
    cases hs

/-- Dismissing the holder of a group is taking it out of the log. -/
theorem logAfter_dismissGroup {log : Log} (h : Sound log) (now : Instant) (a : Address) (group : String) :
    Deed.logAfter now log (dismissGroupDeeds log a group) = (log.removeGroup a group).2 ∧
      Deed.AllFit now log (dismissGroupDeeds log a group) := by
  unfold dismissGroupDeeds
  cases hf : log.find? (holdsQueued a group) with
  | none => exact ⟨(without_of_find?_none hf).symm, trivial⟩
  | some x =>
    obtain ⟨hx, hp⟩ := (h.find?_holdsQueued a group x).1 hf
    exact ⟨(h.without_holdsQueued hf).symm, ⟨x, hx, rfl, target_of_holdsQueued hp⟩, trivial⟩

section Memory
variable {service : Service Memory} (hb : service.backend = Backend.inMemory)
include hb

/-- A change over memory: the log tells what is stored then, and what the caller has to emit. -/
theorem Change.make_done {job : Job} {a : Address} {x : Change}
    (hplan : job.plan service.recorded = .inTurn a x) {s : Service.State (Posted Memory)} {log : Log}
    (h : s.store.store.Represents log) (hfresh : ∀ id, job.call.fresh? = some id → id ∉ log.ids) :
    ∃ rest m, x.make service.recorded job.now a s = (rest, s.withStore (s.store.setStore m)) ∧
      Effect.events rest.effects = Deed.events (x.deeds a log) ∧
      m.Represents (Deed.logAfter job.now log (x.deeds a log)) ∧
      Deed.AllFit job.now log (x.deeds a log) := by
  cases x with
  | store n =>
    obtain ⟨ha, hmode, hid⟩ := Job.of_store hplan
    have hst : n.isStored := by simp [Notification.isStored, ha, hmode]
    have hnew : n.id ∉ log.ids := hfresh n.id hid
    obtain ⟨hr, hrep⟩ := h.store job.now fun _ => hnew
    have haccess : Service.access (service.recorded.backend.store job.now n) s =
        (.ok (s.store.store.store job.now n).1,
          s.withStore (s.store.setStore (s.store.store.store job.now n).2)) := by
      unfold Service.recorded
      rw [hb]
      rfl
    rw [← logAfter_send h.sound job.now hst] at hrep
    refine ⟨_, _, by rw [make, haccess], ?_, hrep, allFit_send job.now hst hnew⟩
    rw [deeds, replacement_eq ha, hr, Log.store, if_pos hst]
    cases log.find? (yields n) <;> rfl
  | removeGroup group =>
    obtain ⟨hr, hrep⟩ := h.removeGroup a group
    have haccess : Service.access (service.recorded.backend.removeGroup a group) s =
        (.ok ((log.find? (holdsQueued a group)).map (·.notification.id)),
          s.withStore (s.store.setStore (s.store.store.removeGroup a group).2)) := by
      have hfound : (log.find? (holdsQueued a group)).map (·.notification.id) =
        (s.store.store.removeGroup a group).1 := hr.symm
      unfold Service.recorded
      rw [hb, hfound]
      rfl
    obtain ⟨hlog, hfit⟩ := logAfter_dismissGroup h.sound job.now a group
    rw [← hlog] at hrep
    rw [make, haccess, deeds]
    unfold dismissGroupDeeds at *
    cases hf : log.find? (holdsQueued a group) with
    | none =>
      rw [hf] at hrep hfit
      exact ⟨_, _, rfl, rfl, hrep, hfit⟩
    | some x =>
      rw [hf] at hrep hfit
      exact ⟨_, _, rfl, rfl, hrep, hfit⟩

omit hb in
/-- An effect leaves the store alone, and what it emits is taken down. -/
theorem Effect.run_emitted (hb : service.backend = Backend.inMemory) (now : Instant) (e : Effect)
    (s : Service.State (Posted Memory)) : (e.run service.recorded now s).store.store = s.store.store ∧
      (e.run service.recorded now s).emitted = s.emitted ++ e.event?.toList := by
  constructor
  · cases e with
    | emit e =>
      unfold run Service.recorded
      rw [hb]
      rfl
    | remember id => rfl
    | tell e => rfl
  · obtain ⟨ids, hdoes⟩ := e.run_does service.recorded now s
    obtain ⟨new, hsent, _, hnew⟩ := hdoes.sent
    rw [Service.State.emitted_of_sent hsent, hnew]

omit hb in
theorem Effect.runAll_emitted (hb : service.backend = Backend.inMemory) (now : Instant) (es : List Effect)
    (s : Service.State (Posted Memory)) : (runAll service.recorded now es s).store.store = s.store.store ∧
      (runAll service.recorded now es s).emitted = s.emitted ++ events es := by
  induction es generalizing s with
  | nil => exact ⟨rfl, (List.append_nil _).symm⟩
  | cons e es ih =>
    obtain ⟨hstore, hemitted⟩ := e.run_emitted hb now s
    obtain ⟨hrest, hmore⟩ := ih (e.run service.recorded now s)
    refine ⟨hrest.trans hstore, ?_⟩
    rw [events_cons, ← List.append_assoc, ← hemitted]
    exact hmore

end Memory

/-- A call that has come so far: its new identifier is not used before it changes the store, and what it
has to emit it emits inside at its address, unless it dismisses by an identifier. -/
structure Job.Fits {σ : Type} (service : Service σ) (job : Job) (log : Log) (p : Phase) : Prop where
  unused : p.progress < 3 → ∀ id, job.call.fresh? = some id → id ∉ log.ids
  spoken : ∀ e ∈ p.pending, (∃ id, job.plan service = .dismissal id) ∨
    (∃ k, p.stage = .inside k) ∧ e.target = (job.plan service).place?

/-- Calls that give their new notifications different identifiers. -/
def Job.AreDistinct {ι : Type} (jobs : ι → Job) : Prop :=
  ∀ i j id, (jobs i).call.fresh? = some id → (jobs j).call.fresh? = some id → i = j

theorem Job.areDistinct_of_ne {ι : Type} {jobs : ι → Job}
    (h : ∀ i j, i ≠ j → (jobs i).call.fresh? = (jobs j).call.fresh? → (jobs i).call.fresh? = none) :
    AreDistinct jobs := by
  intro i j id hi hj
  by_contra hij
  rw [h i j hij (hi.trans hj.symm)] at hi
  cases hi

namespace Concurrent
variable {ι : Type} [DecidableEq ι]

/-- A caller comes to another point; meanwhile some have gone inside and some events were emitted. -/
structure Leads (w w' : Concurrent ι (Posted Memory)) (i : ι) (p : Phase) (is : List ι)
    (es : List Event) : Prop where
  phase : w'.phase = Function.update w.phase i p
  entered : w'.entered = w.entered ++ is
  emitted : w'.emitted = w.emitted ++ es

namespace Leads
variable {w w' : Concurrent ι (Posted Memory)} {i : ι} {p : Phase} {is : List ι} {es : List Event}
  (h : w.Leads w' i p is es)
include h

theorem self : w'.phase i = p := by
  rw [h.phase, Function.update_self]

theorem other {j : ι} (hj : j ≠ i) : w'.phase j = w.phase j := by
  rw [h.phase, Function.update_of_ne hj]

/-- What is true of the one caller's new point, and of all other callers' old ones. -/
theorem forall_phase {P : ι → Phase → Prop} (hi : P i p) (hother : ∀ j, j ≠ i → P j (w.phase j)) :
    ∀ j, P j (w'.phase j) := by
  intro j
  by_cases hj : j = i
  · subst hj
    exact h.self.symm ▸ hi
  · exact h.other hj ▸ hother j hj

end Leads

/-- What a move does to the log, and what it does besides. -/
inductive Moved (service : Service Memory) (jobs : ι → Job) (w w' : Concurrent ι (Posted Memory))
    (log : Log) : Move ι → Log → Prop where
  | still (m : Move ι) (hphase : w'.phase = w.phase) (hentered : w'.entered = w.entered)
    (hemitted : w'.emitted = w.emitted) : Moved service jobs w w' log m log
  | pass {i : ι} {p : Phase} (h : w.Leads w' i p [] []) (hp : (w.phase i).Passes p)
    (hturn : (w.phase i).progress = 3 ∨ p.progress < 2 ∨ place service.recorded jobs i = none) :
    Moved service jobs w w' log (.caller i) log
  | enter {i : ι} {k : LockId} {locks : Locks} (hi : w.phase i = .waiting k)
    (hlocks : w.locks.acquire? k = some locks) (h : w.Leads w' i (.locked k) [i] []) :
    Moved service jobs w w' log (.caller i) log
  | change {i : ι} {a : Address} {x : Change} {k : LockId} {rest : Rest}
    (hplan : (jobs i).plan service.recorded = .inTurn a x) (hi : w.phase i = .locked k)
    (h : w.Leads w' i (.telling k rest) [] [])
    (hevents : Effect.events rest.effects = Deed.events (x.deeds a log))
    (hfit : Deed.AllFit (jobs i).now log (x.deeds a log)) :
    Moved service jobs w w' log (.caller i) (Deed.logAfter (jobs i).now log (x.deeds a log))
  | effect {i : ι} {p : Phase} {e : Option Event} (h : w.Leads w' i p [] e.toList)
    (hpending : (w.phase i).pending = e.toList ++ p.pending) (hstage : p.stage = (w.phase i).stage)
    (hbefore : (w.phase i).progress = 3) (hafter : p.progress = 3) :
    Moved service jobs w w' log (.caller i) log
  | remove {i : ι} {x : Stored} {a : Address}
    (hplan : (jobs i).plan service.recorded = .dismissal x.notification.id) (hi : w.phase i = .found)
    (hx : x ∈ log) (ha : x.notification.target = some a) {es : List Effect} {reply : Except Fault Reply}
    (h : w.Leads w' i (.doing es reply) [] [])
    (hevents : Effect.events es = [.dismissed x.notification.id (some a)]) :
    Moved service jobs w w' log (.caller i) (without (hasId x.notification.id) log)

/-- What stays true while calls are under way. -/
structure Underway [Fintype ι] (service : Service Memory) (jobs : ι → Job)
    (w : Concurrent ι (Posted Memory)) (log : Log) : Prop where
  store : w.state.store.store.Represents log
  locks : w.InStep service.recorded jobs
  callers : ∀ i, (jobs i).Fits service.recorded log (w.phase i)

section Step
variable {service : Service Memory} {jobs : ι → Job} {w : Concurrent ι (Posted Memory)} {log : Log}

/-- What is looked up is what the log has. -/
theorem access_mode (hb : service.backend = Backend.inMemory) {s : Service.State (Posted Memory)}
    (h : s.store.store.Represents log) (id : Id) :
    Service.access (service.recorded.backend.mode id) s = (.ok ((log.get id).map (·.mode)), s) := by
  unfold Service.recorded
  rw [hb, ← h.get_eq]
  rfl

theorem access_remove (hb : service.backend = Backend.inMemory) {s : Service.State (Posted Memory)}
    (h : s.store.store.Represents log) (id : Id) :
    Service.access (service.recorded.backend.remove id) s = (.ok ((log.get id).bind (·.target)),
      s.withStore (s.store.setStore (s.store.store.remove id).2)) := by
  unfold Service.recorded
  rw [hb, ← (h.remove id).1]
  rfl

/-- No move takes a caller back. -/
theorem Moved.progress_le {w' : Concurrent ι (Posted Memory)} {log' : Log} {m : Move ι}
    (h : Moved service jobs w w' log m log') :
    ∀ i, (w.phase i).progress ≤ (w'.phase i).progress := by
  have hlead {i : ι} {p : Phase} {is : List ι} {es : List Event} (hled : w.Leads w' i p is es)
      (hp : (w.phase i).progress ≤ p.progress) : ∀ i, (w.phase i).progress ≤ (w'.phase i).progress :=
    hled.forall_phase (P := fun i p => (w.phase i).progress ≤ p.progress) hp fun j _ => le_rfl
  cases h with
  | still _ hphase => exact fun i => by rw [hphase]
  | pass hled hp _ => exact hlead hled hp.forward
  | enter hi _ hled => exact hlead hled (by simp [hi, Phase.progress])
  | change _ hi hled _ _ => exact hlead hled (by simp [hi, Phase.progress])
  | effect hled _ _ hbefore hafter => exact hlead hled (by simp [hbefore, hafter])
  | remove _ hi _ _ hled _ => exact hlead hled (by simp [hi, Phase.progress])

variable (hb : service.backend = Backend.inMemory) [Fintype ι] (h : Underway service jobs w log)
include h

include hb in
/-- Every step of a caller is one of these moves. -/
theorem Underway.moved_step {i : ι} (horderly : (jobs i).IsOrderly service.recorded) :
    ∃ log', (w.step service.recorded jobs i).state.store.store.Represents log' ∧
      Moved service jobs w (w.step service.recorded jobs i) log (.caller i) log' := by
  have hpass {p q : Phase} {s : Service.State (Posted Memory)} {locks : Locks} (hphase : w.phase i = p)
      (hs : s.store = w.state.store) (hp : p.Passes q)
      (hturn : p.progress = 3 ∨ q.progress < 2 ∨ place service.recorded jobs i = none) :
      ∃ log', s.store.store.Represents log' ∧
        Moved service jobs w ({ w with state := s, locks }.goTo i q) log (.caller i) log' := by
    subst hphase
    refine ⟨log, hs ▸ h.store, .pass (i := i) (p := q) ⟨rfl, (List.append_nil _).symm, ?_⟩ hp hturn⟩
    rw [List.append_nil]
    exact Service.State.emitted_congr hs
  have hoff {q : Plan} (hplan : (jobs i).plan service.recorded = q) (hq : q.place? = none) :
      place service.recorded jobs i = none := by
    rw [place, hplan, hq]
  have heffect {p q : Phase} (e : Effect) (hphase : w.phase i = p)
      (hpending : p.pending = e.event?.toList ++ q.pending) (hstage : q.stage = p.stage)
      (hbefore : p.progress = 3) (hafter : q.progress = 3) :
      ∃ log', (e.run service.recorded (jobs i).now w.state).store.store.Represents log' ∧
        Moved service jobs w ({ w with state := e.run service.recorded (jobs i).now w.state }.goTo i q) log
          (.caller i) log' := by
    obtain ⟨hstore, hemitted⟩ := e.run_emitted hb (jobs i).now w.state
    subst hphase
    exact ⟨log, hstore ▸ h.store, .effect (i := i) (p := q) ⟨rfl, (List.append_nil _).symm, hemitted⟩ hpending
      hstage hbefore hafter⟩
  unfold Concurrent.step
  split
  · next hplan hphase =>
    exact hpass hphase rfl (.of_quiet trivial trivial (by simp [Phase.progress])) (.inr (.inr (hoff hplan rfl)))
  · next n hplan _ => exact absurd hplan (horderly n)
  · next hphase =>
    refine hpass hphase rfl (.of_quiet trivial trivial ?_) (.inr (.inl ?_)) <;> simp [Phase.progress]
  · next k hphase =>
    split
    · exact ⟨log, h.store, .still _ rfl rfl rfl⟩
    · next locks hlocks =>
      exact ⟨log, h.store, .enter hphase hlocks ⟨rfl, rfl, (List.append_nil _).symm⟩⟩
  · next a x k hplan hphase =>
    obtain ⟨rest, m, hmake, hevents, hrep, hfit⟩ := x.make_done hb hplan h.store
      ((h.callers i).unused (by simp [hphase, Phase.progress]))
    simp only [hmake]
    exact ⟨_, hrep, .change hplan hphase ⟨rfl, (List.append_nil _).symm, (List.append_nil _).symm⟩ hevents hfit⟩
  · next k e es told reply hplan hphase =>
    exact heffect e hphase (Effect.events_cons e es) rfl rfl rfl
  · next k rest hends hplan hphase =>
    have hnone : Effect.events rest.effects = [] := by
      obtain ⟨es, told, reply⟩ := rest
      cases es with
      | nil => rfl
      | cons e es => exact absurd rfl (hends e es told reply)
    exact hpass hphase rfl ⟨hnone, rfl, Phase.IsQuiet.outside trivial, by simp [Phase.progress], fun _ _ => rfl⟩ (.inl rfl)
  · next hphase => exact hpass hphase rfl (.of_quiet trivial trivial (by simp [Phase.progress])) (.inl rfl)
  · next a x rest hplan hphase =>
    refine hpass hphase ?_ (.of_quiet trivial trivial (by simp [Phase.progress])) (.inl rfl)
    cases rest.told <;> rfl
  · next id hplan hphase =>
    refine hpass hphase rfl ?_ (.inr (.inr (hoff hplan rfl)))
    split <;> exact .of_quiet trivial trivial (by simp [Phase.progress])
  · next id hplan hphase =>
    simp only [access_mode hb h.store id]
    refine hpass hphase rfl ?_ (.inr (.inr (hoff hplan rfl)))
    cases (log.get id).map (·.mode) with
    | none => exact .of_quiet trivial trivial (by simp [Phase.progress])
    | some mode =>
      simp only
      split <;> exact .of_quiet trivial trivial (by simp [Phase.progress])
  · next id hplan hphase =>
    simp only [access_remove hb h.store id]
    obtain ⟨_, hrep⟩ := h.store.remove id
    cases hf : log.find? (hasId id) with
    | none =>
      have hsame : w.state.withStore (w.state.store.setStore (w.state.store.store.remove id).2) = w.state := by
        rw [h.store.remove_none hf]
        rfl
      simp only [Log.get, hf, Option.map_none, Option.bind_none, hsame]
      exact hpass hphase rfl (.of_quiet trivial trivial (by simp [Phase.progress]))
        (.inr (.inr (hoff hplan rfl)))
    | some x =>
      obtain ⟨hx, rfl⟩ := (h.store.sound.find?_hasId x id).1 hf
      obtain ⟨a, ha, _⟩ := exists_target (h.store.sound.stored x hx)
      simp only [Log.get, hf, Option.map_some, Option.bind_some, ha]
      exact ⟨_, hrep, .remove hplan hphase hx ha ⟨rfl, (List.append_nil _).symm, (List.append_nil _).symm⟩ rfl⟩
  · next e es _ hphase => exact heffect e hphase (Effect.events_cons e es) rfl rfl rfl
  · exact ⟨log, h.store, .still _ rfl rfl rfl⟩

/-- Every move keeps every call where it may be. -/
theorem Underway.callers_moved {w' : Concurrent ι (Posted Memory)} {log' : Log}
    (hdistinct : Job.AreDistinct jobs) {m : Move ι} (hmoved : Moved service jobs w w' log m log') :
    ∀ i, (jobs i).Fits service.recorded log' (w'.phase i) := by
  have hold := h.callers
  cases hmoved with
  | still _ hphase => exact hphase ▸ hold
  | @pass i p hled hp _ =>
    refine hled.forall_phase (P := fun j p => (jobs j).Fits service.recorded log p) ⟨fun hq => ?_, ?_⟩
      fun j _ => hold j
    · exact (hold i).unused (Nat.lt_of_le_of_lt hp.forward hq)
    · simp [hp.after]
  | @enter i k locks hi _ hled =>
    refine hled.forall_phase (P := fun j p => (jobs j).Fits service.recorded log p) ⟨fun _ => ?_, ?_⟩
      fun j _ => hold j
    · exact (hold i).unused (by simp [hi, Phase.progress])
    · simp [Phase.pending]
  | @change i a x k rest hplan hi hled hevents _ =>
    refine hled.forall_phase (P := fun j p => (jobs j).Fits service.recorded _ p)
      ⟨?_, fun e he => .inr ⟨⟨k, rfl⟩, ?_⟩⟩ fun j hj => ⟨fun hp id hid hm => ?_, (hold j).spoken⟩
    · simp [Phase.progress]
    · obtain ⟨d, hd, rfl⟩ := List.mem_map.1 (hevents ▸ he : e ∈ Deed.events (x.deeds a log))
      rw [Change.target_of_mem_deeds hplan hd, hplan]
      rfl
    · rcases Deed.ids_logAfter _ _ _ id hm with hm | ⟨n, hn, rfl⟩
      · exact (hold j).unused hp id hid hm
      · exact hj (hdistinct j i n.id hid (Change.fresh?_of_post_mem hplan hn))
  | @effect i p e hled hpending hstage _ hafter =>
    refine hled.forall_phase (P := fun j p => (jobs j).Fits service.recorded log p) ⟨?_, fun e' he' => ?_⟩
      fun j _ => hold j
    · simp [hafter]
    · rw [hstage]
      exact (hold i).spoken e' (hpending ▸ List.mem_append_right _ he')
  | @remove i x a hplan _ _ _ es reply hled _ =>
    refine hled.forall_phase (P := fun j p => (jobs j).Fits service.recorded _ p)
      ⟨?_, fun e _ => .inl ⟨_, hplan⟩⟩ fun j _ => ⟨fun hp id hid hm => ?_, (hold j).spoken⟩
    · simp [Phase.progress]
    · exact (hold j).unused hp id hid (ids_without_subset _ _ hm)

omit [DecidableEq ι] h in
theorem Underway.start {s : Service.State (Posted Memory)} (h : s.store.store.Represents log)
    (hunused : ∀ i id, (jobs i).call.fresh? = some id → id ∉ log.ids) :
    Underway service jobs (start s) log :=
  ⟨h, inStep_start s, fun i => ⟨fun _ => hunused i, fun e he => by cases he⟩⟩

include hb

/-- What is true while calls are under way stays true, and every move is one of the moves. -/
theorem Underway.move (horderly : ∀ i, (jobs i).IsOrderly service.recorded)
    (hdistinct : Job.AreDistinct jobs) (m : Move ι) : ∃ log', Underway service jobs (m.run service.recorded jobs w) log' ∧
      Moved service jobs w (m.run service.recorded jobs w) log m log' := by
  cases m with
  | caller i =>
    obtain ⟨log', hstore, hmoved⟩ := h.moved_step hb (horderly i)
    exact ⟨log', ⟨hstore, h.locks.step i, h.callers_moved hdistinct hmoved⟩, hmoved⟩
  | visit v =>
    have hstore : ((Move.visit v).run service.recorded jobs w).state.store = w.state.store :=
      v.store_perform service.recorded w.state
    have hmoved : Moved service jobs w ((Move.visit v).run service.recorded jobs w) log (.visit v) log :=
      .still _ rfl rfl (Service.State.emitted_congr hstore)
    exact ⟨log, ⟨hstore ▸ h.store, h.locks, h.callers_moved hdistinct hmoved⟩, hmoved⟩

end Step

end Concurrent

end Tidings
