import Tidings.Proofs.Fanout
import Tidings.Proofs.Journal
import Tidings.Proofs.Locking
/-!
Calls at the same time. Each caller is at some point of its call, and a schedule says who takes the next
step; a step takes or gives back a lock, changes the store, or puts one event into the queues.
-/
namespace Tidings

variable {σ : Type}

/-- What a call does besides its change of the store. -/
inductive Effect where
  | remember (id : Id)
  | emit (e : Event)
  | tell (e : Event)

namespace Effect

def event? : Effect → Option Event
  | .emit e => some e
  | .remember _ | .tell _ => none

def events (es : List Effect) : List Event := es.filterMap event?

theorem events_cons (e : Effect) (es : List Effect) : events (e :: es) = e.event?.toList ++ events es := by
  cases e <;> rfl

def run (service : Service σ) (now : Instant) : Effect → Service.State σ → Service.State σ
  | .remember id, s => s.remember id
  | .emit e, s => service.emit now e s
  | .tell e, s => s.tell e

def runAll (service : Service σ) (now : Instant) (es : List Effect) (s : Service.State σ) :
    Service.State σ := es.foldl (fun s e => e.run service now s) s

end Effect

/-- The change of a call that is made while the lock of an address is held. -/
inductive Change where
  | store (n : Notification)
  | removeGroup (group : String)

/-- What is left of a call when its change is made: the effects until the lock is given back, what the hook
is told at the end, and the reply. -/
structure Rest where
  effects : List Effect
  told : Option Event
  reply : Except Fault Reply

def Change.make (service : Service σ) (now : Instant) (a : Address) (x : Change) (s : Service.State σ) :
    Rest × Service.State σ :=
  match x with
  | .store n =>
    match Service.access (service.backend.store now n) s with
    | (.error fault, s) => (⟨[], none, .error fault⟩, s)
    | (.ok replaced, s) =>
      (⟨(replaced.map fun old => .emit (.dismissed old (some a))).toList ++ [.emit (.notify n)],
        some (.notify n), .ok (.sent (some n))⟩, s)
  | .removeGroup group =>
    match Service.access (service.backend.removeGroup a group) s with
    | (.error fault, s) => (⟨[], none, .error fault⟩, s)
    | (.ok none, s) => (⟨[], none, .ok (.dismissedGroup none)⟩, s)
    | (.ok (some id), s) =>
      (⟨[.emit (.dismissed id (some a)), .tell (.dismissed id (some a))], none,
        .ok (.dismissedGroup (some id))⟩, s)

/-- The way that a call goes. -/
inductive Plan where
  | settled (reply : Except Fault Reply)
  | atOnce (n : Notification)
  /-- To make a change while the lock of an address is held. -/
  | inTurn (a : Address) (x : Change)
  | dismissal (id : Id)

def Plan.place? : Plan → Option Address
  | .inTurn a _ => some a
  | .settled _ | .atOnce _ | .dismissal _ => none

theorem Plan.of_place? {p : Plan} {a : Address} (h : p.place? = some a) : ∃ x, p = .inTurn a x := by
  cases p with
  | inTurn b x =>
    cases h
    exact ⟨x, rfl⟩
  | settled reply => cases h
  | atOnce n => cases h
  | dismissal id => cases h

/-- How a notification is sent. -/
def Service.plan (service : Service σ) (n : Notification) : Plan :=
  match problem? n with
  | some fault => .settled (.error fault)
  | none =>
    if service.hooks.beforeSend n = .suppress then .settled (.ok (.sent none))
    else
      match n.target with
      | some a => if n.mode.isPersisted then .inTurn a (.store n) else .atOnce n
      | none => .atOnce n

structure Job where
  now : Instant
  call : Call

def Job.plan (service : Service σ) (job : Job) : Plan :=
  match job.call with
  | .notify fresh target kind mode group payload =>
    if target.owner = "" then
      .settled (.error (.invalidInput (target.scope.name ++ " id must not be empty")))
    else service.plan (.create fresh job.now (some target) kind mode group payload)
  | .broadcast fresh kind group payload =>
    service.plan (.create fresh job.now none kind .ephemeral group payload)
  | .dismiss id => .dismissal id
  | .dismissGroup a group => .inTurn a (.removeGroup group)

/-- The end of a call whose change is made. -/
def Rest.finish (service : Service σ) (now : Instant) (rest : Rest) (s : Service.State σ) : Service.State σ :=
  let s := Effect.runAll service now rest.effects s
  rest.told.elim s s.tell

theorem Service.plan_inTurn {service : Service σ} {n : Notification} {a : Address} {x : Change}
    (h : service.plan n = .inTurn a x) : problem? n = none ∧ service.hooks.beforeSend n ≠ .suppress ∧
      n.target = some a ∧ n.mode.isPersisted ∧ x = .store n := by
  unfold plan at h
  split at h
  · cases h
  · next hp =>
    split at h
    · cases h
    · next hv =>
      split at h
      · next ha =>
        split at h
        · next hmode =>
          cases h
          exact ⟨hp, hv, ha, hmode, rfl⟩
        · cases h
      · cases h

/-- What a notification that is sent without a turn needs besides. -/
def Effect.sending (n : Notification) : List Effect := [.remember n.id, .emit (.notify n), .tell (.notify n)]

/-- What a call does that goes its way alone. -/
def Plan.run (service : Service σ) (now : Instant) : Plan → Service.Action σ Reply
  | .settled reply, s => (reply, s)
  | .atOnce n, s => (.ok (.sent (some n)), Effect.runAll service now (Effect.sending n) s)
  | .inTurn a x, s =>
    let (rest, s) := x.make service now a s
    (rest.reply, rest.finish service now s)
  | .dismissal id, s => (service.dismiss now id).map (fun _ => .dismissed) s

theorem Service.run_plan (service : Service σ) (now : Instant) (n : Notification) (s : Service.State σ) :
    (service.plan n).run service now s = (service.dispatch now n).map .sent s := by
  unfold plan Access.map dispatch
  cases hp : problem? n with
  | some fault => rfl
  | none =>
    simp only
    by_cases hv : service.hooks.beforeSend n = .suppress
    · rw [if_pos hv, if_pos hv]
      rfl
    · rw [if_neg hv, if_neg hv]
      unfold send
      cases ha : n.target with
      | none => rfl
      | some a =>
        by_cases hmode : n.mode.isPersisted
        · simp only [hmode, if_true, Plan.run, Change.make, sendStored]
          rcases Service.access (service.backend.store now n) s with ⟨fault | _ | old, s'⟩ <;> rfl
        · simp only [hmode, if_false, Bool.false_eq_true]
          rfl

/-- A call that goes its way alone is the call. -/
theorem Job.run_plan (service : Service σ) (job : Job) (s : Service.State σ) :
    (job.plan service).run service job.now s = job.call.answer service job.now s := by
  obtain ⟨now, call⟩ := job
  cases call with
  | notify fresh target kind mode group payload =>
    simp only [plan, Call.answer, Service.notify]
    split
    · rfl
    · exact service.run_plan now _ s
  | broadcast fresh kind group payload => exact service.run_plan now _ s
  | dismiss id => rfl
  | dismissGroup a group =>
    simp only [plan, Plan.run, Call.answer, Access.map, Service.dismissGroup, Change.make]
    rcases Service.access (service.backend.removeGroup a group) s with ⟨fault | _ | id, s'⟩ <;> rfl

theorem Job.answer_of_inTurn {service : Service σ} {job : Job} {a : Address} {x : Change}
    (h : job.plan service = .inTurn a x) (s : Service.State σ) :
    job.call.answer service job.now s =
      ((x.make service job.now a s).1.reply,
        (x.make service job.now a s).1.finish service job.now (x.make service job.now a s).2) := by
  rw [← job.run_plan, h]
  rfl

/-- Where a caller is in its call. -/
inductive Phase where
  | ready
  | waiting (k : LockId)
  | locked (k : LockId)
  | telling (k : LockId) (rest : Rest)
  | released (k : LockId) (rest : Rest)
  | leaving (rest : Rest)
  /-- The one to be dismissed is not among those that are remembered. -/
  | asked
  /-- And it is stored, and may be dismissed. -/
  | found
  | doing (es : List Effect) (reply : Except Fault Reply)

def Phase.stage : Phase → Stage
  | .waiting k => .waiting k
  | .locked k | .telling k _ => .inside k
  | .released k _ => .released k
  | .leaving _ => .leaving
  | .ready | .asked | .found | .doing _ _ => .outside

/-- A service with its callers, and those that went inside, in the order in which they did. -/
structure Concurrent (ι σ : Type) where
  state : Service.State σ
  locks : Locks
  phase : ι → Phase
  entered : List ι

/-- What those do who hold connections. -/
inductive Visit where
  | connect (now : Instant) (as : List Address)
  | unregister (c : ConnectionId)
  | drop (c : ConnectionId)
  | closeAll
  | receive (c : ConnectionId)

def Visit.step : Visit → Step
  | .connect now as => .connect now as
  | .unregister c => .unregister c
  | .drop c => .drop c
  | .closeAll => .closeAll
  | .receive c => .receive c

theorem Visit.store_perform (service : Service σ) (v : Visit) (s : Service.State σ) :
    (v.step.perform service s).store = s.store := by
  cases v <;> rfl

/-- Whether a visit leaves a connection on the register. -/
def Visit.Spares (c : ConnectionId) (v : Visit) : Prop :=
  v ≠ .unregister c ∧ v ≠ .drop c ∧ v ≠ .closeAll

theorem Change.make_does {service : Service σ} (now : Instant) (a : Address) (x : Change) (s : Service.State σ) :
    service.Does now s [] [] (x.make service now a s).2 := by
  cases x with
  | store n =>
    have hstored : service.Does now s [] [] (s.withStore (service.backend.store now n s.store).2) :=
      Service.Does.nothing.serve (.store now n s.store)
    rw [make, Service.access_eq]
    rcases (service.backend.store now n s.store).1 with fault | replaced <;> exact hstored
  | removeGroup group =>
    have hremoved : service.Does now s [] [] (s.withStore (service.backend.removeGroup a group s.store).2) :=
      Service.Does.nothing.serve (.removeGroup a group s.store)
    rw [make, Service.access_eq]
    rcases (service.backend.removeGroup a group s.store).1 with fault | _ | id <;> exact hremoved

theorem Effect.run_does (service : Service σ) (now : Instant) (e : Effect) (s : Service.State σ) :
    ∃ ids, service.Does now s e.event?.toList ids (e.run service now s) := by
  cases e with
  | remember id => exact ⟨_, Service.Does.nothing.remember id⟩
  | emit e => exact ⟨_, Service.Does.nothing.emit e⟩
  | tell e => exact ⟨_, Service.Does.nothing.tell e⟩

/-- The state with nothing taken down yet. -/
def Service.State.recorded (s : Service.State σ) : Service.State (Posted σ) :=
  ⟨⟨s.store, []⟩, s.registry, s.recent, s.told⟩

/-- The events that were taken down, in order. -/
def Service.State.emitted (s : Service.State (Posted σ)) : List Event := s.store.sent.map (·.1.event)

theorem Service.State.emitted_congr {s s' : Service.State (Posted σ)} (h : s'.store = s.store) :
    s'.emitted = s.emitted := by
  rw [emitted, emitted, h]

theorem Service.State.emitted_of_sent {s s' : Service.State (Posted σ)} {new : List (Message × Bool)}
    (h : s'.store.sent = s.store.sent ++ new) : s'.emitted = s.emitted ++ new.map (·.1.event) := by
  rw [emitted, emitted, h, List.map_append]

namespace Concurrent
variable {ι : Type}

def start (s : Service.State σ) : Concurrent ι σ := ⟨s, .empty, fun _ => .ready, []⟩

variable [DecidableEq ι]

def goTo (w : Concurrent ι σ) (i : ι) (p : Phase) : Concurrent ι σ :=
  { w with phase := Function.update w.phase i p }

@[simp] theorem phase_goTo (w : Concurrent ι σ) (i : ι) (p : Phase) : (w.goTo i p).phase i = p :=
  Function.update_self ..

variable (service : Service σ) (jobs : ι → Job)

/-- One step of a caller. Nothing happens if it has to wait or is done. -/
def step (i : ι) (w : Concurrent ι σ) : Concurrent ι σ :=
  let now := (jobs i).now
  match (jobs i).plan service, w.phase i with
  | .settled reply, .ready => w.goTo i (.doing [] reply)
  | .atOnce n, .ready =>
    w.goTo i (.doing (Effect.sending n) (.ok (.sent (some n))))
  | .inTurn a _, .ready =>
    { w with locks := (w.locks.take a).2 }.goTo i (.waiting (w.locks.take a).1)
  | .inTurn _ _, .waiting k =>
    match w.locks.acquire? k with
    | none => w
    | some locks => { w with locks, entered := w.entered ++ [i] }.goTo i (.locked k)
  | .inTurn a x, .locked k =>
    let (rest, state) := x.make service now a w.state
    { w with state }.goTo i (.telling k rest)
  | .inTurn _ _, .telling k ⟨e :: es, told, reply⟩ =>
    { w with state := e.run service now w.state }.goTo i (.telling k ⟨es, told, reply⟩)
  | .inTurn _ _, .telling k rest => { w with locks := w.locks.release k }.goTo i (.released k rest)
  | .inTurn _ _, .released k rest => { w with locks := w.locks.letGo k }.goTo i (.leaving rest)
  | .inTurn a _, .leaving rest =>
    { w with locks := w.locks.tidy a, state := rest.told.elim w.state w.state.tell }.goTo i
      (.doing [] rest.reply)
  | .dismissal id, .ready =>
    w.goTo i (if w.state.recent.contains id then .doing [] (.error .notDismissible) else .asked)
  | .dismissal id, .asked =>
    let (mode, state) := Service.access (service.backend.mode id) w.state
    { w with state }.goTo i <| match mode with
      | .error fault => .doing [] (.error fault)
      | .ok none => .doing [] (.error (.notFound "notification"))
      | .ok (some mode) => if mode.isDismissible then .found else .doing [] (.error .notDismissible)
  | .dismissal id, .found =>
    let (removed, state) := Service.access (service.backend.remove id) w.state
    { w with state }.goTo i <| match removed with
      | .error fault => .doing [] (.error fault)
      | .ok none => .doing [] (.error (.notFound "notification"))
      | .ok (some a) =>
        .doing [.emit (.dismissed id (some a)), .tell (.dismissed id (some a))] (.ok .dismissed)
  | _, .doing (e :: es) reply => { w with state := e.run service now w.state }.goTo i (.doing es reply)
  | _, _ => w

inductive Move (ι : Type) where
  | caller (i : ι)
  | visit (v : Visit)

def Move.run (m : Move ι) (w : Concurrent ι σ) : Concurrent ι σ :=
  match m with
  | .caller i => w.step service jobs i
  | .visit v => { w with state := v.step.perform service w.state }

def runAll (ms : List (Move ι)) (w : Concurrent ι σ) : Concurrent ι σ :=
  ms.foldl (fun w m => m.run service jobs w) w

/-- What is read off a connection during a schedule, in order. -/
def readings (c : ConnectionId) : List (Move ι) → Concurrent ι σ → List (Received Event)
  | [], _ => []
  | .visit v :: ms, w => (v.step.reading? c w.state.registry).toList ++
    readings c ms ((Move.visit v).run service jobs w)
  | .caller i :: ms, w => readings c ms ((Move.caller i).run service jobs w)

/-- Where each caller takes its turn, if it has to. -/
def place (i : ι) : Option Address := ((jobs i).plan service).place?

/-- Whether a caller holds the lock of an address. -/
def IsInside (w : Concurrent ι σ) (a : Address) (i : ι) : Prop :=
  place service jobs i = some a ∧ ∃ k, (w.phase i).stage = .inside k

/-- Locks and callers are in step. -/
def InStep [Fintype ι] (w : Concurrent ι σ) : Prop :=
  w.locks.Kept (place service jobs) fun i => (w.phase i).stage

section Locking
variable {service : Service σ} {jobs : ι → Job} {w : Concurrent ι σ}

omit [DecidableEq ι] in
theorem inStep_start [Fintype ι] (s : Service.State σ) : (start s : Concurrent ι σ).InStep service jobs :=
  Locks.Kept.initial _

theorem stage_goTo (w : Concurrent ι σ) (i : ι) (p : Phase) :
    (fun j => ((w.goTo i p).phase j).stage) = Function.update (fun j => (w.phase j).stage) i p.stage := by
  funext j
  by_cases hj : j = i
  · subst hj
    simp [goTo]
  · simp [goTo, hj]

omit [DecidableEq ι] in
theorem place_of_plan {i : ι} {a : Address} {x : Change} (h : (jobs i).plan service = .inTurn a x) :
    place service jobs i = some a := by
  rw [place, h]
  rfl

variable [Fintype ι]

/-- A caller that comes to another point of the same stage does not matter to the locks. -/
theorem InStep.goTo_same (h : w.InStep service jobs) {i : ι} {p : Phase} (hp : p.stage = (w.phase i).stage) :
    (w.goTo i p).InStep service jobs := by
  have hstage : (fun j => ((w.goTo i p).phase j).stage) = fun j => (w.phase j).stage := by
    rw [stage_goTo, hp]
    exact Function.update_eq_self i fun j => (w.phase j).stage
  unfold InStep
  rw [hstage]
  exact h

theorem InStep.goTo (w : Concurrent ι σ) {i : ι} {p : Phase}
    (h : w.locks.Kept (place service jobs) (Function.update (fun j => (w.phase j).stage) i p.stage)) :
    (w.goTo i p).InStep service jobs := by
  unfold InStep
  rw [stage_goTo]
  exact h

/-- Every step of a caller keeps locks and callers in step. -/
theorem InStep.step (h : w.InStep service jobs) (i : ι) : (w.step service jobs i).InStep service jobs := by
  have hstage {p : Phase} (hphase : w.phase i = p) : (w.phase i).stage = p.stage := congrArg _ hphase
  have hsame {s : Service.State σ} {p q : Phase} (hphase : w.phase i = p) (hq : q.stage = p.stage) :
      ({ w with state := s }.goTo i q).InStep service jobs := by
    have hi : q.stage = (w.phase i).stage := hq.trans (hstage hphase).symm
    have hstate : { w with state := s }.InStep service jobs := h
    exact hstate.goTo_same hi
  unfold Concurrent.step
  split
  · next hphase => exact hsame hphase rfl
  · next hphase => exact hsame hphase rfl
  · next hplan hphase => exact InStep.goTo _ (Locks.Kept.take h (hstage hphase) (place_of_plan hplan))
  · next k hphase =>
    split
    · exact h
    · next locks hlocks => exact InStep.goTo _ (Locks.Kept.acquire h (hstage hphase) hlocks)
  · next hphase => exact hsame hphase rfl
  · next hphase => exact hsame hphase rfl
  · next hphase => exact InStep.goTo _ (Locks.Kept.release h (hstage hphase))
  · next hphase => exact InStep.goTo _ (Locks.Kept.letGo h (hstage hphase))
  · next hplan hphase => exact InStep.goTo _ (Locks.Kept.tidy h (hstage hphase) (place_of_plan hplan))
  · next hphase =>
    refine hsame hphase ?_
    split <;> rfl
  · next hphase =>
    refine hsame hphase ?_
    split
    · rfl
    · rfl
    · split <;> rfl
  · next hphase =>
    refine hsame hphase ?_
    split <;> rfl
  · next hphase => exact hsame hphase rfl
  · exact h

end Locking

section Alone
variable (service : Service σ) (jobs : ι → Job) (i : ι)

/-- A caller that takes some steps alone comes to a point of its call. -/
def Comes (w : Concurrent ι σ) (s : Service.State σ) (p : Phase) : Prop :=
  ∃ n, (runAll service jobs (List.replicate n (.caller i)) w).state = s ∧
    (runAll service jobs (List.replicate n (.caller i)) w).phase i = p

variable {service jobs i} {w w' : Concurrent ι σ} {s : Service.State σ} {p : Phase}

theorem Comes.here (hstate : w.state = s) (hphase : w.phase i = p) : w.Comes service jobs i s p :=
  ⟨0, hstate, hphase⟩

theorem Comes.step (hstep : w.step service jobs i = w') (h : w'.Comes service jobs i s p) :
    w.Comes service jobs i s p := by
  obtain ⟨n, h⟩ := h
  refine ⟨n + 1, ?_⟩
  rw [List.replicate_succ]
  subst hstep
  exact h

theorem comes_doing {es : List Effect} {reply : Except Fault Reply} (h : w.phase i = .doing es reply) :
    w.Comes service jobs i (Effect.runAll service (jobs i).now es w.state) (.doing [] reply) := by
  induction es generalizing w with
  | nil => exact .here rfl h
  | cons e es ih =>
    have hstep : w.step service jobs i =
        { w with state := e.run service (jobs i).now w.state }.goTo i (.doing es reply) := by
      unfold Concurrent.step
      rw [h]
      cases (jobs i).plan service <;> rfl
    exact .step hstep (ih (phase_goTo _ i _))

section Turn
variable {a : Address} {x : Change} (hplan : (jobs i).plan service = .inTurn a x) {rest : Rest}
include hplan

theorem comes_leaving (h : w.phase i = .leaving rest) :
    w.Comes service jobs i (rest.told.elim w.state w.state.tell) (.doing [] rest.reply) := by
  have hstep : w.step service jobs i = { w with
      locks := w.locks.tidy a
      state := rest.told.elim w.state w.state.tell }.goTo i (.doing [] rest.reply) := by
    simp only [Concurrent.step, hplan, h]
  exact .step hstep (.here rfl (phase_goTo _ i _))

theorem comes_released {k : LockId} (h : w.phase i = .released k rest) :
    w.Comes service jobs i (rest.told.elim w.state w.state.tell) (.doing [] rest.reply) := by
  have hstep : w.step service jobs i = { w with locks := w.locks.letGo k }.goTo i (.leaving rest) := by
    simp only [Concurrent.step, hplan, h]
  exact .step hstep (comes_leaving hplan (phase_goTo _ i _))

theorem comes_telling {k : LockId} (h : w.phase i = .telling k rest) :
    w.Comes service jobs i (rest.finish service (jobs i).now w.state) (.doing [] rest.reply) := by
  obtain ⟨es, told, reply⟩ := rest
  induction es generalizing w with
  | nil =>
    have hstep : w.step service jobs i =
        { w with locks := w.locks.release k }.goTo i (.released k ⟨[], told, reply⟩) := by
      simp only [Concurrent.step, hplan, h]
    exact .step hstep (comes_released hplan (phase_goTo _ i _))
  | cons e es ih =>
    have hstep : w.step service jobs i =
        { w with state := e.run service (jobs i).now w.state }.goTo i (.telling k ⟨es, told, reply⟩) := by
      simp only [Concurrent.step, hplan, h]
    exact .step hstep (ih (phase_goTo _ i _))

theorem comes_locked {k : LockId} (h : w.phase i = .locked k)
    (hmake : x.make service (jobs i).now a w.state = (rest, s)) :
    w.Comes service jobs i (rest.finish service (jobs i).now s) (.doing [] rest.reply) := by
  have hstep : w.step service jobs i = { w with state := s }.goTo i (.telling k rest) := by
    simp only [Concurrent.step, hplan, h, hmake]
  exact .step hstep (comes_telling hplan (phase_goTo _ i _))

/-- Nobody holds a lock at the start. -/
theorem comes_inTurn {s' : Service.State σ} (hmake : x.make service (jobs i).now a s = (rest, s')) :
    (start s).Comes service jobs i (rest.finish service (jobs i).now s') (.doing [] rest.reply) := by
  let first : Concurrent ι σ := { start s with locks := (Locks.empty.take a).2 }.goTo i (.waiting 0)
  have htake : (start s).step service jobs i = first := by
    simp only [Concurrent.step, hplan, start]
    rfl
  obtain ⟨locks, hlocks⟩ : ∃ locks, first.locks.acquire? 0 = some locks := ⟨_, rfl⟩
  have hacquire : first.step service jobs i =
      { first with locks, entered := first.entered ++ [i] }.goTo i (.locked 0) := by
    have hwaiting : first.phase i = .waiting 0 := phase_goTo _ i _
    simp only [Concurrent.step, hplan, hwaiting, hlocks]
  exact .step htake (.step hacquire (comes_locked hplan (phase_goTo _ i _) hmake))

end Turn

section Dismissal
variable {id : Id} (hplan : (jobs i).plan service = .dismissal id)
include hplan

/-- The second half of a dismissal, when the notification may be dismissed. -/
theorem comes_found (h : w.phase i = .found) {r : Except Fault Unit × Service.State σ}
    (hr : r = match Service.access (service.backend.remove id) w.state with
      | (.error fault, s) => (.error fault, s)
      | (.ok none, s) => (.error (.notFound "notification"), s)
      | (.ok (some a), s) => (.ok (), service.emitDismissed (jobs i).now id a s)) :
    w.Comes service jobs i r.2 (.doing [] (r.1.map fun _ => .dismissed)) := by
  subst hr
  rcases hremoved : Service.access (service.backend.remove id) w.state with ⟨fault | _ | a, s⟩
  · have hstep : w.step service jobs i = { w with state := s }.goTo i (.doing [] (.error fault)) := by
      simp only [Concurrent.step, hplan, h, hremoved]
    exact .step hstep (.here rfl (phase_goTo _ i _))
  · have hstep : w.step service jobs i =
        { w with state := s }.goTo i (.doing [] (.error (.notFound "notification"))) := by
      simp only [Concurrent.step, hplan, h, hremoved]
    exact .step hstep (.here rfl (phase_goTo _ i _))
  · have hstep : w.step service jobs i = { w with state := s }.goTo i
        (.doing [.emit (.dismissed id (some a)), .tell (.dismissed id (some a))] (.ok .dismissed)) := by
      simp only [Concurrent.step, hplan, h, hremoved]
    exact .step hstep (comes_doing (phase_goTo _ i _))

theorem comes_dismissal (s : Service.State σ) :
    (start s).Comes service jobs i (service.dismiss (jobs i).now id s).2
      (.doing [] ((service.dismiss (jobs i).now id s).1.map fun _ => .dismissed)) := by
  have hready : (start s : Concurrent ι σ).phase i = .ready := rfl
  unfold Service.dismiss
  by_cases hrecent : s.recent.contains id
  · have hstep : (start s).step service jobs i = (start s).goTo i (.doing [] (.error .notDismissible)) := by
      simp only [Concurrent.step, hplan, hready]
      exact congrArg _ (if_pos hrecent)
    rw [if_pos hrecent]
    exact .step hstep (.here rfl (phase_goTo _ i _))
  · have hstep : (start s).step service jobs i = (start s).goTo i .asked := by
      simp only [Concurrent.step, hplan, hready]
      exact congrArg _ (if_neg hrecent)
    have hasked : ((start s).goTo i .asked).phase i = .asked := phase_goTo _ i _
    have hstate : ((start s).goTo i .asked).state = s := rfl
    rw [if_neg hrecent]
    refine .step hstep ?_
    rcases hmode : Service.access (service.backend.mode id) s with ⟨fault | _ | mode, s'⟩
    · have hstep : ((start s).goTo i .asked).step service jobs i =
          { (start s).goTo i .asked with state := s' }.goTo i (.doing [] (.error fault)) := by
        simp only [Concurrent.step, hplan, hasked, hstate, hmode]
      exact .step hstep (.here rfl (phase_goTo _ i _))
    · have hstep : ((start s).goTo i .asked).step service jobs i =
          { (start s).goTo i .asked with state := s' }.goTo i (.doing [] (.error (.notFound "notification"))) := by
        simp only [Concurrent.step, hplan, hasked, hstate, hmode]
      exact .step hstep (.here rfl (phase_goTo _ i _))
    · by_cases hd : mode.isDismissible
      · have hstep : ((start s).goTo i .asked).step service jobs i =
            { (start s).goTo i .asked with state := s' }.goTo i .found := by
          simp only [Concurrent.step, hplan, hasked, hstate, hmode, if_pos hd]
        simp only [if_pos hd]
        exact .step hstep (comes_found hplan (phase_goTo _ i _) rfl)
      · have hstep : ((start s).goTo i .asked).step service jobs i =
            { (start s).goTo i .asked with state := s' }.goTo i (.doing [] (.error .notDismissible)) := by
          simp only [Concurrent.step, hplan, hasked, hstate, hmode, if_neg hd]
        simp only [if_neg hd]
        exact .step hstep (.here rfl (phase_goTo _ i _))

end Dismissal

/-- A caller that nobody gets in the way of does what its call does. -/
theorem comes_alone (service : Service σ) (jobs : ι → Job) (i : ι) (s : Service.State σ) :
    (start s).Comes service jobs i ((jobs i).call.answer service (jobs i).now s).2
      (.doing [] ((jobs i).call.answer service (jobs i).now s).1) := by
  rw [← Job.run_plan]
  cases hplan : (jobs i).plan service with
  | settled reply =>
    have hstep : (start s).step service jobs i = (start s).goTo i (.doing [] reply) := by
      simp only [Concurrent.step, hplan, start]
    exact .step hstep (.here rfl (phase_goTo _ i _))
  | atOnce n =>
    have hstep : (start s).step service jobs i =
        (start s).goTo i (.doing (Effect.sending n) (.ok (.sent (some n)))) := by
      simp only [Concurrent.step, hplan, start]
    exact .step hstep (comes_doing (phase_goTo _ i _))
  | inTurn a x => exact comes_inTurn hplan rfl
  | dismissal id => exact comes_dismissal hplan s

end Alone

section Effects
variable (service : Service σ) (jobs : ι → Job)

/-- A step of a caller has no effects but those that calls have. -/
theorem step_does (w : Concurrent ι σ) (i : ι) :
    ∃ es ids, service.Does (jobs i).now w.state es ids (w.step service jobs i).state := by
  have hnothing : ∃ es ids, service.Does (jobs i).now w.state es ids w.state := ⟨_, _, .nothing⟩
  have heffect (e : Effect) : ∃ es ids, service.Does (jobs i).now w.state es ids
      (e.run service (jobs i).now w.state) := ⟨_, e.run_does service _ _⟩
  unfold Concurrent.step
  split
  · exact hnothing
  · exact hnothing
  · exact hnothing
  · split <;> exact hnothing
  · exact ⟨_, _, Change.make_does ..⟩
  · exact heffect _
  · exact hnothing
  · exact hnothing
  · next rest _ _ =>
    rcases htold : rest.told with _ | e
    · simpa [goTo] using hnothing
    · exact ⟨_, _, Service.Does.nothing.tell e⟩
  · exact hnothing
  · exact ⟨_, _, Service.Does.nothing.serve (.mode _ w.state.store)⟩
  · exact ⟨_, _, Service.Does.nothing.serve (.remove _ w.state.store)⟩
  · exact heffect _
  · exact hnothing

end Effects

section Recorded
variable (service : Service σ) (jobs : ι → Job)

def emitted (w : Concurrent ι (Posted σ)) : List Event := w.state.emitted

/-- What a connection has to do with the events that are emitted in a move. -/
theorem holding_move {w : Concurrent ι (Posted σ)} {c : ConnectionId} {scopes : List Address}
    {readings : List (Received Event)} {heard : List Event} (m : Move ι)
    (hm : ∀ v, m = .visit v → v.Spares c) (h : w.state.registry.Holding c (some scopes) readings heard) :
    ∃ new, (m.run service.recorded jobs w).emitted = w.emitted ++ new ∧
      (m.run service.recorded jobs w).state.registry.Holding c (some scopes)
        (readings ++ Concurrent.readings service.recorded jobs c [m] w)
        (heard ++ new.filter (isFor scopes)) := by
  cases m with
  | caller i =>
    obtain ⟨es, ids, hdoes⟩ := step_does service.recorded jobs w i
    obtain ⟨new, hsent, _, hnew⟩ := hdoes.sent
    refine ⟨es, ?_, ?_⟩
    · rw [← hnew]
      exact Service.State.emitted_of_sent hsent
    · have hregistry : ((Move.caller i).run service.recorded jobs w).state.registry = _ := hdoes.registry
      rw [hregistry]
      simpa [Concurrent.readings] using h.deliverAll (jobs i).now es
  | visit v =>
    obtain ⟨hunregister, hdrop, hclose⟩ := hm v rfl
    obtain ⟨new, hsent, _, _, hholding⟩ := v.step.perform_recorded service w.state
    have hscopes : v.step.scopesAfter c (some scopes) = some scopes := by
      cases v with
      | unregister d => exact if_neg fun hd => hunregister (by rw [hd])
      | closeAll => exact absurd rfl hclose
      | connect now as => rfl
      | drop d => rfl
      | receive d => rfl
    have hkeeps : v.step ≠ .drop c := by
      cases v with
      | drop d => exact fun heq => hdrop (by cases heq; rfl)
      | _ => exact fun heq => by cases heq
    have hemitted : ((Move.visit v).run service.recorded jobs w).emitted = w.emitted ++ new.map (·.1.event) :=
      Service.State.emitted_of_sent hsent
    refine ⟨new.map (·.1.event), hemitted, ?_⟩
    have hafter := hholding hkeeps h
    have hrun : ((Move.visit v).run service.recorded jobs w).state =
      v.step.perform service.recorded w.state := rfl
    rw [hscopes] at hafter
    rw [hrun]
    simpa [Concurrent.readings] using hafter

/-- As long as nothing is lost, a connection that stays on the register reads what is emitted for it. -/
theorem holding_runAll {c : ConnectionId} {scopes : List Address} (ms : List (Move ι))
    (hms : ∀ v, .visit v ∈ ms → v.Spares c) {w : Concurrent ι (Posted σ)}
    {readings : List (Received Event)} {heard : List Event}
    (h : w.state.registry.Holding c (some scopes) readings heard) :
    ∃ new, (runAll service.recorded jobs ms w).emitted = w.emitted ++ new ∧
      (runAll service.recorded jobs ms w).state.registry.Holding c (some scopes)
        (readings ++ Concurrent.readings service.recorded jobs c ms w)
        (heard ++ new.filter (isFor scopes)) := by
  induction ms generalizing w readings heard with
  | nil =>
    refine ⟨[], (List.append_nil _).symm, ?_⟩
    simpa [Concurrent.readings, runAll] using h
  | cons m ms ih =>
    obtain ⟨new, hnew, hmove⟩ := holding_move service jobs m
      (fun v hv => hms v (by rw [hv]; exact List.mem_cons_self)) h
    obtain ⟨more, hmore, hrest⟩ := ih (fun v hv => hms v (List.mem_cons_of_mem m hv)) hmove
    have hreadings : Concurrent.readings service.recorded jobs c (m :: ms) w =
        Concurrent.readings service.recorded jobs c [m] w ++
          Concurrent.readings service.recorded jobs c ms (m.run service.recorded jobs w) := by
      cases m <;> simp [Concurrent.readings]
    refine ⟨new ++ more, ?_, ?_⟩
    · rw [← List.append_assoc, ← hnew]
      exact hmore
    · rw [hreadings, List.filter_append, ← List.append_assoc, ← List.append_assoc]
      exact hrest

end Recorded

end Concurrent

/-- Calls one at a time. -/
def Job.runAll {ι : Type} (service : Service σ) (jobs : ι → Job) (is : List ι) (s : Service.State σ) :
    Service.State σ := is.foldl (fun s i => (jobs i).call.perform service (jobs i).now s) s

theorem Job.holding_runAll {ι : Type} (service : Service σ) (jobs : ι → Job) (is : List ι)
    {s : Service.State (Posted σ)} {c : ConnectionId} {scopes : List Address} {readings : List (Received Event)}
    {heard : List Event} (h : s.registry.Holding c (some scopes) readings heard) :
    ∃ new, (runAll service.recorded jobs is s).emitted = s.emitted ++ new ∧
      (runAll service.recorded jobs is s).registry.Holding c (some scopes) readings
        (heard ++ new.filter (isFor scopes)) := by
  induction is generalizing s heard with
  | nil =>
    refine ⟨[], (List.append_nil _).symm, ?_⟩
    simpa [runAll] using h
  | cons i is ih =>
    obtain ⟨new, hsent, _, _, hholding⟩ := (Step.call (jobs i).now (jobs i).call).perform_recorded service s
    have hone : ((jobs i).call.perform service.recorded (jobs i).now s).registry.Holding c (some scopes) readings
        (heard ++ (new.map (·.1.event)).filter (isFor scopes)) := by
      simpa [Step.perform, Step.scopesAfter, Step.reading?] using hholding (fun heq => by cases heq) h
    obtain ⟨more, hmore, hrest⟩ := ih hone
    refine ⟨new.map (·.1.event) ++ more, ?_, ?_⟩
    · rw [← List.append_assoc, ← Service.State.emitted_of_sent hsent]
      exact hmore
    · rw [List.filter_append, ← List.append_assoc]
      exact hrest

end Tidings
