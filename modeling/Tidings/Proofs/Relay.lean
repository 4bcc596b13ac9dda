import Tidings.Proofs.Convergence
import Tidings.Proofs.Unread
/-!
What a stream relays. After the replay and the end of it come the entries of the queue in their order, but the
first notice of whatever was replayed; the stream ends as soon as its queue says that it is closed.
-/
namespace Tidings.Stream

/-- Whether a stream leaves out an event after others: the first notice of what was replayed. -/
def leavesOut (replayed : List Id) (before : List Event) : Event → Bool
  | .notify n => n.id ∈ replayed && before.all fun
    | .notify m => m.id ≠ n.id
    | .dismissed _ _ => true
  | .dismissed _ _ => false

/-- What a stream makes of the results of its channel, after some events, until the channel is closed. -/
def relay (replayed : List Id) : List Event → List (Received Event) → List Step
  | _, [] => []
  | before, .item e :: rest =>
    (if leavesOut replayed before e then .silent else .frame (.message e)) ::
      relay replayed (before ++ [e]) rest
  | before, .lagged _ :: rest => .silent :: relay replayed before rest
  | _, .closed :: _ => [.ended]
  | before, .nothing :: rest => .waiting :: relay replayed before rest

/-- The steps of a stream that finds its queue in one state after the other, until it ends. -/
def steps (t : Stream) : List (Queue Event) → List Step
  | [] => []
  | q :: qs =>
    match t.step q with
    | (.ended, _, _) => [.ended]
    | (x, t, _) => x :: t.steps qs

/-- The results of the channel of a stream that finds its queue in some states. -/
def results (qs : List (Queue Event)) : List (Received Event) := qs.map fun q => q.receive.1

theorem length_relay_le (replayed : List Id) (before : List Event) (xs : List (Received Event)) :
    (relay replayed before xs).length ≤ xs.length := by
  induction xs generalizing before with
  | nil => exact Nat.le_refl _
  | cons x xs ih =>
    cases x with
    | closed => exact Nat.succ_le_succ (Nat.zero_le _)
    | item e => exact Nat.succ_le_succ (ih _)
    | lagged n => exact Nat.succ_le_succ (ih _)
    | nothing => exact Nat.succ_le_succ (ih _)

theorem leavesOut_append_notify (replayed : List Id) (before : List Event) (m n : Notification) :
    leavesOut replayed (before ++ [.notify m]) (.notify n) =
      (leavesOut replayed before (.notify n) && m.id ≠ n.id) := by
  simp [leavesOut, Bool.and_assoc]

/-- The identifiers of which the first notice is still to come, after some events. -/
def Awaits (t : Stream) (replayed : List Id) (before : List Event) : Prop :=
  ∀ n : Notification, leavesOut replayed before (.notify n) = decide (n.id ∈ t.shown)

theorem awaits_start (t : Stream) : t.Awaits t.shown [] := by
  intro n
  simp [leavesOut]

namespace Awaits
variable {t : Stream} {replayed : List Id} {before : List Event} (h : t.Awaits replayed before)
include h

theorem dismissed (id : Id) (target : Option Address) :
    t.Awaits replayed (before ++ [.dismissed id target]) := by
  intro n
  rw [← h n]
  simp [leavesOut]

theorem notify_of_not_mem {m : Notification} (hm : m.id ∉ t.shown) :
    t.Awaits replayed (before ++ [.notify m]) := by
  intro n
  rw [leavesOut_append_notify, h n]
  by_cases hid : m.id = n.id
  · simp [← hid, hm]
  · simp [hid]

theorem notify_of_mem (m : Notification) :
    Awaits { t with shown := t.shown.filter (· ≠ m.id) } replayed (before ++ [.notify m]) := by
  intro n
  rw [leavesOut_append_notify, h n]
  by_cases hid : m.id = n.id
  · simp [hid]
  · simp [hid, Ne.symm hid]

end Awaits

/-- After the end of the replay. -/
theorem steps_of_synced {t : Stream} (hr : t.replay = []) (hs : t.synced) {replayed : List Id}
    {before : List Event} (h : t.Awaits replayed before) (qs : List (Queue Event)) :
    t.steps qs = relay replayed before (results qs) := by
  induction qs generalizing t before with
  | nil => rfl
  | cons q qs ih =>
    rw [steps, step_of_synced hr hs, results, List.map_cons]
    rcases q.receive with ⟨x, q'⟩
    cases x with
    | item e =>
      cases e with
      | dismissed id target =>
        exact congrArg (_ :: ·) (ih hr hs (h.dismissed id target))
      | notify n =>
        by_cases hn : n.id ∈ t.shown
        · simp only [if_pos hn, relay, h n, decide_eq_true hn, if_true]
          exact congrArg (_ :: ·) (ih (t := { t with shown := t.shown.filter (· ≠ n.id) }) hr hs (h.notify_of_mem n))
        · simp only [if_neg hn, relay, h n, decide_eq_false hn]
          exact congrArg (_ :: ·) (ih hr hs (h.notify_of_not_mem hn))
    | lagged n => exact congrArg (_ :: ·) (ih hr hs h)
    | closed => rfl
    | nothing => exact congrArg (_ :: ·) (ih hr hs h)

/-- The steps of a stream that has not come to the end of its replay. -/
theorem steps_eq {t : Stream} (hs : t.synced = false) (qs : List (Queue Event)) :
    t.steps qs = ((notices t.replay ++ [Frame.sync]).map Step.frame ++
      relay t.shown [] (results (qs.drop (t.replay.length + 1)))).take qs.length := by
  induction qs generalizing t with
  | nil => rfl
  | cons q qs ih =>
    cases hr : t.replay with
    | cons n rest =>
      have hstep : t.step q = (.frame (.message (.notify n)), { t with replay := rest }, q) := by
        simp [step, hr]
      rw [steps, hstep]
      exact congrArg (_ :: ·) (ih (t := { t with replay := rest }) hs)
    | nil =>
      have hstep : t.step q = (.frame .sync, { t with synced := true }, q) := by
        simp [step, hr, hs]
      have hrest := steps_of_synced (t := { t with synced := true }) hr rfl (awaits_start t) qs
      have hlength : (relay t.shown [] (results qs)).length ≤ qs.length := by
        simpa [results] using length_relay_le t.shown [] (results qs)
      rw [steps, hstep]
      exact congrArg (_ :: ·) (hrest.trans (List.take_of_length_le hlength).symm)

section All

/-- The frames among some steps. -/
def framesOf (xs : List Step) : List Frame := xs.flatMap Step.frames

theorem live_eq {t : Stream} {replayed : List Id} {before : List Event} (h : t.Awaits replayed before)
    (items : List Event) : live t.shown items = framesOf (relay replayed before (items.map .item)) := by
  induction items generalizing t before with
  | nil => rfl
  | cons e rest ih =>
    cases e with
    | dismissed id target => exact congrArg (_ :: ·) (ih (h.dismissed id target))
    | notify n =>
      by_cases hn : n.id ∈ t.shown
      · simp only [live, if_pos hn, List.map_cons, relay, h n, decide_eq_true hn, if_true]
        exact ih (h.notify_of_mem n)
      · simp only [live, if_neg hn, List.map_cons, relay, h n, decide_eq_false hn]
        exact congrArg (_ :: ·) (ih (h.notify_of_not_mem hn))

theorem framesOf_relay_report (replayed : List Id) (q : Queue Event) :
    framesOf (relay replayed [] q.report) = framesOf (relay replayed [] (q.items.map .item)) := by
  unfold Queue.report
  split <;> rfl

theorem step_closed (t : Stream) (q : Queue Event) : (t.step q).2.2.closed = q.closed ∧
    ((t.step q).1 = .ended → q.closed = true) ∧ ((t.step q).1 = .waiting → q.closed = false) := by
  cases hr : t.replay with
  | cons n rest => simp [step, hr]
  | nil =>
    by_cases hs : t.synced
    · obtain ⟨hends, hwaits⟩ := q.closed_of_receive
      have hreceived := q.closed_receive
      rw [step_of_synced hr hs]
      rcases hq : q.receive with ⟨x, q'⟩
      rw [hq] at hends hwaits hreceived
      have hclosed : q'.closed = q.closed := hreceived
      cases x with
      | item e =>
        cases e with
        | dismissed id target => simp [hclosed]
        | notify n => by_cases hn : n.id ∈ t.shown <;> simp [hn, hclosed]
      | lagged n => simp [hclosed]
      | closed => simpa [hclosed] using hends rfl
      | nothing => simpa [hclosed] using hwaits rfl
    · simp [step, hr, hs]

/-- With steps and frames to spare a stream comes to its end just when its queue is closed. -/
theorem readSteps_ended {steps limit : Nat} {t : Stream} {q : Queue Event} (hsteps : t.todo q < steps)
    (hlimit : t.todo q < limit) : (readSteps steps limit t q).1.2 = q.closed := by
  induction steps generalizing limit t q with
  | zero => omega
  | succ steps ih =>
    obtain ⟨limit, rfl⟩ : ∃ n, limit = n + 1 := ⟨limit - 1, by omega⟩
    obtain ⟨hclosed, hends, hwaits⟩ := step_closed t q
    obtain ⟨_, hless⟩ := step_advances t q
    rcases hstep : t.step q with ⟨x, t', q'⟩
    rw [hstep] at hclosed hends hwaits hless
    simp only [readSteps, hstep]
    cases x with
    | frame f =>
      have hless : t'.todo q' < t.todo q := by simpa using hless
      exact (ih (by omega) (by omega)).trans hclosed
    | silent =>
      have hless : t'.todo q' < t.todo q := by simpa using hless
      exact (ih (by omega) (by omega)).trans hclosed
    | waiting => exact (hwaits rfl).symm
    | ended => exact (hends rfl).symm

/-- Reading without a limit. -/
theorem read_none {t : Stream} (hs : t.synced = false) {r : Registry} {q : Queue Event}
    (hq : r.queues.get? t.connection = some q) : (t.read none r).1 =
      (notices t.replay ++ .sync :: framesOf (relay t.shown [] q.report), q.closed) := by
  obtain ⟨result, t', q', hread, hpassed, hall⟩ := read_passed hq none
  have hframes : result.1 = t.ahead q.items := by
    rw [hpassed.ahead, hall rfl, List.append_nil]
  have hended : result.2 = q.closed := by
    have hroom : t.todo q < t.backlog q := by
      unfold todo backlog
      split <;> omega
    have hmost : (t.read none r).1 = (readSteps (t.backlog q) (t.backlog q) t q).1 := by
      simp only [read, hq, Option.getD_some, Option.getD_none]
    rw [hread] at hmost
    exact (congrArg Prod.snd hmost).trans (readSteps_ended hroom hroom)
  rw [hread, framesOf_relay_report, ← live_eq (awaits_start t) q.items, ← hended]
  refine Prod.ext (hframes.trans ?_) rfl
  simp [ahead, hs]

end All

end Tidings.Stream
