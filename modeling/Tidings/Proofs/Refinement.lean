import Tidings.Backend.InMemory
import Tidings.Proofs.Representation
/-!
The backend without a database answers like its log, whatever it is asked and in whatever order.
-/
namespace Tidings.Log

/-- What a store can be asked. -/
inductive Request where
  | store (now : Instant) (n : Notification)
  | remove (id : Id)
  | removeGroup (a : Address) (group : String)
  | get (id : Id)
  | mode (id : Id)
  | queued (a : Address)
  | since (a : Address) (t : Instant)
  | purge (queuedBefore timeseriesBefore : Instant)
  | size

inductive Answer where
  | id (id : Option Id)
  | address (a : Option Address)
  | notification (n : Option Notification)
  | mode (mode : Option Mode)
  | notifications (ns : List Notification)
  | count (n : Nat)

namespace Request

/-- Asks the backend. -/
def ask : Request → Access Memory Answer
  | .store now n => do return .id (← Backend.inMemory.store now n)
  | .remove id => do return .address (← Backend.inMemory.remove id)
  | .removeGroup a group => do return .id (← Backend.inMemory.removeGroup a group)
  | .get id => do return .notification (← Backend.inMemory.get id)
  | .mode id => do return .mode (← Backend.inMemory.mode id)
  | .queued a => do return .notifications (← Backend.inMemory.queued a)
  | .since a t => do return .notifications (← Backend.inMemory.since a t)
  | .purge q t => do return .count (← Backend.inMemory.purge q t)
  | .size => fun m => (.ok (.count m.size), m)

/-- What a log says, and what becomes of it. -/
def answer : Request → Log → Answer × Log
  | .store now n, log => (.id (log.store now n).1, (log.store now n).2)
  | .remove id, log => (.address (log.remove id).1, (log.remove id).2)
  | .removeGroup a group, log => (.id (log.removeGroup a group).1, (log.removeGroup a group).2)
  | .get id, log => (.notification (log.get id), log)
  | .mode id, log => (.mode (log.mode id), log)
  | .queued a, log => (.notifications (log.queued a), log)
  | .since a t, log => (.notifications (log.since a t), log)
  | .purge q t, log => (.count (log.purge q t).1, (log.purge q t).2)
  | .size, log => (.count log.length, log)

/-- The identifier of the notification that a request stores. -/
def storedId? : Request → Option Id
  | .store _ n => if n.isStored then some n.id else none
  | _ => none

end Request

/-- The answers of the backend to one request after the other. -/
def askAll : List Request → Memory → List (Except Fault Answer)
  | [], _ => []
  | r :: rest, m => (r.ask m).1 :: askAll rest (r.ask m).2

/-- The answers of a log to one request after the other. -/
def answerAll : List Request → Log → List Answer
  | [], _ => []
  | r :: rest, log => (r.answer log).1 :: answerAll rest (r.answer log).2

theorem ids_answer (r : Request) (log : Log) :
    ∀ id ∈ (r.answer log).2.ids, id ∈ log.ids ∨ r.storedId? = some id := by
  intro id hid
  cases r with
  | store now n =>
    by_cases hst : n.isStored
    · simp only [Request.answer, store, hst, if_true, ids, List.map_append, List.mem_append,
        List.map_cons, List.map_nil, List.mem_singleton] at hid
      rcases hid with hid | rfl
      · exact .inl (ids_without_subset _ _ hid)
      · exact .inr (by simp [Request.storedId?, hst])
    · exact .inl (by simpa [Request.answer, store, hst] using hid)
  | remove id' => exact .inl (ids_without_subset _ _ hid)
  | removeGroup a group => exact .inl (ids_without_subset _ _ hid)
  | purge q t => exact .inl (ids_without_subset _ _ hid)
  | get _ => exact .inl hid
  | mode _ => exact .inl hid
  | queued _ => exact .inl hid
  | since _ _ => exact .inl hid
  | size => exact .inl hid

/-- One request: the same answer, and what is kept after it is the log after it. -/
theorem ask_eq_answer {m : Memory} {log : Log} (h : m.Represents log) (r : Request)
    (hfresh : ∀ id, r.storedId? = some id → id ∉ log.ids) :
    (r.ask m).1 = .ok (r.answer log).1 ∧ (r.ask m).2.Represents (r.answer log).2 := by
  cases r with
  | store now n =>
    obtain ⟨ha, hr⟩ := h.store now fun hst => hfresh n.id (by simp [Request.storedId?, hst])
    exact ⟨congrArg (fun id => Except.ok (Answer.id id)) ha, hr⟩
  | remove id =>
    obtain ⟨ha, hr⟩ := h.remove id
    refine ⟨?_, hr⟩
    show Except.ok (Answer.address ((m.remove id).1.bind (·.target))) = _
    rw [ha, Log.get, Option.bind_map]
    rfl
  | removeGroup a group =>
    obtain ⟨ha, hr⟩ := h.removeGroup a group
    exact ⟨congrArg (fun id => Except.ok (Answer.id id)) ha, hr⟩
  | get id => exact ⟨congrArg (fun n => Except.ok (Answer.notification n)) (h.get_eq id), h⟩
  | mode id =>
    refine ⟨?_, h⟩
    show Except.ok (Answer.mode ((m.get id).map (·.mode))) = _
    rw [h.get_eq]
    rfl
  | queued a => exact ⟨congrArg (fun ns => Except.ok (Answer.notifications ns)) (h.queued_eq a), h⟩
  | since a t => exact ⟨congrArg (fun ns => Except.ok (Answer.notifications ns)) (h.since_eq a t), h⟩
  | purge q t =>
    obtain ⟨ha, hr⟩ := h.purge q t
    exact ⟨congrArg (fun n => Except.ok (Answer.count n)) ha, hr⟩
  | size => exact ⟨congrArg (fun n => Except.ok (Answer.count n)) h.size_eq, h⟩

theorem askAll_eq_of_represents (requests : List Request) {m : Memory} {log : Log}
    (h : m.Represents log) (hn : (requests.filterMap Request.storedId?).Nodup)
    (hd : ∀ id ∈ requests.filterMap Request.storedId?, id ∉ log.ids) :
    askAll requests m = (answerAll requests log).map .ok := by
  induction requests generalizing m log with
  | nil => rfl
  | cons r rest ih =>
    have hfresh : ∀ id, r.storedId? = some id → id ∉ log.ids := fun id hid =>
      hd id (List.mem_filterMap.2 ⟨r, List.mem_cons_self, hid⟩)
    obtain ⟨ha, hr⟩ := ask_eq_answer h r hfresh
    have hsub : (rest.filterMap Request.storedId?).Sublist ((r :: rest).filterMap Request.storedId?) :=
      (List.sublist_cons_self r rest).filterMap _
    have hrest := ih hr (hsub.nodup hn) (by
      intro id hid hm
      rcases ids_answer r log id hm with hlog | hstored
      · exact hd id (hsub.subset hid) hlog
      · simp only [List.filterMap_cons_some hstored, List.nodup_cons] at hn
        exact hn.1 hid)
    rw [askAll, answerAll, List.map_cons, ha, hrest]

/-- From the empty store on, every answer of the backend is that of the log, if no identifier is stored
twice. -/
theorem askAll_eq_answerAll (requests : List Request)
    (h : (requests.filterMap Request.storedId?).Nodup) :
    askAll requests Memory.empty = (answerAll requests []).map .ok :=
  askAll_eq_of_represents requests Memory.empty_represents h (by simp [ids])

/-- A group that changes its mode, a withdrawal that finds no queued holder, and a sweep. -/
theorem askAll_eq_answerAll_of_replacement :
    let a : Address := ⟨.session, "s"⟩
    let requests : List Request :=
      [.store .epoch (.create ⟨1⟩ .epoch (some a) "note" .queued (some "g") []),
        .store .epoch (.create ⟨2⟩ .epoch (some a) "note" .timeseries (some "g") []),
        .removeGroup a "g", .store .epoch (.create ⟨3⟩ .epoch (some a) "note" .queued none []),
        .remove ⟨3⟩, .purge .epoch .epoch, .since a .epoch, .size]
    (requests.filterMap Request.storedId?).Nodup ∧
      askAll requests Memory.empty = (answerAll requests []).map .ok :=
  ⟨by decide, askAll_eq_answerAll _ (by decide)⟩

end Tidings.Log
