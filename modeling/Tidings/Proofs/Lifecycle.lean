import Tidings.Proofs.Groups
import Tidings.Proofs.Interleaving
/-!
A node over its whole life, step by step. Several starts may be under way, a task that was told to end stays
for a while, and messages of other instances come at any time. Everything that a receiver ever holds is
accounted for: it is handed on, left behind by a task that ends, displaced by later messages, or still unread.
-/
namespace Tidings

/-- The events of other instances among some messages. -/
def Service.foreign {σ : Type} (service : Service σ) (ms : List Message) : List Event :=
  (ms.filter (·.origin ≠ service.id)).map (·.event)

/-- What a queue loses when one more entry comes. -/
def Queue.displaced {α : Type} (q : Queue α) : List α :=
  if q.items.length < q.capacity then [] else q.items.take 1

namespace Node

/-- All that the receivers hold. -/
def unread (n : Node) : List Message := n.receivers.flatMap Queue.items

/-- The message that bytes on the subscription stand for. -/
def brought? (n : Node) (payload : List UInt8) : Option Message :=
  if n.line = .subscribed then (Text.ofUtf8? payload).bind fun text => (n.heard text).1 else none

/-- A step in the life of a node. -/
inductive Act where
  | beginStart
  | proceedStart (i : Nat)
  | stop
  /-- Somebody uses the service. -/
  | own (x : Step)
  /-- A message comes. -/
  | arrive (m : Message)
  /-- Bytes arrive on the subscription. -/
  | push (payload : List UInt8)
  | take (i : Nat)
  | leave (i : Nat)
  | work
  | cutLine
  | refuse (on : Bool)
  | setClock (ns : Int)
  | advance (ms : Nat)
  | startScheduler
  | stopScheduler
  /-- The world around is changed by others, or read. -/
  | setWorld (w : World)

namespace Act

def run : Act → Node → Node
  | .beginStart, n => n.beginStart
  | .proceedStart i, n => n.proceedStart i
  | .stop, n => n.stop
  | .own x, n => { n with state := x.perform n.service n.state }
  | .arrive m, n => n.arrive m
  | .push payload, n => (n.push payload).2
  | .take i, n => n.take i
  | .leave i, n => n.leave i
  | .work, n => n.work
  | .cutLine, n => n.cutLine.2
  | .refuse on, n => { n with refusing := on }
  | .setClock ns, n => { n with clock := ns }
  | .advance ms, n => n.advance ms
  | .startScheduler, n => n.startScheduler
  | .stopScheduler, n => n.stopScheduler
  | .setWorld w, n => { n with state := n.state.withStore w }

def runAll (xs : List Act) (n : Node) : Node := xs.foldl (fun n x => x.run n) n

/-- The message that comes in a step. -/
def comes? : Act → Node → Option Message
  | .arrive m, _ => some m
  | .push payload, n => n.brought? payload
  | _, _ => none

def arrivals (x : Act) (n : Node) : List Message := (x.comes? n).toList

/-- A message that comes, once for each receiver. -/
def copies (x : Act) (n : Node) : List Message :=
  (x.comes? n).elim [] (List.replicate n.receivers.length)

/-- What is handed on in a step. -/
def handed : Act → Node → List Message
  | .take i, n => n.dispatchers[i]?.elim [] fun t => t.work.receive.1.item?.toList
  | _, _ => []

/-- What a task leaves unread when it ends. -/
def left : Act → Node → List Message
  | .leave i, n => n.dispatchers[i]?.elim [] fun t => if t.told then t.work.items else []
  | _, _ => []

/-- What the receivers lose when a message comes. -/
def displaced (x : Act) (n : Node) : List Message :=
  (x.comes? n).elim [] fun _ => n.receivers.flatMap Queue.displaced

/-- The events that the service itself emits in a step. -/
def emitted : Act → Node → List Event
  | .own x, n => (x.perform n.service.recorded n.state.recorded).emitted
  | _, _ => []

/-- The events that connections have to hear of. -/
def told (x : Act) (n : Node) : List Event := x.emitted n ++ n.service.foreign (x.handed n)

/-- What is read off a connection. -/
def reading? (c : ConnectionId) (x : Act) (n : Node) : Option (Received Event) :=
  match x with
  | .own x => x.reading? c n.state.registry
  | _ => none

/-- What the steps of a run come to, one after the other. -/
def along {α : Type} (f : Act → Node → List α) : List Act → Node → List α
  | [], _ => []
  | x :: xs, n => f x n ++ along f xs (x.run n)

/-- Leaves a connection on the register. -/
def Spares (c : ConnectionId) (x : Act) : Prop :=
  x ≠ .own (.unregister c) ∧ x ≠ .own (.drop c) ∧ x ≠ .own .closeAll ∧ x ≠ .stop

/-- A message comes to one receiver, which has room for it, and no task ends that has something unread. -/
def isClear (x : Act) (n : Node) : Bool :=
  ((x.comes? n).isNone || n.receivers.length = 1) && (x.displaced n).isEmpty && (x.left n).isEmpty

def areClear : List Act → Node → Bool
  | [], _ => true
  | x :: xs, n => x.isClear n && areClear xs (x.run n)

end Act

/-- From one node to another the service and the connections stay, and so does what was received. -/
structure Keeps (n n' : Node) : Prop where
  service : n'.service = n.service
  registry : n'.state.registry = n.state.registry
  receivers : n'.receivers.Perm n.receivers

namespace Keeps

theorem refl (n : Node) : n.Keeps n := ⟨rfl, rfl, .refl _⟩

theorem trans {n n' n'' : Node} (h : n.Keeps n') (h' : n'.Keeps n'') : n.Keeps n'' :=
  ⟨h'.service.trans h.service, h'.registry.trans h.registry, h'.receivers.trans h.receivers⟩

end Keeps

/-- Subscribing is about the line and the delays only. -/
theorem trySubscribe_eq (n : Node) : ∃ line backoff, n.trySubscribe = { n with line, backoff } := by
  unfold trySubscribe
  split <;> exact ⟨_, _, rfl⟩

theorem startListener_eq (n : Node) : ∃ line backoff, n.startListener = { n with line, backoff } := by
  unfold startListener
  split
  · obtain ⟨line, backoff, h⟩ := trySubscribe_eq { n with backoff := listenBackoff n.service.settings }
    exact ⟨line, backoff, h⟩
  · exact ⟨n.line, n.backoff, rfl⟩

theorem keeps_trySubscribe (n : Node) : n.Keeps n.trySubscribe := by
  obtain ⟨line, backoff, h⟩ := n.trySubscribe_eq
  rw [h]
  exact ⟨rfl, rfl, .refl _⟩

theorem keeps_runListener (n : Node) : n.Keeps n.runListener := by
  unfold runListener
  split
  · split
    · exact keeps_trySubscribe n
    · exact .refl n
  · exact .refl n

theorem keeps_runTicker (t : Task Ticker) (n : Node) : n.Keeps (runTicker t n).2 := by
  unfold runTicker
  split
  · exact ⟨rfl, rfl, .refl _⟩
  · exact .refl n

theorem keeps_runTickers (ts : Tasks Ticker) (n : Node) : n.Keeps (runTickers ts n).2 := by
  induction ts generalizing n with
  | nil => exact .refl n
  | cons t ts ih => exact (keeps_runTicker t n).trans (ih (runTicker t n).2)

/-- Sweeps and attempts to subscribe are no business of the connections. -/
theorem keeps_runDue (n : Node) : n.Keeps n.runDue := by
  obtain ⟨cleanup, n₁, hcleanup⟩ : ∃ ts n', runTickers n.cleanup n = (ts, n') := ⟨_, _, rfl⟩
  obtain ⟨scheduler, n₂, hscheduler⟩ :
    ∃ ts n', runTickers n₁.scheduler { n₁ with cleanup } = (ts, n') := ⟨_, _, rfl⟩
  have hdue : n.runDue = runListener { n₂ with scheduler } := by
    simp only [runDue, hcleanup, hscheduler]
  have h₁ : n.Keeps n₁ := by
    have h := keeps_runTickers n.cleanup n
    rwa [hcleanup] at h
  have h₂ : Keeps { n₁ with cleanup } n₂ := by
    have h := keeps_runTickers n₁.scheduler { n₁ with cleanup }
    rwa [hscheduler] at h
  have h₃ := keeps_runListener { n₂ with scheduler }
  rw [hdue]
  exact h₁.trans (Keeps.trans ⟨h₂.service, h₂.registry, h₂.receivers⟩
    ⟨h₃.service, h₃.registry, h₃.receivers⟩)

theorem keeps_work (n : Node) : n.Keeps n.work := by
  have h := keeps_runDue { n with cleanup := n.cleanup.settle, scheduler := n.scheduler.settle }.settlePauses
  exact ⟨h.service, h.registry, h.receivers⟩

theorem keeps_cutLine (n : Node) : n.Keeps n.cutLine.2 := by
  unfold cutLine
  split <;> exact ⟨rfl, rfl, .refl _⟩

theorem keeps_startScheduler (n : Node) : n.Keeps n.startScheduler := by
  unfold startScheduler
  split <;> exact ⟨rfl, rfl, .refl _⟩

/-- Telling tasks to end takes nothing from them. -/
theorem receivers_tellAll (n : Node) : { n with dispatchers := n.dispatchers.tellAll }.receivers = n.receivers := by
  simp [receivers, Tasks.tellAll, Function.comp_def]

section Places
variable {α : Type} {l : List α} {i : Nat} {a : α} (h : l[i]? = some a)
include h

theorem perm_of_getElem? : l.Perm (a :: l.eraseIdx i) := by
  obtain ⟨hi, rfl⟩ := List.getElem?_eq_some_iff.1 h
  exact (List.getElem_cons_eraseIdx_perm hi).symm

theorem set_perm_of_getElem? (b : α) : (l.set i b).Perm (b :: l.eraseIdx i) := by
  obtain ⟨hi, _⟩ := List.getElem?_eq_some_iff.1 h
  exact List.set_perm_cons_eraseIdx hi b

end Places

/-- Starting the backend is about the line and the delays only. -/
theorem startBackend_eq (n : Node) : ∃ line backoff,
    (if n.kind.isDurable then n.startListener else n) = { n with line, backoff } := by
  split
  · exact n.startListener_eq
  · exact ⟨n.line, n.backoff, rfl⟩

/-- However a start goes on, its receiver stays, and so do the others. -/
theorem keeps_proceedStart (n : Node) (i : Nat) : n.Keeps (n.proceedStart i) := by
  have hone {receiver : Queue Message} {phase : StartPhase} (hi : n.startups[i]? = some ⟨receiver, phase⟩) :
      (n.startups.map Startup.receiver).Perm (receiver :: (n.startups.eraseIdx i).map Startup.receiver) :=
    (perm_of_getElem? hi).map _
  have hset {receiver : Queue Message} {phase phase' : StartPhase}
      (hi : n.startups[i]? = some ⟨receiver, phase⟩) :
      ((n.startups.set i ⟨receiver, phase'⟩).map Startup.receiver).Perm (n.startups.map Startup.receiver) :=
    ((set_perm_of_getElem? hi _).map _).trans (hone hi).symm
  unfold proceedStart
  split
  · exact .refl n
  · next receiver hi =>
    obtain ⟨line, backoff, hstarted⟩ := n.startBackend_eq
    rw [hstarted]
    exact ⟨rfl, rfl, .append_left _ (hset hi)⟩
  · next receiver hi =>
    exact ⟨rfl, rfl, .append (.of_eq (by simp [Tasks.tellAll])) (hset hi)⟩
  · next receiver hi =>
    refine ⟨rfl, rfl, ?_⟩
    have hstart : (n.dispatchers.start receiver).map Task.work = n.dispatchers.map Task.work ++ [receiver] :=
      List.map_append
    rw [receivers, receivers, hstart, List.append_assoc]
    exact .append_left _ (hone hi).symm

/-- Who stops a node ends its streams and tells its tasks to end; those are still there. -/
theorem stop_spec (n : Node) : n.stop.service = n.service ∧
    n.stop.state.registry = n.state.registry.closeAll.2 ∧ n.stop.receivers = n.receivers := by
  have hclosed : (n.withRegistry Registry.closeAll).2 =
    { n with state := { n.state with registry := n.state.registry.closeAll.2 } } := rfl
  rw [stop, hclosed]
  dsimp only
  split <;> exact ⟨rfl, rfl, receivers_tellAll n⟩

/-- A listener that runs is left alone, however a start goes on. -/
theorem proceedStart_of_running {n : Node} (h : n.line ≠ .off) (i : Nat) :
    (n.proceedStart i).line = n.line ∧ (n.proceedStart i).backoff = n.backoff := by
  have hlistener : n.startListener = n := if_neg h
  unfold proceedStart
  split
  · exact ⟨rfl, rfl⟩
  · rw [hlistener, ite_self]
    exact ⟨rfl, rfl⟩
  · exact ⟨rfl, rfl⟩
  · exact ⟨rfl, rfl⟩

theorem receivers_arrive (n : Node) (m : Message) : (n.arrive m).receivers = n.receivers.map (·.push m) := by
  simp [receivers, arrive, Function.comp_def]

/-- The task at some place apart from all other receivers. -/
theorem receivers_perm {n : Node} {i : Nat} {t : Task (Queue Message)} (h : n.dispatchers[i]? = some t) :
    n.receivers.Perm (t.work :: { n with dispatchers := n.dispatchers.eraseIdx i }.receivers) :=
  ((perm_of_getElem? h).map _).append_right _

/-- What a task reads, it hands on. -/
theorem take_spec {n : Node} {i : Nat} {t : Task (Queue Message)} (h : n.dispatchers[i]? = some t) :
    (n.take i).service = n.service ∧ (n.take i).receivers.Perm
      (t.work.receive.2 :: { n with dispatchers := n.dispatchers.eraseIdx i }.receivers) ∧
    (n.take i).state =
      t.work.receive.1.item?.toList.foldl (fun s m => n.service.receiveRemote n.now m s) n.state := by
  have hset : ((n.dispatchers.set i { t with work := t.work.receive.2 }).map Task.work ++
      n.startups.map Startup.receiver).Perm
      (t.work.receive.2 :: { n with dispatchers := n.dispatchers.eraseIdx i }.receivers) :=
    ((set_perm_of_getElem? h _).map _).append_right _
  rw [take, h]
  dsimp only
  cases t.work.receive.1 <;> exact ⟨rfl, hset, rfl⟩

/-- Bytes on the subscription come down to the message that they stand for. -/
theorem push_eq (n : Node) (payload : List UInt8) :
    ∃ n', n.Keeps n' ∧ (n.push payload).2 = (n.brought? payload).elim n' n'.arrive := by
  have hheard (text : String) : n.Keeps (n.heard text).2 := by
    unfold heard
    split
    · exact .refl n
    · split
      · exact ⟨rfl, rfl, .refl _⟩
      · exact .refl n
  have hhear (text : String) : n.hear text = (n.heard text).1.elim (n.heard text).2 (n.heard text).2.arrive := by
    unfold hear
    obtain ⟨m, n'⟩ := n.heard text
    cases m <;> rfl
  unfold push brought?
  by_cases hline : n.line = .subscribed
  · rw [if_pos hline, if_pos hline]
    cases Text.ofUtf8? payload with
    | none =>
      refine ⟨if n.kind = .redis then n else { n with line := .off }, ?_, rfl⟩
      split
      · exact .refl n
      · exact ⟨rfl, rfl, .refl _⟩
    | some text => exact ⟨(n.heard text).2, hheard text, hhear text⟩
  · rw [if_neg hline, if_neg hline]
    exact ⟨n, .refl n, rfl⟩

end Node

/-- Messages that are handed on once each. -/
theorem Service.registry_receiveAll {σ : Type} (service : Service σ) (now : Instant) (ms : List Message)
    (s : State σ) : (ms.foldl (fun s m => service.receiveRemote now m s) s).registry =
      s.registry.deliverAll now (service.foreign ms) := by
  induction ms generalizing s with
  | nil => rfl
  | cons m ms ih =>
    rw [List.foldl_cons, ih, foreign, foreign]
    by_cases ho : m.origin = service.id
    · rw [service.receiveRemote_of_own now ho, List.filter_cons_of_neg (by simp [ho])]
    · rw [service.receiveRemote_of_other now ho, List.filter_cons_of_pos (by simp [ho])]
      rfl

namespace Queue
variable {α : Type}

/-- An entry that comes is there afterwards, behind those that it did not displace. -/
theorem displaced_push (q : Queue α) (a : α) : q.displaced ++ (q.push a).items = q.items ++ [a] := by
  unfold displaced push
  split
  · rfl
  · rw [← List.append_assoc, List.take_append_drop]

/-- An entry that comes to several queues. -/
theorem displaced_pushAll (qs : List (Queue α)) (a : α) :
    (qs.flatMap displaced ++ (qs.map (·.push a)).flatMap items).Perm
      (qs.flatMap items ++ List.replicate qs.length a) := by
  induction qs with
  | nil => exact .refl _
  | cons q qs ih =>
    classical
    refine List.perm_iff_count.2 fun b => ?_
    have hq := congrArg (List.count b) (q.displaced_push a)
    have hqs := ih.count_eq b
    simp only [List.flatMap_cons, List.map_cons, List.length_cons, List.replicate_succ', List.count_append] at hq hqs ⊢
    omega

end Queue

namespace Node.Act

/-- What a step does to the messages that are under way, and what of them reaches the connections. -/
structure Spec (x : Act) (n : Node) : Prop where
  service : (x.run n).service = n.service
  account : (x.handed n ++ x.left n ++ x.displaced n ++ (x.run n).unread).Perm (n.unread ++ x.copies n)
  registry : (∀ y, x ≠ .own y) → x ≠ .stop →
    ∃ now, (x.run n).state.registry = n.state.registry.deliverAll now (n.service.foreign (x.handed n))

section
variable {x : Act} {n : Node} (hhanded : x.handed n = []) (hleft : x.left n = [])
include hhanded hleft

/-- A step in which no message moves. -/
theorem Spec.of_keeps (h : n.Keeps (x.run n)) (hcomes : x.comes? n = none) : x.Spec n where
  service := h.service
  account := by
    rw [hhanded, hleft, displaced, copies, hcomes]
    simpa [unread] using h.receivers.flatMap_right Queue.items
  registry _ _ := ⟨n.now, by rw [h.registry, hhanded]; rfl⟩

/-- A step that brings a message. -/
theorem Spec.of_arrive {n' : Node} {m : Message} (h : n.Keeps n') (hrun : x.run n = n'.arrive m)
    (hcomes : x.comes? n = some m) : x.Spec n where
  service := hrun ▸ h.service
  account := by
    have hsame : ((n'.receivers.map (·.push m)).flatMap Queue.items).Perm
        ((n.receivers.map (·.push m)).flatMap Queue.items) := (h.receivers.map _).flatMap_right _
    rw [hhanded, hleft, displaced, copies, hcomes, hrun, unread, receivers_arrive]
    exact (hsame.append_left _).trans (Queue.displaced_pushAll n.receivers m)
  registry _ _ := ⟨n.now, by rw [hrun, hhanded]; exact h.registry⟩

end

theorem spec_take (n : Node) (i : Nat) : (take i).Spec n := by
  have hcomes : (take i).comes? n = none := rfl
  cases hi : n.dispatchers[i]? with
  | none =>
    have hrun : (take i).run n = n := by rw [run, Node.take, hi]
    exact .of_keeps (by rw [handed, hi]; rfl) rfl (hrun.symm ▸ .refl n) hcomes
  | some t =>
    obtain ⟨hservice, hreceivers, hstate⟩ := take_spec hi
    have hhanded : (take i).handed n = t.work.receive.1.item?.toList := by rw [handed, hi]; rfl
    have hunread := (receivers_perm hi).flatMap_right Queue.items
    have hunread' := hreceivers.flatMap_right Queue.items
    rw [List.flatMap_cons, ← t.work.items_receive, List.append_assoc] at hunread
    refine ⟨hservice, ?_, fun _ _ => ⟨n.now, ?_⟩⟩
    · rw [hhanded, displaced, copies, hcomes, show (take i).left n = [] from rfl]
      simp only [List.append_nil, Option.elim_none]
      exact (hunread'.append_left _).trans hunread.symm
    · rw [run, hstate, hhanded, Service.registry_receiveAll]

theorem spec_leave (n : Node) (i : Nat) : (leave i).Spec n := by
  have hcomes : (leave i).comes? n = none := rfl
  cases hi : n.dispatchers[i]? with
  | none =>
    have hrun : (leave i).run n = n := by rw [run, Node.leave, hi]; rfl
    exact .of_keeps rfl (by rw [left, hi]; rfl) (hrun.symm ▸ .refl n) hcomes
  | some t =>
    by_cases ht : t.told
    · have hrun : (leave i).run n = { n with dispatchers := n.dispatchers.eraseIdx i } := by
        rw [run, Node.leave, hi]
        exact if_pos ht
      have hleft : (leave i).left n = t.work.items := by
        rw [left, hi]
        exact if_pos ht
      refine ⟨hrun ▸ rfl, ?_, fun _ _ => ⟨n.now, by rw [hrun]; rfl⟩⟩
      rw [hleft, displaced, copies, hcomes, hrun, show (leave i).handed n = [] from rfl]
      simp only [List.append_nil, List.nil_append, Option.elim_none]
      exact ((receivers_perm hi).flatMap_right Queue.items).symm
    · have hrun : (leave i).run n = n := by
        rw [run, Node.leave, hi]
        exact if_neg ht
      have hleft : (leave i).left n = [] := by
        rw [left, hi]
        exact if_neg ht
      exact .of_keeps rfl hleft (hrun.symm ▸ .refl n) hcomes

theorem spec (x : Act) (n : Node) : x.Spec n := by
  cases x with
  | beginStart =>
    have hnew : n.beginStart.unread = n.unread := by simp [unread, receivers, Node.beginStart, Queue.ofSize]
    exact ⟨rfl, .of_eq (hnew.trans (List.append_nil _).symm), fun _ _ => ⟨n.now, rfl⟩⟩
  | proceedStart i => exact .of_keeps rfl rfl (n.keeps_proceedStart i) rfl
  | stop =>
    obtain ⟨hservice, _, hreceivers⟩ := n.stop_spec
    have hsame : n.stop.unread = n.unread := congrArg (List.flatMap Queue.items) hreceivers
    exact ⟨hservice, .of_eq (hsame.trans (List.append_nil _).symm), fun _ hstop => absurd rfl hstop⟩
  | own x => exact ⟨rfl, .of_eq (List.append_nil _).symm, fun hown _ => absurd rfl (hown x)⟩
  | arrive m => exact .of_arrive rfl rfl (.refl n) rfl rfl
  | push payload =>
    obtain ⟨n', hkeeps, hpush⟩ := n.push_eq payload
    cases hbrought : n.brought? payload with
    | none =>
      have hrun : (push payload).run n = n' := by rw [run, hpush, hbrought]; rfl
      exact .of_keeps rfl rfl (hrun.symm ▸ hkeeps) hbrought
    | some m =>
      have hrun : (push payload).run n = n'.arrive m := by rw [run, hpush, hbrought]; rfl
      exact .of_arrive rfl rfl hkeeps hrun hbrought
  | take i => exact spec_take n i
  | leave i => exact spec_leave n i
  | work => exact .of_keeps rfl rfl n.keeps_work rfl
  | cutLine => exact .of_keeps rfl rfl n.keeps_cutLine rfl
  | startScheduler => exact .of_keeps rfl rfl n.keeps_startScheduler rfl
  | refuse _ | setClock _ | advance _ | stopScheduler | setWorld _ =>
    exact .of_keeps rfl rfl ⟨rfl, rfl, .refl _⟩ rfl

/-- Accounts of two steps, or of a step and a run, add up. -/
theorem account_append {α : Type} {handed left displaced copies before between : List α}
    {handed' left' displaced' copies' after : List α}
    (h : (handed ++ left ++ displaced ++ between).Perm (before ++ copies))
    (h' : (handed' ++ left' ++ displaced' ++ after).Perm (between ++ copies')) :
    (handed ++ handed' ++ (left ++ left') ++ (displaced ++ displaced') ++ after).Perm
      (before ++ (copies ++ copies')) := by
  classical
  refine List.perm_iff_count.2 fun a => ?_
  have ha := h.count_eq a
  have ha' := h'.count_eq a
  simp only [List.count_append] at ha ha' ⊢
  omega

/-- What was unread and what came is handed on, left, displaced or unread. -/
theorem account_runAll (xs : List Act) (n : Node) :
    (along handed xs n ++ along left xs n ++ along displaced xs n ++ (runAll xs n).unread).Perm
      (n.unread ++ along copies xs n) := by
  induction xs generalizing n with
  | nil => exact .of_eq (List.append_nil _).symm
  | cons x xs ih => exact account_append (x.spec n).account (ih (x.run n))

theorem service_runAll (xs : List Act) (n : Node) : (runAll xs n).service = n.service := by
  induction xs generalizing n with
  | nil => rfl
  | cons x xs ih => exact (ih (x.run n)).trans (x.spec n).service

/-- In a clear step nothing is lost, and what comes comes once. -/
theorem of_isClear {x : Act} {n : Node} (h : x.isClear n) :
    x.left n = [] ∧ x.displaced n = [] ∧ x.copies n = x.arrivals n := by
  rw [isClear, Bool.and_eq_true, Bool.and_eq_true, Bool.or_eq_true, List.isEmpty_iff, List.isEmpty_iff] at h
  obtain ⟨⟨hone, hdisplaced⟩, hleft⟩ := h
  refine ⟨hleft, hdisplaced, ?_⟩
  rw [copies, arrivals]
  cases hcomes : x.comes? n with
  | none => rfl
  | some m =>
    rw [hcomes] at hone
    have hlength : n.receivers.length = 1 := by simpa using hone
    rw [hlength]
    rfl

theorem of_areClear {xs : List Act} {n : Node} (h : areClear xs n) :
    along left xs n = [] ∧ along displaced xs n = [] ∧
      along copies xs n = along arrivals xs n := by
  induction xs generalizing n with
  | nil => exact ⟨rfl, rfl, rfl⟩
  | cons x xs ih =>
    obtain ⟨hx, hxs⟩ := Bool.and_eq_true_iff.1 h
    obtain ⟨hleft, hdisplaced, hcopies⟩ := of_isClear hx
    obtain ⟨hlefts, hdisplaceds, hcopiess⟩ := ih hxs
    refine ⟨?_, ?_, ?_⟩
    · rw [along, hleft, hlefts, List.append_nil]
    · rw [along, hdisplaced, hdisplaceds, List.append_nil]
    · rw [along, hcopies, hcopiess, along]

end Node.Act

theorem Service.foreign_append {σ : Type} (service : Service σ) (ms ms' : List Message) :
    service.foreign (ms ++ ms') = service.foreign ms ++ service.foreign ms' := by
  rw [foreign, List.filter_append, List.map_append]
  rfl

theorem Service.foreign_perm {σ : Type} (service : Service σ) {ms ms' : List Message} (h : ms.Perm ms') :
    (service.foreign ms).Perm (service.foreign ms') := (h.filter _).map _

namespace Node

/-- A step of the service at a node: connections hear what it emits. -/
theorem perform_spec (service : Service World) (x : Step) (s : Service.State World) :
    (s.registry.Sound → (x.perform service s).registry.Sound) ∧
      ∀ {c scopes readings heard}, x ≠ .drop c → s.registry.Holding c scopes readings heard →
        (x.perform service s).registry.Holding c (x.scopesAfter c scopes)
          (readings ++ (x.reading? c s.registry).toList)
          (heard ++ (x.perform service.recorded s.recorded).emitted.filter fun e => scopes.any (isFor · e)) := by
  obtain ⟨new, hsent, _, hsound, hold⟩ := x.perform_recorded service s.recorded
  have hforget : (x.perform service.recorded s.recorded).registry = (x.perform service s).registry :=
    congrArg Service.State.registry (x.forget_perform service s.recorded)
  have hemitted : (x.perform service.recorded s.recorded).emitted = new.map (·.1.event) :=
    Service.State.emitted_of_sent hsent
  rw [← hforget, hemitted]
  exact ⟨hsound, hold⟩

namespace Act

theorem sound_run (x : Act) {n : Node} (h : n.state.registry.Sound) : (x.run n).state.registry.Sound := by
  by_cases hown : ∃ y, x = .own y
  · obtain ⟨y, rfl⟩ := hown
    exact (perform_spec n.service y n.state).1 h
  · by_cases hstop : x = .stop
    · subst hstop
      rw [run, n.stop_spec.2.1]
      exact h.closeAll
    · obtain ⟨now, hregistry⟩ := (x.spec n).registry (fun y hy => hown ⟨y, hy⟩) hstop
      rw [hregistry]
      exact (Registry.deliverAll_spec now _ h).1

theorem sound_runAll (xs : List Act) {n : Node} (h : n.state.registry.Sound) :
    (runAll xs n).state.registry.Sound := by
  induction xs generalizing n with
  | nil => exact h
  | cons x xs ih => exact ih (x.sound_run h)

section Holding
variable {c : ConnectionId} {scopes : Option (List Address)} {readings : List (Received Event)}
  {heard : List Event} {n : Node} (hold : n.state.registry.Holding c scopes readings heard)
include hold

/-- A connection hears what it has to hear of in a step, and nothing else. -/
theorem holding_run {x : Act} (hspares : x.Spares c) :
    (x.run n).state.registry.Holding c scopes (readings ++ (x.reading? c n).toList)
      (heard ++ (x.told n).filter fun e => scopes.any (isFor · e)) := by
  obtain ⟨hunregister, hdrop, hclose, hstop⟩ := hspares
  by_cases hown : ∃ y, x = .own y
  · obtain ⟨y, rfl⟩ := hown
    have hscopes : y.scopesAfter c scopes = scopes := by
      cases y with
      | unregister d => exact if_neg fun hd => hunregister (by rw [hd])
      | closeAll => exact absurd rfl hclose
      | _ => rfl
    have hstep := (perform_spec n.service y n.state).2 (fun hd => hdrop (by rw [hd])) hold
    have htold : (own y).told n = (y.perform n.service.recorded n.state.recorded).emitted := List.append_nil _
    rw [hscopes] at hstep
    rw [htold]
    exact hstep
  · have hown : ∀ y, x ≠ .own y := fun y hy => hown ⟨y, hy⟩
    obtain ⟨now, hregistry⟩ := (x.spec n).registry hown hstop
    have hquiet : x.emitted n = [] ∧ x.reading? c n = none := by
      cases x with
      | own y => exact absurd rfl (hown y)
      | _ => exact ⟨rfl, rfl⟩
    rw [hregistry, hquiet.2, told, hquiet.1, Option.toList_none, List.append_nil]
    exact hold.deliverAll now _

theorem holding_runAll {xs : List Act} (hspares : ∀ x ∈ xs, x.Spares c) :
    (runAll xs n).state.registry.Holding c scopes
      (readings ++ along (fun x n => (x.reading? c n).toList) xs n)
      (heard ++ (along told xs n).filter fun e => scopes.any (isFor · e)) := by
  induction xs generalizing n readings heard with
  | nil => simpa [runAll, along] using hold
  | cons x xs ih =>
    have hrest := ih (holding_run hold (hspares x List.mem_cons_self))
      fun y hy => hspares y (List.mem_cons_of_mem x hy)
    rw [along, along, List.filter_append, ← List.append_assoc, ← List.append_assoc]
    exact hrest

end Holding

/-- What connections hear of is what the service emits and what is handed on. -/
theorem told_perm (xs : List Act) (n : Node) :
    (along told xs n).Perm (along emitted xs n ++ n.service.foreign (along handed xs n)) := by
  induction xs generalizing n with
  | nil => exact .refl _
  | cons x xs ih =>
    have hrest := ih (x.run n)
    rw [(x.spec n).service] at hrest
    rw [along, along, along, told, Service.foreign_append]
    refine (hrest.append_left _).trans ?_
    rw [List.append_assoc, List.append_assoc]
    exact (List.perm_append_comm_assoc _ _ _).append_left _

theorem runAll_append (xs ys : List Act) (n : Node) : runAll (xs ++ ys) n = runAll ys (runAll xs n) :=
  List.foldl_append

end Act

end Node

end Tidings
