import Tidings.Proofs.Lifecycle
/-!
Starts of a service that runs. A start, the end of the tasks that it replaces and the settling of a node are runs
of single steps, and what other instances say comes between any two of them. It is handed on once where it comes to
one receiver; where starts overlap with it, it can be handed on twice or not at all.
-/
namespace Tidings

namespace Node

/-- A start with nothing in between. -/
theorem start_eq_runAll (n : Node) :
    n.start = Act.runAll (.beginStart :: List.replicate 3 (.proceedStart n.startups.length)) n := rfl

theorem exists_runAll_handOnAll (n : Node) : ∃ xs, n.handOnAll = Act.runAll xs n := by
  have hall (is : List Nat) (n : Node) : ∃ xs, is.foldl takeAll n = Act.runAll xs n := by
    induction is generalizing n with
    | nil => exact ⟨[], rfl⟩
    | cons i is ih =>
      obtain ⟨xs, hxs⟩ : ∃ xs, n.takeAll i = Act.runAll xs n := by
        unfold takeAll
        split
        · exact ⟨[], rfl⟩
        · next t _ =>
          refine ⟨(List.replicate t.work.backlog i).map .take, ?_⟩
          rw [Act.runAll, List.foldl_map]
          rfl
      obtain ⟨ys, hys⟩ := ih (n.takeAll i)
      exact ⟨xs ++ ys, by rw [List.foldl_cons, hys, hxs, Act.runAll_append]⟩
  exact hall _ n

/-- Messages that come at once and are handed on before anything else happens. -/
theorem exists_runAll_handOn (n : Node) (ms : List Message) : ∃ xs, n.handOn ms = Act.runAll xs n := by
  obtain ⟨xs, hxs⟩ := exists_runAll_handOnAll (ms.foldl arrive n)
  refine ⟨ms.map .arrive ++ xs, ?_⟩
  have harrive : Act.runAll (ms.map .arrive) n = ms.foldl arrive n := List.foldl_map
  rw [handOn, hxs, Act.runAll_append, harrive]

/-- The tasks that were told to end can end one after the other. -/
theorem exists_runAll_leave (n : Node) :
    ∃ xs, { n with dispatchers := n.dispatchers.settle } = Act.runAll xs n := by
  obtain ⟨k, hk⟩ : ∃ k, n.dispatchers.length = k := ⟨_, rfl⟩
  induction k generalizing n with
  | zero =>
    have hnone : n.dispatchers.settle = n.dispatchers := by rw [List.length_eq_zero_iff.1 hk]; rfl
    exact ⟨[], by rw [hnone]; rfl⟩
  | succ k ih =>
    by_cases h : ∃ t ∈ n.dispatchers, t.told
    · obtain ⟨t, ht, htold⟩ := h
      obtain ⟨ts, us, hsplit⟩ := List.append_of_mem ht
      have hleave : n.leave ts.length = { n with dispatchers := ts ++ us } := by
        simp [leave, hsplit, htold, List.eraseIdx_append_of_length_le]
      have hsettle : n.dispatchers.settle = Tasks.settle (ts ++ us) := by
        simp [Tasks.settle, hsplit, htold]
      obtain ⟨xs, hxs⟩ := ih (n.leave ts.length) (by
        have hlength := congrArg List.length hsplit
        rw [hleave]
        simp only [List.length_append, List.length_cons] at hlength ⊢
        omega)
      refine ⟨.leave ts.length :: xs, ?_⟩
      rw [hleave] at hxs
      rw [hsettle, Act.runAll, List.foldl_cons, Act.run, hleave]
      exact hxs
    · have hsame : n.dispatchers.settle = n.dispatchers :=
        List.filter_eq_self.2 fun t ht => by simpa using fun htold => h ⟨t, ht, htold⟩
      exact ⟨[], by rw [hsame]; rfl⟩

/-- That a node settles is a run of its steps. -/
theorem exists_runAll_settle (n : Node) : ∃ xs, n.settle = Act.runAll xs n := by
  obtain ⟨xs, hxs⟩ := n.exists_runAll_leave
  obtain ⟨ys, hys⟩ := exists_runAll_handOnAll { n with dispatchers := n.dispatchers.settle }
  refine ⟨xs ++ ys ++ [.work], ?_⟩
  rw [Act.runAll_append, Act.runAll_append, ← hxs, ← hys]
  rfl

/-- A start that has the node to itself leaves one task that hands on messages. -/
theorem receivers_start_settle {n : Node} (h : n.startups = []) :
    n.start.settle.receivers = [Queue.ofSize Defaults.remoteCapacity] := by
  let q : Queue Message := Queue.ofSize Defaults.remoteCapacity
  let listening := n.beginStart.proceedStart 0
  let told := listening.proceedStart 0
  have hstart : n.start = told.proceedStart 0 := by
    have hlength : n.startups.length = 0 := by rw [h]; rfl
    rw [start, hlength]
    rfl
  have hbegin : n.beginStart.startups = [⟨q, .subscribed⟩] := by rw [beginStart, h]; rfl
  have hlistening : listening.startups = [⟨q, .listening⟩] ∧ listening.dispatchers = n.dispatchers := by
    obtain ⟨line, backoff, hstarted⟩ := n.beginStart.startBackend_eq
    simp only [listening, proceedStart, hbegin, List.getElem?_cons_zero, hstarted]
    exact ⟨rfl, rfl⟩
  have htold : told.startups = [⟨q, .told⟩] ∧ told.dispatchers = n.dispatchers.tellAll := by
    simp only [told, proceedStart, hlistening, List.getElem?_cons_zero]
    exact ⟨rfl, trivial⟩
  have hstarted : n.start.startups = [] ∧ n.start.dispatchers.settle = [⟨q, false⟩] := by
    rw [hstart]
    simp only [proceedStart, htold, List.getElem?_cons_zero, Tasks.settle_start, Tasks.settle_tellAll]
    exact ⟨rfl, rfl⟩
  have hquiet : { n.start with dispatchers := n.start.dispatchers.settle }.handOnAll =
      { n.start with dispatchers := [⟨q, false⟩] } := by
    rw [hstarted.2]
    rfl
  have hone : { n.start with dispatchers := [⟨q, false⟩] }.receivers = [q] := by
    rw [receivers, hstarted.1]
    rfl
  have hperm := (keeps_work { n.start with dispatchers := [⟨q, false⟩] }).receivers
  rw [hone, ← hquiet] at hperm
  exact List.perm_singleton.1 hperm

end Node

/-- A node with any number of starts, one after the other or at the same time, with messages of other
instances at any time, and a connection that is opened at some time. What was unread then and each message
that has come since, once for each receiver that there was, has been handed on, left unread by a task that
ended, displaced from a full receiver, or is still unread. So every message is handed on once exactly when what
was left and displaced makes up for the receivers there were besides one. A connection hears what is handed
on and what its own service emits, and nothing else: where each message comes to one receiver with room for it
and no task leaves any behind, that is every message once. A start leaves a listener alone that runs, and one that
has the node to itself leaves one receiver. -/
theorem handed_on_once_where_clear (service : Service World) (world : World) (clock : Int)
    (before after : List Node.Act) (opening : Instant) (as : List Address) :
    let closed := Node.Act.runAll before (Node.new service world clock)
    let c := closed.state.registry.next
    let n := (Node.Act.own (.connect opening as)).run closed
    let n' := Node.Act.runAll after n
    let arrivals := Node.Act.along Node.Act.arrivals after n
    let copies := Node.Act.along Node.Act.copies after n
    let handed := Node.Act.along Node.Act.handed after n
    let left := Node.Act.along Node.Act.left after n
    let displaced := Node.Act.along Node.Act.displaced after n
    let readings := Node.Act.along (fun x n => (x.reading? c n).toList) after n
    (handed ++ left ++ displaced ++ n'.unread).Perm (n.unread ++ copies) ∧
    (n.unread = [] → n'.unread = [] →
      (handed.Perm arrivals ↔ (arrivals ++ left ++ displaced).Perm copies)) ∧
    ((∀ x ∈ after, x.Spares c) → ∃ q, n'.state.registry.queues.get? c = some q ∧
      (q.lost = 0 → (∀ k, .lagged k ∉ readings) →
        let heard := readings.filterMap Received.item? ++ q.items
        heard = (Node.Act.along Node.Act.told after n).filter (isFor as) ∧
        (Node.Act.areClear after n → n.unread = [] → n'.unread = [] → heard.Perm
          ((Node.Act.along Node.Act.emitted after n ++ service.foreign arrivals).filter (isFor as))))) ∧
    (n'.line ≠ .off → ∀ i, (n'.proceedStart i).line = n'.line ∧ (n'.proceedStart i).backoff = n'.backoff) ∧
    (n'.startups = [] → n'.start.settle.receivers = [Queue.ofSize Defaults.remoteCapacity]) := by
  intro closed c n n' arrivals copies handed left displaced readings
  have haccount := Node.Act.account_runAll after n
  have hservice : n.service = service := Node.Act.service_runAll before (Node.new service world clock)
  have hclosed : closed.state.registry.Sound := Node.Act.sound_runAll before (Registry.sound_ofCapacity _)
  have hopened : n.state.registry.Holding c (some as) [] [] := Registry.Holding.opened hclosed opening as
  have hspent (hn : n.unread = []) (hn' : n'.unread = []) : (handed ++ left ++ displaced).Perm copies := by
    have h := haccount
    rw [hn, List.nil_append, show (Node.Act.runAll after n).unread = [] from hn', List.append_nil] at h
    exact h
  refine ⟨haccount, fun hn hn' => ?_, fun hspares => ?_, Node.proceedStart_of_running, Node.receivers_start_settle⟩
  · have h := hspent hn hn'
    rw [List.append_assoc] at h ⊢
    exact ⟨fun honce => (honce.symm.append_right _).trans h, fun hmade =>
      (List.perm_append_right_iff _).1 (h.trans hmade.symm)⟩
  · obtain ⟨q, hq, hheard⟩ := (Node.Act.holding_runAll hopened hspares).queue
    refine ⟨q, hq, fun hlost hlag => ⟨hheard hlost hlag, fun hclear hn hn' => ?_⟩⟩
    have honce : handed.Perm arrivals := by
      obtain ⟨hleft, hdisplaced, hcopies⟩ := Node.Act.of_areClear hclear
      have h := hspent hn hn'
      rwa [show left = [] from hleft, show displaced = [] from hdisplaced, List.append_nil, List.append_nil,
        show copies = arrivals from hcopies] at h
    have htold := Node.Act.told_perm after n
    rw [hservice] at htold
    rw [show readings.filterMap Received.item? ++ q.items = _ from hheard hlost hlag]
    exact (htold.trans ((service.foreign_perm honce).append_left _)).filter _

/-- The node is started three times, before a connection is opened and between the messages for it; a message
of its own comes back. -/
theorem handed_on_once_where_clear_of_three_starts :
    let a : Address := ⟨.session, "s"⟩
    let service : Service World := ⟨⟨0⟩, {}, World.backend {} .redis, Hooks.none⟩
    let world : World := ⟨Memory.empty, Database.Session.ofLink .up, Broker.Session.new⟩
    let message := fun (origin id : Nat) =>
      (⟨⟨origin⟩, .notify (.create ⟨id⟩ .epoch (some a) "note" .queued none [])⟩ : Message)
    let start : List Node.Act := .beginStart :: List.replicate 3 (.proceedStart 0)
    let before := start ++ start ++ [.leave 0]
    let after := [.arrive (message 9 1), .arrive (message 9 2), .take 0, .take 0] ++ start ++
      [.leave 0, .arrive (message 9 3), .arrive (message 0 4), .take 0, .take 0]
    let n := (Node.Act.own (.connect .epoch [a])).run (Node.Act.runAll before (Node.new service world 0))
    let n' := Node.Act.runAll after n
    (∀ x ∈ after, x.Spares 0) ∧ Node.Act.areClear after n ∧ n.unread = [] ∧ n'.unread = [] ∧
      n'.line = .subscribed ∧ ∃ q, n'.state.registry.queues.get? 0 = some q ∧
        q.items.map Event.id = [⟨1⟩, ⟨2⟩, ⟨3⟩] ∧ q.items.Perm
          ((service.foreign (Node.Act.along Node.Act.arrivals after n)).filter (isFor [a])) := by
  intro a service world message start before after n n'
  have hspares : ∀ x ∈ after, x.Spares 0 := by simp [after, start, Node.Act.Spares]
  have hclear : Node.Act.areClear after n := by decide +kernel
  have hunread : n.unread = [] := List.isEmpty_iff.1 (by decide +kernel)
  have hunread' : n'.unread = [] := List.isEmpty_iff.1 (by decide +kernel)
  have hline : n'.line = .subscribed := by decide +kernel
  obtain ⟨_, _, hheard, _, _⟩ := handed_on_once_where_clear service world 0 before after .epoch [a]
  have hconnection : (Node.Act.runAll before (Node.new service world 0)).state.registry.next = 0 := by
    decide +kernel
  rw [hconnection] at hheard
  obtain ⟨q, hq, hheard⟩ := hheard hspares
  have hlost : Option.map Queue.lost (some q) = some 0 := by
    rw [← hq]
    decide +kernel
  have hreadings : Node.Act.along (fun x n => (x.reading? 0 n).toList) after n = [] :=
    List.isEmpty_iff.1 (by decide +kernel)
  rw [hreadings] at hheard
  obtain ⟨hitems, honce⟩ := hheard (Option.some.inj hlost) (fun _ => List.not_mem_nil)
  have hids : q.items.map Event.id = [⟨1⟩, ⟨2⟩, ⟨3⟩] := by
    rw [show q.items = _ from hitems]
    decide +kernel
  have hemitted : Node.Act.along Node.Act.emitted after n = [] := List.isEmpty_iff.1 (by decide +kernel)
  have hperm := honce hclear hunread hunread'
  rw [hemitted, List.filterMap_nil, List.nil_append, List.nil_append] at hperm
  with_reducible exact ⟨hspares, hclear, hunread, hunread', hline, q, hq, hids, hperm⟩

/-- What comes while a second start is under way is handed on by the task that is replaced and by the one that
replaces it; what came just before is lost if the old task ends with it unread; and after two starts at the
same time there are two tasks, which nobody tells to end. -/
theorem second_start_hands_on_twice :
    let a : Address := ⟨.session, "s"⟩
    let service : Service World := ⟨⟨0⟩, {}, World.backend {} .postgres, Hooks.none⟩
    let world : World := ⟨Memory.empty, Database.Session.ofLink .up, Broker.Session.new⟩
    let m : Message := ⟨⟨9⟩, .notify (.create ⟨1⟩ .epoch (some a) "note" .queued none [])⟩
    let goOn : List Node.Act := List.replicate 3 (.proceedStart 0)
    let n := Node.Act.runAll (.beginStart :: goOn ++ [.own (.connect .epoch [a])]) (Node.new service world 0)
    let heard := fun xs : List Node.Act =>
      ((Node.Act.runAll xs n).state.registry.queues.get? 0).map fun q => q.items.map Event.id
    let overlapping := [.beginStart, .arrive m, .take 0] ++ goOn ++ [.leave 0, .take 0]
    let parting := [.arrive m, .beginStart] ++ goOn ++ [.leave 0, .take 0]
    let together := [.beginStart, .beginStart, .proceedStart 0, .proceedStart 1, .proceedStart 0,
      .proceedStart 1, .proceedStart 0, .proceedStart 0, .leave 0, .arrive m, .take 0, .take 1]
    n.kind.isDurable ∧ n.receivers.length = 1 ∧
      (∀ xs ∈ [overlapping, parting, together], (Node.Act.along Node.Act.displaced xs n).isEmpty) ∧
      heard overlapping = some [⟨1⟩, ⟨1⟩] ∧ heard parting = some [] ∧ heard together = some [⟨1⟩, ⟨1⟩] := by
  decide +kernel

end Tidings
