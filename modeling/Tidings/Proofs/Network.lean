import Mathlib.Logic.Function.Basic
import Tidings.Node
import Tidings.Proofs.Following
import Tidings.Proofs.Routing
import Tidings.Proofs.Unread
/-!
Several instances and a broker between them. Each instance works on its own; what it publishes arrives at
every instance, at its own pace, in the order in which it was published.
-/
namespace Tidings

variable {σ : Type}

/-- The state of a backend with what was published through it, and whether the broker accepted that. -/
structure Posted (σ : Type) where
  store : σ
  sent : List (Message × Bool)

def Posted.setStore (p : Posted σ) (store : σ) : Posted σ := { p with store }

/-- A backend that takes down what it publishes. -/
def Backend.recorded (b : Backend σ) : Backend (Posted σ) :=
  { b.within Posted.store Posted.setStore with
    publish := fun m p =>
      let (outcome, store) := b.publish m p.store
      (outcome, ⟨store, p.sent ++ [(m, outcome.isOk)]⟩) }

def Service.recorded (service : Service σ) : Service (Posted σ) :=
  ⟨service.id, service.settings, service.backend.recorded, service.hooks⟩

/-- A step of one instance, over any backend. -/
def Step.perform (service : Service σ) : Step → Service.State σ → Service.State σ
  | .call now c, s => c.perform service now s
  | .sweep now, s => (Service.access (service.backend.sweep service.settings now) s).2
  | .connect now as, s => { s with registry := (s.registry.register now as).2 }
  | .unregister c, s => { s with registry := s.registry.unregister c }
  | .drop c, s => { s with registry := s.registry.drop c }
  | .closeAll, s => { s with registry := s.registry.closeAll.2 }
  | .receive c, s => { s with registry := (s.registry.receive c).2 }

/-- What an instance has to itself. -/
structure Site where
  sent : List (Message × Bool)
  registry : Registry
  recent : Recent
  told : List Event

/-- Instances on one store, and how many messages of the first of two have arrived at the second. -/
structure Network (ι σ : Type) where
  store : σ
  site : ι → Site
  arrived : ι → ι → Nat

inductive Action (ι σ : Type) where
  /-- An instance takes a step of its own. -/
  | own (i : ι) (x : Step)
  /-- The next message that one instance published arrives at another, or at itself. -/
  | arrive (a b : ι) (now : Instant)
  /-- The store is changed by others, or read. -/
  | store (t : σ)

namespace Network
variable {ι : Type}

def initial (services : ι → Service σ) (store : σ) : Network ι σ where
  store
  site i :=
    let s := Service.initial (services i).settings store
    ⟨[], s.registry, s.recent, s.told⟩
  arrived _ _ := 0

def state (net : Network ι σ) (i : ι) : Service.State (Posted σ) :=
  let site := net.site i
  ⟨⟨net.store, site.sent⟩, site.registry, site.recent, site.told⟩

def put [DecidableEq ι] (net : Network ι σ) (i : ι) (s : Service.State (Posted σ)) : Network ι σ :=
  { net with
    store := s.store.store
    site := Function.update net.site i ⟨s.store.sent, s.registry, s.recent, s.told⟩ }

/-- The events that an instance has emitted, in order. -/
def emitted (net : Network ι σ) (i : ι) : List Event := (net.site i).sent.map (·.1.event)

/-- The messages of an instance that the broker has accepted, in order. -/
def published (net : Network ι σ) (i : ι) : List Message :=
  ((net.site i).sent.filter (·.2)).map (·.1)

end Network

/-- The tasks that hand on messages in an instance that was started once. -/
def startedOnce : Tasks Unit := Tasks.renew [] ()

namespace Action
variable {ι : Type} [DecidableEq ι] (services : ι → Service σ)

def run : Action ι σ → Network ι σ → Network ι σ
  | .own i x, net => net.put i (x.perform (services i).recorded (net.state i))
  | .arrive a b now, net =>
    match (net.published a)[net.arrived a b]? with
    | none => net
    | some m =>
      let s := startedOnce.foldl (fun s _ => (services b).recorded.receiveRemote now m s) (net.state b)
      { net.put b s with
        arrived := fun i j => if i = a ∧ j = b then net.arrived a b + 1 else net.arrived i j }
  | .store t, net => { net with store := t }

def runAll (ms : List (Action ι σ)) (net : Network ι σ) : Network ι σ :=
  ms.foldl (fun net m => m.run services net) net

/-- What an action reads off a connection at an instance. -/
def reading? (b : ι) (c : ConnectionId) (net : Network ι σ) : Action ι σ → Option (Received Event)
  | .own i x => if i = b then x.reading? c (net.site b).registry else none
  | _ => none

/-- Everything that is read off a connection at an instance, in order. -/
def readings (b : ι) (c : ConnectionId) : List (Action ι σ) → Network ι σ → List (Received Event)
  | [], _ => []
  | m :: ms, net => (m.reading? b c net).toList ++ readings b c ms (m.run services net)

end Action

/-- A node that was started once hands a message on as often as it has tasks for that. -/
theorem Node.handOn_of_started {n : Node}
    (h : n.dispatchers = Tasks.renew [] (Queue.ofSize Defaults.remoteCapacity)) (m : Message) :
    (n.handOn [m]).state = startedOnce.foldl (fun s _ => n.service.receiveRemote n.now m s) n.state := by
  have hone : (n.arrive m).dispatchers = [⟨(Queue.ofSize Defaults.remoteCapacity).push m, false⟩] := by
    rw [Node.arrive, h]
    rfl
  have hreads : ((Queue.ofSize Defaults.remoteCapacity).push m).receive.1 = .item m := rfl
  have hbacklog : ((Queue.ofSize Defaults.remoteCapacity).push m).backlog = 1 := rfl
  have htake : n.handOn [m] = (n.arrive m).take 0 := by
    simp [Node.handOn, Node.handOnAll, Node.takeAll, hone, hbacklog, List.range_succ]
  rw [htake, Node.take, hone]
  simp only [List.getElem?_cons_zero, hreads]
  rfl

/-- The state without what was taken down. -/
def Service.State.forget (s : Service.State (Posted σ)) : Service.State σ :=
  ⟨s.store.store, s.registry, s.recent, s.told⟩

namespace Service
variable (service : Service σ) (now : Instant) (s : State (Posted σ))

def forgetting {α : Type} (r : α × State (Posted σ)) : α × State σ := (r.1, r.2.forget)

theorem forgetting_sendStored (a : Address) (n : Notification) :
    forgetting (service.recorded.sendStored now a n s) = service.sendStored now a n s.forget := by
  have hstore : access (service.recorded.backend.store now n) s =
      ((service.backend.store now n s.store.store).1,
        s.withStore (s.store.setStore (service.backend.store now n s.store.store).2)) := rfl
  unfold sendStored
  rw [hstore, access_eq, State.forget]
  rcases (service.backend.store now n s.store.store).1 with fault | _ | old <;> rfl

theorem forgetting_send (n : Notification) :
    forgetting (service.recorded.send now n s) = service.send now n s.forget := by
  unfold send
  cases n.target with
  | none => rfl
  | some a =>
    simp only
    split
    · exact service.forgetting_sendStored now s a n
    · rfl

theorem forgetting_dispatch (n : Notification) :
    forgetting (service.recorded.dispatch now n s) = service.dispatch now n s.forget := by
  have hhooks : service.recorded.hooks = service.hooks := rfl
  unfold dispatch
  rw [← service.forgetting_send now s n, hhooks]
  cases problem? n with
  | some fault => rfl
  | none =>
    simp only
    split
    · rfl
    · rcases service.recorded.send now n s with ⟨fault | _, t⟩ <;> rfl

theorem forgetting_dismiss (id : Id) :
    forgetting (service.recorded.dismiss now id s) = service.dismiss now id s.forget := by
  have hmode : access (service.recorded.backend.mode id) s = ((service.backend.mode id s.store.store).1,
      s.withStore (s.store.setStore (service.backend.mode id s.store.store).2)) := rfl
  have hremove (t : State (Posted σ)) : access (service.recorded.backend.remove id) t =
      ((service.backend.remove id t.store.store).1,
        t.withStore (t.store.setStore (service.backend.remove id t.store.store).2)) := rfl
  have hmode' : access (service.backend.mode id) s.forget = ((service.backend.mode id s.store.store).1,
      s.forget.withStore (service.backend.mode id s.store.store).2) := rfl
  have hrecents : s.forget.recent = s.recent := rfl
  unfold dismiss
  rw [hmode, hmode', hrecents]
  by_cases hrecent : s.recent.contains id
  · rw [if_pos hrecent, if_pos hrecent]
    rfl
  · rw [if_neg hrecent, if_neg hrecent]
    rcases service.backend.mode id s.store.store with ⟨fault | _ | mode, t⟩
    · rfl
    · rfl
    · simp only [hremove, access_eq]
      split
      · simp only [State.withStore, Posted.setStore]
        rcases service.backend.remove id t with ⟨fault | _ | a, u⟩ <;> rfl
      · rfl

theorem forgetting_dismissGroup (a : Address) (group : String) :
    forgetting (service.recorded.dismissGroup now a group s) =
      service.dismissGroup now a group s.forget := by
  have hremove : access (service.recorded.backend.removeGroup a group) s =
      ((service.backend.removeGroup a group s.store.store).1,
        s.withStore (s.store.setStore (service.backend.removeGroup a group s.store.store).2)) := rfl
  unfold dismissGroup
  rw [hremove, access_eq, State.forget]
  rcases service.backend.removeGroup a group s.store.store with ⟨fault | _ | id, t⟩ <;> rfl

theorem forgetting_sweep : forgetting (access (service.recorded.backend.sweep service.settings now) s) =
    access (service.backend.sweep service.settings now) s.forget := by
  rw [access_eq, access_eq]
  unfold Backend.sweep
  cases cutoff now service.settings.queuedTtlSecs "queued" with
  | error fault => rfl
  | ok q =>
    cases cutoff now service.settings.timeseriesTtlSecs "timeseries" with
    | error fault => rfl
    | ok t => rfl

end Service

/-- Taking down what is published changes nothing. -/
theorem Step.forget_perform (service : Service σ) (x : Step) (s : Service.State (Posted σ)) :
    (x.perform service.recorded s).forget = x.perform service s.forget := by
  cases x with
  | call now c =>
    cases c with
    | notify fresh target kind mode group payload =>
      simp only [perform, Call.perform, Service.notify]
      split
      · rfl
      · exact congrArg Prod.snd (service.forgetting_dispatch now s _)
    | broadcast fresh kind group payload => exact congrArg Prod.snd (service.forgetting_dispatch now s _)
    | dismiss id => exact congrArg Prod.snd (service.forgetting_dismiss now s id)
    | dismissGroup a group => exact congrArg Prod.snd (service.forgetting_dismissGroup now s a group)
  | sweep now => exact congrArg Prod.snd (service.forgetting_sweep now s)
  | connect now as => rfl
  | unregister c => rfl
  | drop c => rfl
  | closeAll => rfl
  | receive c => rfl

section Recording
variable {service : Service σ} {now : Instant}

theorem Backend.Serves.sent_eq {b : Backend σ} {p p' : Posted σ} (h : b.recorded.Serves p p') :
    p'.sent = p.sent := by
  cases h <;> rfl

/-- What is emitted is taken down, stamped with the instance. -/
theorem Service.Does.sent {s s' : State (Posted σ)} {es : List Event} {ids : List Id}
    (h : service.recorded.Does now s es ids s') : ∃ new, s'.store.sent = s.store.sent ++ new ∧
      (∀ p ∈ new, p.1.origin = service.id) ∧ new.map (·.1.event) = es := by
  induction h with
  | nothing => exact ⟨[], (List.append_nil _).symm, fun _ hp => (nomatch hp), rfl⟩
  | serve h ht ih =>
    obtain ⟨new, hsent, hnew⟩ := ih
    exact ⟨new, ht.sent_eq.trans hsent, hnew⟩
  | remember h id ih => exact ih
  | @emit s' es ids h e ih =>
    obtain ⟨new, hsent, horigin, hes⟩ := ih
    let m : Message := ⟨service.id, e⟩
    refine ⟨new ++ [(m, (service.backend.publish m s'.store.store).1.isOk)], ?_, fun p hp => ?_, ?_⟩
    · rw [← List.append_assoc, ← hsent]
      rfl
    · rcases List.mem_append.1 hp with hp | hp
      · exact horigin p hp
      · rw [List.mem_singleton.1 hp]
    · rw [List.map_append, hes]
      rfl
  | tell h e ih => exact ih

end Recording

/-- A connection under some addresses, or one that was taken off the register, and its queue. As long as
nothing is lost, what was read before and what is still in the queue make up what was heard. -/
structure Registry.Holding (r : Registry) (c : ConnectionId) (scopes : Option (List Address))
    (readings : List (Received Event)) (heard : List Event) : Prop where
  sound : r.Sound
  known : c < r.next
  addresses : r.addresses c = scopes
  queue : ∃ q, r.queues.get? c = some q ∧
    (q.lost = 0 → (∀ n, .lagged n ∉ readings) → readings.filterMap Received.item? ++ q.items = heard)

namespace Registry.Holding
variable {r : Registry} {c : ConnectionId} {scopes : Option (List Address)}
  {readings : List (Received Event)} {heard : List Event}

/-- A connection that has just been opened. -/
theorem opened (hr : r.Sound) (now : Instant) (as : List Address) :
    (r.register now as).2.Holding r.next (some as) [] [] := by
  refine ⟨hr.register now as, Nat.lt_succ_self _, ?_, Queue.ofSize r.capacity, ?_, fun _ _ => rfl⟩
  · rw [addresses_register, if_pos rfl]
  · rw [queues_register, if_pos rfl]

variable (h : r.Holding c scopes readings heard)
include h

theorem deliverAll (now : Instant) (es : List Event) : (r.deliverAll now es).Holding c scopes readings
    (heard ++ es.filter fun e => scopes.any (isFor · e)) := by
  obtain ⟨hs, hroll, hqueues⟩ := deliverAll_spec now es h.sound
  obtain ⟨q, hq, hheard⟩ := h.queue
  have hhears : (fun e : Event => r.hears c e.target) = fun e => scopes.any (isFor · e) := by
    funext e
    rw [Registry.hears, h.addresses]
    rfl
  refine ⟨hs, hroll.next ▸ h.known, (hroll.addresses c).trans h.addresses, _,
    by rw [hqueues, hq]; rfl, fun hlost hlag => ?_⟩
  have hold : q.lost = 0 := Nat.le_zero.1 (hlost ▸ Queue.lost_le_foldl_push q _)
  rw [Queue.items_foldl_push hlost, ← List.append_assoc, hheard hold hlag, hhears]

theorem register (now : Instant) (as : List Address) :
    (r.register now as).2.Holding c scopes readings heard := by
  have hne : r.next ≠ c := Nat.ne_of_gt h.known
  refine ⟨h.sound.register now as, Nat.lt_succ_of_lt h.known, ?_, ?_⟩
  · rw [addresses_register, if_neg hne, h.addresses]
  · rw [queues_register, if_neg hne]
    exact h.queue

/-- Taking a connection off the register leaves what is in its queue. -/
theorem unregister (d : ConnectionId) :
    (r.unregister d).Holding c (if d = c then none else scopes) readings heard := by
  obtain ⟨q, hq, hheard⟩ := h.queue
  refine ⟨h.sound.unregister d, (next_unregister r d).symm ▸ h.known, ?_, ?_⟩
  · rw [addresses_unregister, h.addresses]
  · rw [queues_unregister, hq]
    refine ⟨_, rfl, ?_⟩
    split <;> exact hheard

theorem drop {d : ConnectionId} (hd : d ≠ c) : (r.drop d).Holding c scopes readings heard := by
  refine ⟨h.sound.drop d, (next_unregister r d).symm ▸ h.known, ?_, ?_⟩
  · rw [addresses_drop, if_neg hd, h.addresses]
  · rw [queues_drop, if_neg hd]
    exact h.queue

theorem closeAll : r.closeAll.2.Holding c none readings heard := by
  obtain ⟨q, hq, hheard⟩ := h.queue
  refine ⟨h.sound.closeAll, (sameShape_closeAll r).next ▸ h.known, addresses_closeAll r c, ?_⟩
  rw [queues_closeAll, hq]
  refine ⟨_, rfl, ?_⟩
  split <;> exact hheard

/-- What is read moves from the queue to the readings. -/
theorem receive (d : ConnectionId) : (r.receive d).2.Holding c scopes
    (readings ++ (Step.reading? c r (.receive d)).toList) heard := by
  have hroll := receive_sameRoll r d
  obtain ⟨q, hq, hheard⟩ := h.queue
  refine ⟨h.sound.receive d, hroll.next ▸ h.known, (hroll.addresses c).trans h.addresses, ?_⟩
  by_cases hd : d = c
  · subst hd
    have hreading : Step.reading? d r (.receive d) = some q.receive.1 := by
      rw [Step.reading?, if_pos rfl, Registry.receive, hq]
    rw [hreading, queues_receive, hq]
    refine ⟨q.receive.2, by simp, fun hlost hlag => ?_⟩
    have hnone : q.lost = 0 := by
      by_contra hne
      have hlagged : q.receive.1 = .lagged q.lost := by
        rw [Queue.receive, if_pos (Nat.pos_of_ne_zero hne)]
      exact hlag q.lost (by simp [hlagged])
    have hbefore := hheard hnone fun n hn => hlag n (List.mem_append_left _ hn)
    have hmoved := q.items_receive
    rw [← hbefore, ← hmoved, List.filterMap_append, List.append_assoc]
    cases q.receive.1 <;> rfl
  · have hreading : Step.reading? c r (.receive d) = none := if_neg hd
    rw [hreading, queues_receive, hq]
    refine ⟨q, by simp [hd], ?_⟩
    simpa using hheard

end Registry.Holding

end Tidings
