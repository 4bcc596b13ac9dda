import Tidings.Proofs.Effects
import Tidings.Proofs.Run
/-!
What a connection reads in a run: only events for an address that it was opened for, or for everyone.
-/
namespace Tidings

namespace Step

/-- The addresses that each connection of a run belongs to, in the order of their numbers. -/
def connected (xs : List Step) : List (List Address) :=
  xs.filterMap fun
    | .connect _ as => some as
    | _ => none

/-- What a step reads off a connection. -/
def reading? (c : ConnectionId) (r : Registry) : Step → Option (Received Event)
  | .receive d => if d = c then some (r.receive c).1 else none
  | _ => none

/-- Everything that is read off a connection in a run, in order. -/
def received (service : Service Memory) (c : ConnectionId) :
    List Step → Service.State Memory → List (Received Event)
  | [], _ => []
  | x :: xs, s => (x.reading? c s.registry).toList ++ received service c xs (x.run service s)

end Step

namespace Step
variable (service : Service Memory)

/-- A call does nothing to the register but deliver events. -/
theorem registry_call (now : Instant) (c : Call) (s : Service.State Memory) :
    ∃ es, ((Step.call now c).run service s).registry = s.registry.deliverAll now es := by
  obtain ⟨es, hes, _⟩ := c.perform_does service now s
  rw [← c.run_eq_perform] at hes
  exact ⟨es, hes.registry⟩

theorem registry_sweep (now : Instant) (s : Service.State Memory) :
    ((Step.sweep now).run service s).registry = s.registry :=
  (service.sweep_does now s).registry

theorem connected_cons (x : Step) (xs : List Step) :
    connected (x :: xs) = connected [x] ++ connected xs := List.filterMap_append (l := [x])

/-- Connections are numbered in the order in which they are opened. -/
theorem next_run (x : Step) (s : Service.State Memory) :
    (x.run service s).registry.next = s.registry.next + (connected [x]).length := by
  cases x with
  | call now c =>
    obtain ⟨es, hes⟩ := registry_call service now c s
    rw [hes]
    exact (Registry.sameShape_deliverAll s.registry now es).next
  | sweep now => exact congrArg Registry.next (registry_sweep service now s)
  | connect now as => rfl
  | unregister c => exact Registry.next_unregister s.registry c
  | drop c => exact Registry.next_unregister s.registry c
  | closeAll => exact (Registry.sameShape_closeAll s.registry).next
  | receive c => exact (Registry.sameShape_receive s.registry c).next

end Step

namespace Queue
variable {α : Type} {q : Queue α} {a b : α}

theorem mem_items_push (h : b ∈ (q.push a).items) : b ∈ q.items ∨ b = a := by
  unfold push at h
  split at h
  · simpa using h
  · rcases List.mem_append.1 h with h | h
    · exact .inl (List.mem_of_mem_drop h)
    · exact .inr (List.mem_singleton.1 h)

theorem mem_items_foldl_push {as : List α} (h : b ∈ (as.foldl push q).items) : b ∈ q.items ∨ b ∈ as := by
  induction as generalizing q with
  | nil => exact .inl h
  | cons a as ih =>
    rcases ih h with h | h
    · rcases mem_items_push h with h | rfl
      · exact .inl h
      · exact .inr List.mem_cons_self
    · exact .inr (List.mem_cons_of_mem a h)

theorem mem_items_receive (h : b ∈ q.receive.2.items) : b ∈ q.items := by
  unfold receive at h
  split at h
  · exact h
  · split at h
    · next hi =>
      rw [hi]
      exact List.mem_cons_of_mem _ h
    · exact h

theorem mem_items_of_receive (h : q.receive.1 = .item b) : b ∈ q.items := by
  unfold receive at h
  split at h
  · cases h
  · split at h
    · next hi =>
      cases h
      rw [hi]
      exact List.mem_cons_self
    · split at h <;> cases h

end Queue

namespace Registry

/-- What waits in a queue is for an address that the connection was opened for, or for everyone. -/
structure Routed (opened : List (List Address)) (r : Registry) : Prop where
  sound : r.Sound
  next : r.next = opened.length
  scopes : ∀ c as, r.addresses c = some as → opened[c]? = some as
  queues : ∀ c q, r.queues.get? c = some q → ∀ e ∈ q.items, ∀ a, e.target = some a →
    ∃ as, opened[c]? = some as ∧ a ∈ as

namespace Routed
variable {opened : List (List Address)} {r r' : Registry}

theorem ofCapacity (capacity : Nat) : Routed [] (.ofCapacity capacity) :=
  ⟨sound_ofCapacity capacity, rfl, fun _ _ h => (nomatch h), fun _ _ h => (nomatch h)⟩

variable (h : Routed opened r)
include h

/-- Fewer connections and less in the queues. -/
theorem shrink (hs : r'.Sound) (hnext : r'.next = r.next)
    (hscopes : ∀ c as, r'.addresses c = some as → r.addresses c = some as)
    (hqueues : ∀ c q', r'.queues.get? c = some q' → ∃ q, r.queues.get? c = some q ∧ q'.items ⊆ q.items) :
    Routed opened r' := by
  refine ⟨hs, hnext.trans h.next, fun c as ha => h.scopes c as (hscopes c as ha), fun c q' hq' e he => ?_⟩
  obtain ⟨q, hq, hsub⟩ := hqueues c q' hq'
  exact h.queues c q hq e (hsub he)

theorem unregister (c : ConnectionId) : Routed opened (r.unregister c) := by
  refine h.shrink (h.sound.unregister c) (next_unregister r c) (fun d as ha => ?_) fun d q' hq' => ?_
  · rw [addresses_unregister] at ha
    split at ha
    · cases ha
    · exact ha
  · rw [queues_unregister, Option.map_eq_some_iff] at hq'
    obtain ⟨q, hq, rfl⟩ := hq'
    refine ⟨q, hq, ?_⟩
    split <;> exact List.Subset.refl _

theorem drop (c : ConnectionId) : Routed opened (r.drop c) := by
  refine h.shrink (h.sound.drop c) (next_unregister r c) (fun d as ha => ?_) fun d q' hq' => ?_
  · rw [addresses_drop] at ha
    split at ha
    · cases ha
    · exact ha
  · rw [queues_drop] at hq'
    split at hq'
    · cases hq'
    · exact ⟨q', hq', List.Subset.refl _⟩

theorem closeAll : Routed opened r.closeAll.2 := by
  refine h.shrink h.sound.closeAll (sameShape_closeAll r).next (fun c as ha => ?_) fun c q' hq' => ?_
  · rw [addresses_closeAll] at ha
    cases ha
  · rw [queues_closeAll, Option.map_eq_some_iff] at hq'
    obtain ⟨q, hq, rfl⟩ := hq'
    refine ⟨q, hq, ?_⟩
    split <;> exact List.Subset.refl _

theorem receive (c : ConnectionId) : Routed opened (r.receive c).2 := by
  have hroll := receive_sameRoll r c
  refine h.shrink (h.sound.receive c) hroll.next (fun d as ha => ?_) fun d q' hq' => ?_
  · exact (hroll.addresses d).symm.trans ha
  · rw [queues_receive, Option.map_eq_some_iff] at hq'
    obtain ⟨q, hq, rfl⟩ := hq'
    refine ⟨q, hq, ?_⟩
    split
    · exact fun e he => Queue.mem_items_receive he
    · exact List.Subset.refl _

/-- An event goes to the connections of its target. -/
theorem deliverAll (now : Instant) (es : List Event) : Routed opened (r.deliverAll now es) := by
  obtain ⟨hs, hroll, hq⟩ := deliverAll_spec now es h.sound
  refine ⟨hs, hroll.next.trans h.next, fun c as ha => h.scopes c as ((hroll.addresses c).symm.trans ha),
    fun c q' hq' e he a hta => ?_⟩
  rw [hq, Option.map_eq_some_iff] at hq'
  obtain ⟨q, hold, rfl⟩ := hq'
  rcases Queue.mem_items_foldl_push he with he | he
  · exact h.queues c q hold e he a hta
  · have hears : r.hears c e.target := (List.mem_filter.1 he).2
    rw [hta] at hears
    obtain ⟨as, has, hm⟩ := (Option.any_eq_true _ _).1 hears
    exact ⟨as, h.scopes c as has, by simpa using hm⟩

theorem register (now : Instant) (as : List Address) : Routed (opened ++ [as]) (r.register now as).2 := by
  have hold {c : ConnectionId} {bs : List Address} (hc : opened[c]? = some bs) :
      (opened ++ [as])[c]? = some bs := by
    rw [List.getElem?_append_left (List.getElem?_eq_some_iff.1 hc).1, hc]
  refine ⟨h.sound.register now as, ?_, fun c bs hbs => ?_, fun c q hq e he a ha => ?_⟩
  · rw [List.length_append, ← h.next]
    rfl
  · rw [addresses_register] at hbs
    split at hbs
    · next hc =>
      rw [← hc, h.next, List.getElem?_concat_length, hbs]
    · exact hold (h.scopes c bs hbs)
  · rw [queues_register] at hq
    split at hq
    · cases hq
      cases he
    · obtain ⟨bs, hbs, hm⟩ := h.queues c q hq e he a ha
      exact ⟨bs, hold hbs, hm⟩

end Routed

end Registry

namespace Step
variable {service : Service Memory} {opened : List (List Address)} {s : Service.State Memory}

theorem routed_run (h : s.registry.Routed opened) (x : Step) :
    (x.run service s).registry.Routed (opened ++ connected [x]) := by
  have hsame {r : Registry} (hr : r.Routed opened) : r.Routed (opened ++ []) := by
    rwa [List.append_nil]
  cases x with
  | call now c =>
    obtain ⟨es, hes⟩ := registry_call service now c s
    rw [hes]
    exact hsame (h.deliverAll now es)
  | sweep now =>
    rw [registry_sweep]
    exact hsame h
  | connect now as => exact h.register now as
  | unregister c => exact hsame (h.unregister c)
  | drop c => exact hsame (h.drop c)
  | closeAll => exact hsame h.closeAll
  | receive c => exact hsame (h.receive c)

/-- What is read was in the queue. -/
theorem mem_of_reading? {r : Registry} {x : Step} {c : ConnectionId} {e : Event}
    (h : x.reading? c r = some (.item e)) : ∃ q, r.queues.get? c = some q ∧ e ∈ q.items := by
  cases x with
  | receive d =>
    simp only [reading?] at h
    split at h
    · have h := Option.some.inj h
      unfold Registry.receive at h
      split at h
      · cases h
      · next q hq => exact ⟨q, hq, Queue.mem_items_of_receive h⟩
    · cases h
  | _ => cases h

/-- A connection only ever reads what is for it. -/
theorem target_of_mem_received (h : s.registry.Routed opened) {xs : List Step} {c : ConnectionId}
    {e : Event} (he : .item e ∈ received service c xs s) {a : Address} (ha : e.target = some a) :
    ∃ as, (opened ++ connected xs)[c]? = some as ∧ a ∈ as := by
  induction xs generalizing s opened with
  | nil => cases he
  | cons x xs ih =>
    have hx : opened ++ connected (x :: xs) = opened ++ connected [x] ++ connected xs := by
      rw [connected_cons, List.append_assoc]
    rcases List.mem_append.1 he with he | he
    · obtain ⟨q, hq, hm⟩ := mem_of_reading? (Option.mem_toList.1 he)
      obtain ⟨as, has, hin⟩ := h.queues c q hq e hm a ha
      refine ⟨as, ?_, hin⟩
      rw [List.getElem?_append_left (List.getElem?_eq_some_iff.1 has).1, has]
    · rw [hx]
      exact ih (routed_run h x) he

end Step

end Tidings
