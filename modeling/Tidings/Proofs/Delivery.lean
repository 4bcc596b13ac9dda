import Mathlib.Data.List.Nodup
import Tidings.Proofs.Dict
import Tidings.Registry
/-!
Who hears what. The index of a register and its connections say the same, so an event reaches the queue of
every connection that belongs to its target once, and no other queue.
-/
namespace Tidings.Registry

/-- The addresses that a registered connection belongs to. -/
def addresses (r : Registry) (c : ConnectionId) : Option (List Address) :=
  (r.connections.get? c).map (·.addresses)

/-- Whether an event for a target goes to a connection. -/
def hears (r : Registry) (c : ConnectionId) (target : Option Address) : Bool :=
  (r.addresses c).any fun as => target.all (· ∈ as)

/-- The index agrees with the connections, and these have their queues. -/
structure Sound (r : Registry) : Prop where
  mem_members : ∀ a c, c ∈ r.members a ↔ ∃ as, r.addresses c = some as ∧ a ∈ as
  nodup_members : ∀ a, (r.members a).Nodup
  hasQueue : ∀ c, (r.addresses c).isSome → (r.queues.get? c).isSome
  below : ∀ c, r.next ≤ c → r.addresses c = none

/-- Two registers with the same connections under the same addresses. -/
structure SameRoll (r r' : Registry) : Prop where
  index : r'.byAddress = r.byAddress
  next : r'.next = r.next
  addresses : ∀ c, r'.addresses c = r.addresses c

variable {r r' r'' : Registry}

theorem SameRoll.refl (r : Registry) : SameRoll r r := ⟨rfl, rfl, fun _ => rfl⟩

theorem SameRoll.trans (h : SameRoll r r') (h' : SameRoll r' r'') : SameRoll r r'' :=
  ⟨h'.index.trans h.index, h'.next.trans h.next, fun c => (h'.addresses c).trans (h.addresses c)⟩

theorem SameRoll.hears (h : SameRoll r r') (c : ConnectionId) (target : Option Address) :
    r'.hears c target = r.hears c target := by
  rw [Registry.hears, Registry.hears, h.addresses]

theorem Sound.of_sameRoll (h : r.Sound) (hr : SameRoll r r')
    (hq : ∀ c, (r.queues.get? c).isSome → (r'.queues.get? c).isSome) : r'.Sound where
  mem_members a c := by
    rw [members, hr.index, hr.addresses]
    exact h.mem_members a c
  nodup_members a := by
    rw [members, hr.index]
    exact h.nodup_members a
  hasQueue c hc := by
    rw [hr.addresses] at hc
    exact hq c (h.hasQueue c hc)
  below c hc := by
    rw [hr.addresses]
    exact h.below c (by rwa [hr.next] at hc)

theorem sound_ofCapacity (capacity : Nat) : (ofCapacity capacity).Sound where
  mem_members a c := by simp [members, ofCapacity, addresses]
  nodup_members a := by simp [members, ofCapacity]
  hasQueue c hc := by simp [ofCapacity, addresses] at hc
  below c _ := by simp [ofCapacity, addresses]

theorem mem_recipients (h : r.Sound) (e : Event) (c : ConnectionId) :
    c ∈ r.recipients e ↔ r.hears c e.target := by
  unfold recipients hears
  cases e.target with
  | none =>
    rw [Dict.mem_keys_iff]
    cases hc : r.connections.get? c with
    | none => simp [addresses, hc]
    | some conn => simp [addresses, hc]
  | some a =>
    rw [h.mem_members]
    cases hc : r.addresses c with
    | none => simp
    | some as => simp

theorem nodup_recipients (h : r.Sound) (e : Event) : (r.recipients e).Nodup := by
  unfold recipients
  cases e.target with
  | none => exact r.connections.distinct
  | some a => exact h.nodup_members a

section Send
variable (now : Instant) (e : Event)

theorem send_sameRoll (n : Nat) (r : Registry) (c : ConnectionId) :
    SameRoll r (send now e (n, r) c).2 := by
  simp only [send]
  split
  · next conn q hc hq =>
    refine ⟨rfl, rfl, fun c' => ?_⟩
    show (Dict.get? _ c').map _ = _
    rw [Dict.get?_insert, addresses]
    by_cases heq : c = c'
    · subst heq; simp [hc]
    · simp [heq]
  · exact SameRoll.refl r

theorem send_queues (n : Nat) (h : r.Sound) (c c' : ConnectionId) (hc : (r.addresses c).isSome) :
    (send now e (n, r) c).2.queues.get? c' =
      (r.queues.get? c').map fun q => if c = c' then q.push e else q := by
  obtain ⟨q, hq⟩ := Option.isSome_iff_exists.1 (h.hasQueue c hc)
  obtain ⟨as, has⟩ := Option.isSome_iff_exists.1 hc
  obtain ⟨conn, hconn, _⟩ := Option.map_eq_some_iff.1 has
  simp only [send, hconn, hq, Dict.get?_insert]
  by_cases heq : c = c'
  · subst heq; simp [hq]
  · simp [heq]

theorem send_sound (n : Nat) (h : r.Sound) (c : ConnectionId) (hc : (r.addresses c).isSome) :
    (send now e (n, r) c).2.Sound := by
  refine h.of_sameRoll (send_sameRoll now e n r c) fun c' hq => ?_
  rw [send_queues now e n h c c' hc]
  simpa using hq

/-- A round of sending reaches each queue once. -/
theorem foldl_send (ids : List ConnectionId) (hn : ids.Nodup) (n : Nat) (h : r.Sound)
    (hr : ∀ c ∈ ids, (r.addresses c).isSome) :
    (ids.foldl (send now e) (n, r)).2.Sound ∧ SameRoll r (ids.foldl (send now e) (n, r)).2 ∧
      ∀ c, (ids.foldl (send now e) (n, r)).2.queues.get? c =
        (r.queues.get? c).map fun q => if c ∈ ids then q.push e else q := by
  induction ids generalizing n r with
  | nil => exact ⟨h, SameRoll.refl r, fun c => by simp⟩
  | cons id ids ih =>
    have hid := hr id List.mem_cons_self
    have hroll := send_sameRoll now e n r id
    obtain ⟨hnot, hn⟩ := List.nodup_cons.1 hn
    have hrest : ∀ c ∈ ids, ((send now e (n, r) id).2.addresses c).isSome := fun c hc => by
      rw [hroll.addresses]
      exact hr c (List.mem_cons_of_mem id hc)
    obtain ⟨hs, hroll', hq⟩ := ih hn (send now e (n, r) id).1 (send_sound now e n h id hid) hrest
    refine ⟨hs, hroll.trans hroll', fun c => (hq c).trans ?_⟩
    rw [send_queues now e n h id c hid, Option.map_map]
    refine congrArg (fun f => Option.map f (r.queues.get? c)) (funext fun q => ?_)
    by_cases heq : id = c
    · subst heq; simp [hnot]
    · simp [heq, Ne.symm heq]

theorem deliver_spec (h : r.Sound) :
    (r.deliver now e).2.Sound ∧ SameRoll r (r.deliver now e).2 ∧
      ∀ c, (r.deliver now e).2.queues.get? c =
        (r.queues.get? c).map fun q => if r.hears c e.target then q.push e else q := by
  have hr : ∀ c ∈ r.recipients e, (r.addresses c).isSome := by
    intro c hc
    rw [mem_recipients h] at hc
    cases ha : r.addresses c with
    | none => simp [hears, ha] at hc
    | some as => rfl
  obtain ⟨hs, hroll, hq⟩ := foldl_send now e _ (nodup_recipients h e) 0 h hr
  refine ⟨hs, hroll, fun c => (hq c).trans ?_⟩
  simp only [mem_recipients h]

end Send

/-- Events delivered one after the other. -/
def deliverAll (r : Registry) (now : Instant) (es : List Event) : Registry :=
  es.foldl (fun r e => (r.deliver now e).2) r

theorem deliverAll_append (r : Registry) (now : Instant) (es es' : List Event) :
    r.deliverAll now (es ++ es') = (r.deliverAll now es).deliverAll now es' :=
  List.foldl_append

theorem deliverAll_spec (now : Instant) (es : List Event) (h : r.Sound) :
    (r.deliverAll now es).Sound ∧ SameRoll r (r.deliverAll now es) ∧
      ∀ c, (r.deliverAll now es).queues.get? c =
        (r.queues.get? c).map fun q => (es.filter fun e => r.hears c e.target).foldl Queue.push q := by
  induction es generalizing r with
  | nil => exact ⟨h, SameRoll.refl r, fun c => by simp [deliverAll]⟩
  | cons e es ih =>
    obtain ⟨hs, hroll, hq⟩ := deliver_spec now e h
    obtain ⟨hs', hroll', hq'⟩ := ih hs
    refine ⟨hs', hroll.trans hroll', fun c => (hq' c).trans ?_⟩
    rw [hq, Option.map_map]
    refine congrArg (fun f => Option.map f (r.queues.get? c)) (funext fun q => ?_)
    simp only [Function.comp_apply, hroll.hears, List.filter_cons]
    split <;> rfl

/-- Between two registers every connection got those of some events that are for it, in order. -/
def Got (r r' : Registry) (es : List Event) : Prop :=
  ∀ c, r'.queues.get? c =
    (r.queues.get? c).map fun q => (es.filter fun e => r.hears c e.target).foldl Queue.push q

theorem got_deliverAll (now : Instant) (es : List Event) (h : r.Sound) : r.Got (r.deliverAll now es) es :=
  (deliverAll_spec now es h).2.2

/-- What a connection got are the events for its addresses. -/
theorem Got.queue {es : List Event} (h : r.Got r' es) (hr : r.Sound) {c : ConnectionId}
    {as : List Address} (hc : r.addresses c = some as) : ∃ q, r.queues.get? c = some q ∧ r'.queues.get? c =
      some ((es.filter fun e => e.target.all (· ∈ as)).foldl Queue.push q) := by
  obtain ⟨q, hq⟩ := Option.isSome_iff_exists.1 (hr.hasQueue c (by simp [hc]))
  have hears : (fun e : Event => r.hears c e.target) = fun e => e.target.all (· ∈ as) := by
    funext e
    rw [hears, hc]
    rfl
  refine ⟨q, hq, ?_⟩
  rw [h c, hq, hears]
  rfl

end Tidings.Registry
