import Tidings.Proofs.Delivery
/-!
Connections come and go. Whatever is done to a register, its index stays in step with its connections.
-/
namespace Tidings.Registry

/-- What the index has under an address. -/
def listed (index : Dict Address (List ConnectionId)) (a : Address) : List ConnectionId :=
  (index.get? a).getD []

section Index
variable (id : ConnectionId) (index : Dict Address (List ConnectionId))

theorem listed_enlist (a a' : Address) : listed (enlist id index a) a' =
    if a = a' ∧ id ∉ listed index a then listed index a ++ [id] else listed index a' := by
  unfold enlist
  by_cases hm : id ∈ (index.get? a).getD []
  · simp [listed, hm]
  · simp only [if_neg hm, listed, Dict.get?_insert]
    by_cases heq : a = a'
    · subst heq; simp [hm]
    · simp [heq]

theorem mem_enlist (a a' : Address) (c : ConnectionId) :
    c ∈ listed (enlist id index a) a' ↔ c ∈ listed index a' ∨ (c = id ∧ a' = a) := by
  rw [listed_enlist]
  by_cases heq : a = a'
  · subst heq
    by_cases hm : id ∈ listed index a
    · by_cases hc : c = id <;> simp [hm, hc]
    · simp [hm]
  · simp [heq, Ne.symm heq]

theorem nodup_enlist (h : ∀ a, (listed index a).Nodup) (a a' : Address) :
    (listed (enlist id index a) a').Nodup := by
  rw [listed_enlist]
  split
  · next hm =>
    refine List.Nodup.append (h a) (List.nodup_singleton id) ?_
    exact List.disjoint_singleton.2 hm.2
  · exact h a'

theorem mem_foldl_enlist (as : List Address) (a : Address) (c : ConnectionId) :
    c ∈ listed (as.foldl (enlist id) index) a ↔ c ∈ listed index a ∨ (c = id ∧ a ∈ as) := by
  induction as generalizing index with
  | nil => simp
  | cons b as ih =>
    rw [List.foldl_cons, ih, mem_enlist, List.mem_cons]
    tauto

theorem nodup_foldl_enlist (h : ∀ a, (listed index a).Nodup) (as : List Address) (a : Address) :
    (listed (as.foldl (enlist id) index) a).Nodup := by
  induction as generalizing index with
  | nil => exact h a
  | cons b as ih => exact ih _ (nodup_enlist id index h b)

theorem listed_delist (a a' : Address) : listed (delist id index a) a' =
    if a = a' then (listed index a').filter (· ≠ id) else listed index a' := by
  unfold delist
  cases hg : index.get? a with
  | none =>
    by_cases heq : a = a'
    · subst heq; simp [listed, hg]
    · simp [heq]
  | some ids =>
    by_cases hrest : ids.filter (· ≠ id) = []
    · simp only [if_pos hrest, listed, Dict.get?_erase]
      by_cases heq : a = a'
      · subst heq
        simpa [hg] using hrest
      · simp [heq]
    · simp only [if_neg hrest, listed, Dict.get?_insert]
      by_cases heq : a = a'
      · subst heq; simp [hg]
      · simp [heq]

theorem mem_foldl_delist (as : List Address) (a : Address) (c : ConnectionId) :
    c ∈ listed (as.foldl (delist id) index) a ↔ c ∈ listed index a ∧ ¬ (c = id ∧ a ∈ as) := by
  induction as generalizing index with
  | nil => simp
  | cons b as ih =>
    rw [List.foldl_cons, ih, listed_delist, List.mem_cons]
    by_cases heq : b = a
    · subst heq
      simp only [if_true, List.mem_filter, decide_eq_true_eq]
      tauto
    · simp only [if_neg heq, Ne.symm heq, false_or]

theorem nodup_foldl_delist (h : ∀ a, (listed index a).Nodup) (as : List Address) (a : Address) :
    (listed (as.foldl (delist id) index) a).Nodup := by
  induction as generalizing index with
  | nil => exact h a
  | cons b as ih =>
    refine ih _ fun a' => ?_
    rw [listed_delist]
    split
    · exact (h a').filter _
    · exact h a'

end Index

variable {r : Registry}

theorem addresses_register (r : Registry) (now : Instant) (as : List Address) (c : ConnectionId) :
    (r.register now as).2.addresses c = if r.next = c then some as else r.addresses c := by
  simp only [addresses, register, Dict.get?_insert]
  split <;> rfl

theorem queues_register (r : Registry) (now : Instant) (as : List Address) (c : ConnectionId) :
    (r.register now as).2.queues.get? c =
      if r.next = c then some (Queue.ofSize r.capacity) else r.queues.get? c :=
  Dict.get?_insert _ _ _ _

theorem Sound.register (h : r.Sound) (now : Instant) (as : List Address) :
    (r.register now as).2.Sound where
  mem_members a c := by
    have hm : c ∈ (r.register now as).2.members a ↔ c ∈ r.members a ∨ (c = r.next ∧ a ∈ as) :=
      mem_foldl_enlist r.next r.byAddress as a c
    rw [hm, addresses_register, h.mem_members]
    by_cases hc : r.next = c
    · subst hc
      simp [h.below r.next (Nat.le_refl _)]
    · simp [hc, Ne.symm hc]
  nodup_members a := nodup_foldl_enlist r.next r.byAddress h.nodup_members as a
  hasQueue c hc := by
    rw [queues_register]
    rw [addresses_register] at hc
    split
    · rfl
    · next hne => exact h.hasQueue c (by simpa [hne] using hc)
  below c hc := by
    have hlt : r.next < c := hc
    rw [addresses_register, if_neg (Nat.ne_of_lt hlt)]
    exact h.below c (Nat.le_of_lt hlt)

theorem addresses_unregister (r : Registry) (c c' : ConnectionId) :
    (r.unregister c).addresses c' = if c = c' then none else r.addresses c' := by
  unfold unregister
  cases hc : r.connections.get? c with
  | none =>
    by_cases heq : c = c'
    · subst heq; simp [addresses, hc]
    · simp [heq]
  | some conn =>
    simp only [addresses, Dict.get?_erase]
    split <;> rfl

theorem queues_unregister (r : Registry) (c c' : ConnectionId) :
    (r.unregister c).queues.get? c' = (r.queues.get? c').map fun q =>
      if c = c' ∧ (r.addresses c).isSome then q.close else q := by
  unfold unregister
  cases hc : r.connections.get? c with
  | none => simp [addresses, hc]
  | some conn =>
    cases hq : r.queues.get? c with
    | none =>
      by_cases heq : c = c'
      · subst heq; simp [hq]
      · simp [heq]
    | some q =>
      simp only [Dict.get?_insert]
      by_cases heq : c = c'
      · subst heq; simp [hq, addresses, hc]
      · simp [heq]

theorem next_unregister (r : Registry) (c : ConnectionId) : (r.unregister c).next = r.next := by
  unfold unregister
  split <;> rfl

theorem Sound.unregister (h : r.Sound) (c : ConnectionId) : (r.unregister c).Sound where
  mem_members a c' := by
    have hm : c' ∈ (r.unregister c).members a ↔ c' ∈ r.members a ∧
        ¬ (c' = c ∧ ∃ as, r.addresses c = some as ∧ a ∈ as) := by
      unfold Registry.unregister
      cases hc : r.connections.get? c with
      | none => simp [addresses, hc]
      | some conn =>
        refine (mem_foldl_delist c r.byAddress conn.addresses a c').trans ?_
        simp [addresses, hc, members, listed]
    rw [hm, addresses_unregister, h.mem_members]
    by_cases heq : c = c'
    · subst heq; simp
    · simp [heq, Ne.symm heq]
  nodup_members a := by
    unfold Registry.unregister
    cases hc : r.connections.get? c with
    | none => exact h.nodup_members a
    | some conn => exact nodup_foldl_delist c r.byAddress h.nodup_members conn.addresses a
  hasQueue c' hc := by
    rw [queues_unregister, Option.isSome_map]
    rw [addresses_unregister] at hc
    by_cases heq : c = c'
    · simp [heq] at hc
    · exact h.hasQueue c' (by simpa [heq] using hc)
  below c' hc := by
    rw [next_unregister] at hc
    rw [addresses_unregister, h.below c' hc, ite_self]

theorem addresses_drop (r : Registry) (c c' : ConnectionId) :
    (r.drop c).addresses c' = if c = c' then none else r.addresses c' :=
  addresses_unregister r c c'

theorem queues_drop_of_ne (r : Registry) {c c' : ConnectionId} (h : c ≠ c') :
    (r.drop c).queues.get? c' = r.queues.get? c' := by
  have hq := queues_unregister r c c'
  simp only [h, false_and, if_false, Option.map_id'] at hq
  rw [drop, Dict.get?_erase, if_neg h, hq]

theorem queues_drop (r : Registry) (c c' : ConnectionId) :
    (r.drop c).queues.get? c' = if c = c' then none else r.queues.get? c' := by
  by_cases h : c = c'
  · rw [drop, Dict.get?_erase, if_pos h, if_pos h]
  · rw [queues_drop_of_ne r h, if_neg h]

theorem Sound.drop (h : r.Sound) (c : ConnectionId) : (r.drop c).Sound where
  mem_members := (h.unregister c).mem_members
  nodup_members := (h.unregister c).nodup_members
  below := (h.unregister c).below
  hasQueue c' hc := by
    rw [addresses_drop] at hc
    by_cases heq : c = c'
    · simp [heq] at hc
    · rw [queues_drop_of_ne r heq]
      exact h.hasQueue c' (by simpa [heq] using hc)

theorem foldl_unregister_sound (h : r.Sound) (cs : List ConnectionId) :
    (cs.foldl Registry.unregister r).Sound := by
  induction cs generalizing r with
  | nil => exact h
  | cons c cs ih => exact ih (h.unregister c)

/-- Taking several connections off the register, some of them perhaps twice. -/
theorem foldl_unregister (r : Registry) (cs : List ConnectionId) (c : ConnectionId) :
    (cs.foldl Registry.unregister r).addresses c = (if c ∈ cs then none else r.addresses c) ∧
      (cs.foldl Registry.unregister r).queues.get? c = (r.queues.get? c).map fun q =>
        if c ∈ cs ∧ (r.addresses c).isSome then q.close else q := by
  induction cs generalizing r with
  | nil => simp
  | cons d cs ih =>
    obtain ⟨haddresses, hqueues⟩ := ih (r.unregister d)
    rw [addresses_unregister] at haddresses
    rw [addresses_unregister, queues_unregister, Option.map_map] at hqueues
    by_cases hd : d = c
    · subst hd
      refine ⟨haddresses.trans (by simp), hqueues.trans ?_⟩
      simp [Function.comp_def]
    · have hmem : c ∈ d :: cs ↔ c ∈ cs := by simp [Ne.symm hd]
      refine ⟨haddresses.trans (by simp [hd, hmem]), hqueues.trans ?_⟩
      simp [hd, hmem, Function.comp_def]

theorem mem_keys_connections (r : Registry) (c : ConnectionId) :
    c ∈ r.connections.keys ↔ (r.addresses c).isSome := by
  rw [Dict.mem_keys_iff, addresses]
  cases r.connections.get? c <;> simp

theorem addresses_closeAll (r : Registry) (c : ConnectionId) : r.closeAll.2.addresses c = none := by
  refine (foldl_unregister r _ c).1.trans ?_
  simp only [mem_keys_connections]
  cases r.addresses c <;> rfl

theorem queues_closeAll (r : Registry) (c : ConnectionId) : r.closeAll.2.queues.get? c =
    (r.queues.get? c).map fun q => if (r.addresses c).isSome then q.close else q := by
  refine (foldl_unregister r _ c).2.trans ?_
  simp only [mem_keys_connections, and_self]

theorem Sound.closeAll (h : r.Sound) : r.closeAll.2.Sound := foldl_unregister_sound h _

/-- Reading leaves everything but one queue as it is. -/
theorem receive_sameRoll (r : Registry) (c : ConnectionId) : SameRoll r (r.receive c).2 := by
  unfold receive
  split <;> exact ⟨rfl, rfl, fun _ => rfl⟩

theorem queues_receive (r : Registry) (c c' : ConnectionId) :
    (r.receive c).2.queues.get? c' =
      (r.queues.get? c').map fun q => if c = c' then q.receive.2 else q := by
  unfold receive
  cases hq : r.queues.get? c with
  | none =>
    by_cases heq : c = c'
    · subst heq; simp [hq]
    · simp [heq]
  | some q =>
    simp only [Dict.get?_insert]
    by_cases heq : c = c'
    · subst heq; simp [hq]
    · simp [heq]

theorem Sound.receive (h : r.Sound) (c : ConnectionId) : (r.receive c).2.Sound := by
  refine h.of_sameRoll (receive_sameRoll r c) fun c' hq => ?_
  rw [queues_receive]
  simpa using hq

section Shape

/-- What no operation but a registration changes: the room of a queue, and the number of the next
connection. -/
structure SameShape (r r' : Registry) : Prop where
  capacity : r'.capacity = r.capacity
  next : r'.next = r.next

theorem SameShape.symm {r r' : Registry} (h : SameShape r r') : SameShape r' r :=
  ⟨h.capacity.symm, h.next.symm⟩

theorem SameShape.trans {r r' r'' : Registry} (h : SameShape r r') (h' : SameShape r' r'') :
    SameShape r r'' :=
  ⟨h'.capacity.trans h.capacity, h'.next.trans h.next⟩

theorem sameShape_unregister (r : Registry) (c : ConnectionId) : SameShape r (r.unregister c) := by
  unfold unregister
  split <;> exact ⟨rfl, rfl⟩

theorem sameShape_closeAll (r : Registry) : SameShape r r.closeAll.2 := by
  have hall (cs : List ConnectionId) (r : Registry) : SameShape r (cs.foldl Registry.unregister r) := by
    induction cs generalizing r with
    | nil => exact ⟨rfl, rfl⟩
    | cons c cs ih => exact (sameShape_unregister r c).trans (ih _)
  exact hall _ r

theorem sameShape_receive (r : Registry) (c : ConnectionId) : SameShape r (r.receive c).2 := by
  unfold receive
  split <;> exact ⟨rfl, rfl⟩

theorem sameShape_deliver (r : Registry) (now : Instant) (e : Event) :
    SameShape r (r.deliver now e).2 := by
  have hall (cs : List ConnectionId) (n : Nat) (r : Registry) :
      SameShape r (cs.foldl (send now e) (n, r)).2 := by
    induction cs generalizing n r with
    | nil => exact ⟨rfl, rfl⟩
    | cons c cs ih =>
      have hsend : SameShape r (send now e (n, r) c).2 := by
        simp only [send]
        split <;> exact ⟨rfl, rfl⟩
      exact hsend.trans (ih _ _)
  exact hall _ 0 r

theorem sameShape_deliverAll (r : Registry) (now : Instant) (es : List Event) :
    SameShape r (r.deliverAll now es) := by
  induction es generalizing r with
  | nil => exact ⟨rfl, rfl⟩
  | cons e es ih => exact (sameShape_deliver r now e).trans (ih _)

end Shape

end Tidings.Registry
