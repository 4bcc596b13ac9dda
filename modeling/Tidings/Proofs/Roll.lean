import Tidings.Proofs.Registration
import Tidings.Proofs.Unread
/-!
The roll of a register. Whatever is done to a register, in whatever order, who is on it and under which
addresses is told from what was done; the index has just that, and events go by it.
-/
namespace Tidings.Registry

/-- What can be done to a register. -/
inductive Act where
  | register (now : Instant) (as : List Address)
  | unregister (c : ConnectionId)
  | drop (c : ConnectionId)
  | closeAll
  | deliver (now : Instant) (e : Event)
  | receive (c : ConnectionId)

/-- Who is on a register: the connections in the order in which they came, each with its addresses, and the
number that the next one will have. -/
structure Roll where
  next : ConnectionId
  members : List (ConnectionId × List Address)

/-- The connections that an event is for. -/
def Roll.hearing (roll : Roll) (e : Event) : List ConnectionId :=
  (roll.members.filter fun m => e.target.all (· ∈ m.2)).map (·.1)

namespace Act

def run : Act → Registry → Registry
  | .register now as, r => (r.register now as).2
  | .unregister c, r => r.unregister c
  | .drop c, r => r.drop c
  | .closeAll, r => r.closeAll.2
  | .deliver now e, r => (r.deliver now e).2
  | .receive c, r => (r.receive c).2

def runAll (xs : List Act) (r : Registry) : Registry := xs.foldl (fun r x => x.run r) r

/-- The roll after an act. -/
def enrol : Act → Roll → Roll
  | .register _ as, roll => ⟨roll.next + 1, roll.members ++ [(roll.next, as)]⟩
  | .unregister c, roll | .drop c, roll => { roll with members := roll.members.filter (·.1 ≠ c) }
  | .closeAll, roll => { roll with members := [] }
  | .deliver _ _, roll | .receive _, roll => roll

def enrolAll (xs : List Act) : Roll := xs.foldl (fun roll x => x.enrol roll) ⟨0, []⟩

/-- What an act reads off a connection. -/
def reading? (c : ConnectionId) (r : Registry) : Act → Option (Received Event)
  | .receive d => if d = c then some (r.receive c).1 else none
  | _ => none

/-- Everything that is read off a connection, in order. -/
def readings (c : ConnectionId) : List Act → Registry → List (Received Event)
  | [], _ => []
  | x :: xs, r => (x.reading? c r).toList ++ readings c xs (x.run r)

/-- How often a connection is read. -/
def reads (c : ConnectionId) (xs : List Act) : Nat :=
  (xs.filter fun | .receive d => d = c | _ => false).length

/-- What an act delivers to a connection. -/
def delivered? (c : ConnectionId) (r : Registry) : Act → Option Event
  | .deliver _ e => if r.hears c e.target then some e else none
  | _ => none

/-- All events that are delivered to a connection, in order. -/
def heard (c : ConnectionId) : List Act → Registry → List Event
  | [], _ => []
  | x :: xs, r => (x.delivered? c r).toList ++ heard c xs (x.run r)

/-- What an act does to the queue of a connection. -/
def onQueue (c : ConnectionId) (r : Registry) : Act → Queue Event → Queue Event
  | .deliver _ e, q => if r.hears c e.target then q.push e else q
  | .receive d, q => if d = c then q.receive.2 else q
  | .unregister d, q => if d = c ∧ (r.addresses d).isSome then q.close else q
  | .closeAll, q => if (r.addresses c).isSome then q.close else q
  | _, q => q

/-- Whether an act takes a connection off the register. -/
def Removes (c : ConnectionId) : Act → Prop
  | .unregister d | .drop d => d = c
  | .closeAll => True
  | _ => False

instance (c : ConnectionId) : (x : Act) → Decidable (x.Removes c)
  | .unregister d | .drop d => inferInstanceAs (Decidable (d = c))
  | .closeAll => inferInstanceAs (Decidable True)
  | .register _ _ | .deliver _ _ | .receive _ => inferInstanceAs (Decidable False)

end Act

theorem Sound.run {r : Registry} (h : r.Sound) (x : Act) : (x.run r).Sound := by
  cases x with
  | register now as => exact h.register now as
  | unregister c => exact h.unregister c
  | drop c => exact h.drop c
  | closeAll => exact h.closeAll
  | deliver now e => exact (deliver_spec now e h).1
  | receive c => exact h.receive c

theorem Sound.runAll {r : Registry} (h : r.Sound) (xs : List Act) : (Act.runAll xs r).Sound := by
  induction xs generalizing r with
  | nil => exact h
  | cons x xs ih => exact ih (h.run x)

/-- No address in an index stands for nobody. -/
def Occupied (index : Dict Address (List ConnectionId)) : Prop := ∀ a, index.get? a ≠ some []

section Occupied
variable (id : ConnectionId) {index : Dict Address (List ConnectionId)} (h : Occupied index)
include h

theorem occupied_enlist (b : Address) : Occupied (enlist id index b) := by
  intro a
  unfold enlist
  by_cases hm : id ∈ (index.get? b).getD []
  · rw [if_pos hm]
    exact h a
  · rw [if_neg hm, Dict.get?_insert]
    split
    · simp
    · exact h a

theorem occupied_delist (b : Address) : Occupied (delist id index b) := by
  intro a
  unfold delist
  cases index.get? b with
  | none => exact h a
  | some ids =>
    by_cases hrest : ids.filter (· ≠ id) = []
    · simp only [if_pos hrest, Dict.get?_erase]
      split
      · simp
      · exact h a
    · simp only [if_neg hrest, Dict.get?_insert]
      split
      · simpa using hrest
      · exact h a

theorem occupied_foldl {f : Dict Address (List ConnectionId) → Address → Dict Address (List ConnectionId)}
    (hf : ∀ index, Occupied index → ∀ b, Occupied (f index b)) (as : List Address) :
    Occupied (as.foldl f index) := by
  induction as generalizing index with
  | nil => exact h
  | cons b as ih => exact ih (hf index h b)

/-- An index in which no address stands for nobody is known by whom it lists. -/
theorem get?_eq_of_listed {index' : Dict Address (List ConnectionId)} (h' : Occupied index') {a : Address}
    (hlisted : listed index a = listed index' a) : index.get? a = index'.get? a := by
  unfold listed at hlisted
  cases ha : index.get? a with
  | none =>
    cases ha' : index'.get? a with
    | none => rfl
    | some ids => exact absurd (by simpa [ha, ha'] using hlisted.symm) fun hnil : ids = [] => h' a (hnil ▸ ha')
  | some ids =>
    cases ha' : index'.get? a with
    | none => exact absurd (by simpa [ha, ha'] using hlisted) fun hnil : ids = [] => h a (hnil ▸ ha)
    | some ids' => exact congrArg some (by simpa [ha, ha'] using hlisted)

end Occupied

section Index
variable (id : ConnectionId) (index : Dict Address (List ConnectionId))

theorem listed_foldl_enlist (as : List Address) (a : Address) :
    listed (as.foldl (enlist id) index) a =
      if a ∈ as ∧ id ∉ listed index a then listed index a ++ [id] else listed index a := by
  induction as generalizing index with
  | nil => simp
  | cons b as ih =>
    rw [List.foldl_cons, ih, listed_enlist]
    by_cases hb : b = a
    · subst hb
      by_cases hid : id ∈ listed index b <;> simp [hid]
    · simp [hb, Ne.symm hb]

theorem listed_foldl_delist (as : List Address) (a : Address) :
    listed (as.foldl (delist id) index) a =
      if a ∈ as then (listed index a).filter (· ≠ id) else listed index a := by
  induction as generalizing index with
  | nil => simp
  | cons b as ih =>
    rw [List.foldl_cons, ih, listed_delist]
    by_cases hb : b = a
    · subst hb
      simp
    · simp [hb, Ne.symm hb]

/-- Who is put into an index and taken out again was never there. -/
theorem listed_delist_enlist (hnew : ∀ a, id ∉ listed index a) (as : List Address) (a : Address) :
    listed (as.foldl (delist id) (as.foldl (enlist id) index)) a = listed index a := by
  rw [listed_foldl_delist, listed_foldl_enlist]
  by_cases ha : a ∈ as
  · have hrest : (listed index a).filter (· ≠ id) = listed index a := by
      refine List.filter_eq_self.2 fun c hc => ?_
      simpa using fun heq : c = id => hnew a (heq ▸ hc)
    rw [if_pos ha, if_pos ⟨ha, hnew a⟩, List.filter_append, hrest]
    simp
  · rw [if_neg ha, if_neg fun h => ha h.1]

end Index

/-- A register in step with a roll. -/
structure Enrolled (r : Registry) (roll : Roll) : Prop where
  occupied : Occupied r.byAddress
  next : roll.next = r.next
  distinct : (roll.members.map (·.1)).Nodup
  addresses : ∀ c as, r.addresses c = some as ↔ (c, as) ∈ roll.members

theorem occupied_unregister {r : Registry} (h : Occupied r.byAddress) (c : ConnectionId) :
    Occupied (r.unregister c).byAddress := by
  unfold unregister
  cases r.connections.get? c with
  | none => exact h
  | some conn => exact occupied_foldl h (fun _ hi => occupied_delist c hi) conn.addresses

theorem occupied_closeAll {r : Registry} (h : Occupied r.byAddress) : Occupied r.closeAll.2.byAddress := by
  unfold closeAll
  induction r.connections.keys generalizing r with
  | nil => exact h
  | cons c cs ih => exact ih (occupied_unregister h c)

namespace Enrolled
variable {r : Registry} {roll : Roll}

theorem ofCapacity (capacity : Nat) : Enrolled (.ofCapacity capacity) ⟨0, []⟩ where
  occupied a := by simp [Registry.ofCapacity]
  next := rfl
  distinct := List.nodup_nil
  addresses c as := by simp [Registry.ofCapacity, Registry.addresses]

variable (h : r.Enrolled roll)
include h

theorem register (hs : r.Sound) (now : Instant) (as : List Address) :
    Enrolled (r.register now as).2 ((Act.register now as).enrol roll) where
  occupied := occupied_foldl h.occupied (fun _ hi => occupied_enlist r.next hi) as
  next := congrArg (· + 1) h.next
  distinct := by
    have hnew : roll.next ∉ roll.members.map (·.1) := by
      intro hm
      obtain ⟨⟨c, bs⟩, hc, rfl⟩ := List.mem_map.1 hm
      have hbs := (h.addresses _ bs).2 hc
      rw [hs.below _ (Nat.le_of_eq h.next.symm)] at hbs
      cases hbs
    rw [Act.enrol, List.map_append]
    exact List.Nodup.append h.distinct (List.nodup_singleton _) (List.disjoint_singleton.2 hnew)
  addresses c bs := by
    rw [addresses_register, Act.enrol, List.mem_append, List.mem_singleton, Prod.mk.injEq, h.next,
      ← h.addresses]
    by_cases hc : r.next = c
    · subst hc
      simp [hs.below r.next (Nat.le_refl _), eq_comm]
    · simp [hc, Ne.symm hc]

/-- Who was taken off is on the roll no longer. -/
theorem mem_filter_ne (c d : ConnectionId) (as : List Address) :
    (if c = d then none else r.addresses d) = some as ↔ (d, as) ∈ roll.members.filter (·.1 ≠ c) := by
  rw [List.mem_filter, ← h.addresses]
  by_cases hc : c = d
  · simp [hc]
  · simp [hc, Ne.symm hc]

theorem unregister (c : ConnectionId) : Enrolled (r.unregister c) ((Act.unregister c).enrol roll) where
  occupied := occupied_unregister h.occupied c
  next := h.next.trans (next_unregister r c).symm
  distinct := (List.filter_sublist.map _).nodup h.distinct
  addresses d as := by
    rw [addresses_unregister]
    exact h.mem_filter_ne c d as

theorem drop (c : ConnectionId) : Enrolled (r.drop c) ((Act.drop c).enrol roll) where
  occupied := occupied_unregister h.occupied c
  next := h.next.trans (next_unregister r c).symm
  distinct := (List.filter_sublist.map _).nodup h.distinct
  addresses d as := by
    rw [addresses_drop]
    exact h.mem_filter_ne c d as

theorem closeAll : Enrolled r.closeAll.2 (Act.closeAll.enrol roll) where
  occupied := occupied_closeAll h.occupied
  next := h.next.trans (sameShape_closeAll r).next.symm
  distinct := List.nodup_nil
  addresses c as := by simp [addresses_closeAll, Act.enrol]

/-- What leaves the connections, their addresses and the index as they are. -/
theorem of_sameRoll {r' : Registry} (hroll : SameRoll r r') : Enrolled r' roll where
  occupied := by
    rw [hroll.index]
    exact h.occupied
  next := h.next.trans hroll.next.symm
  distinct := h.distinct
  addresses c as := by
    rw [hroll.addresses]
    exact h.addresses c as

theorem step (hs : r.Sound) (x : Act) : Enrolled (x.run r) (x.enrol roll) := by
  cases x with
  | register now as => exact h.register hs now as
  | unregister c => exact h.unregister c
  | drop c => exact h.drop c
  | closeAll => exact h.closeAll
  | deliver now e => exact h.of_sameRoll (deliver_spec now e hs).2.1
  | receive c => exact h.of_sameRoll (receive_sameRoll r c)

theorem runAll (hs : r.Sound) (xs : List Act) :
    Enrolled (Act.runAll xs r) (xs.foldl (fun roll x => x.enrol roll) roll) := by
  induction xs generalizing r roll with
  | nil => exact h
  | cons x xs ih => exact ih (h.step hs x) (hs.run x)

end Enrolled

section Send
variable {r : Registry} (h : r.Sound) (now : Instant) (e : Event)
include h

theorem send_seen (n : Nat) {c : ConnectionId} (hc : (r.addresses c).isSome) :
    (send now e (n, r) c).1 = n + 1 ∧ ∀ c', (send now e (n, r) c).2.connections.get? c' =
      (r.connections.get? c').map fun x => if c = c' then { x with lastSeen := now } else x := by
  obtain ⟨q, hq⟩ := Option.isSome_iff_exists.1 (h.hasQueue c hc)
  obtain ⟨as, has⟩ := Option.isSome_iff_exists.1 hc
  obtain ⟨conn, hconn, _⟩ := Option.map_eq_some_iff.1 has
  simp only [send, hconn, hq, Dict.get?_insert]
  refine ⟨trivial, fun c' => ?_⟩
  by_cases heq : c = c'
  · subst heq; simp [hconn]
  · simp [heq]

/-- A round of sending counts those that it reaches, and notes the time on them. -/
theorem foldl_send_seen (ids : List ConnectionId) (n : Nat) (hr : ∀ c ∈ ids, (r.addresses c).isSome) :
    (ids.foldl (send now e) (n, r)).1 = n + ids.length ∧
      ∀ c, (ids.foldl (send now e) (n, r)).2.connections.get? c =
        (r.connections.get? c).map fun x => if c ∈ ids then { x with lastSeen := now } else x := by
  induction ids generalizing n r with
  | nil => exact ⟨rfl, fun c => by simp⟩
  | cons id ids ih =>
    have hid := hr id List.mem_cons_self
    obtain ⟨hone, hseen⟩ := send_seen h now e n hid
    have hrest : ∀ c ∈ ids, ((send now e (n, r) id).2.addresses c).isSome := fun c hc => by
      rw [(send_sameRoll now e n r id).addresses]
      exact hr c (List.mem_cons_of_mem id hc)
    obtain ⟨hcount, hseen'⟩ := ih (send_sound now e n h id hid) (send now e (n, r) id).1 hrest
    refine ⟨hcount.trans (by rw [hone, List.length_cons]; omega), fun c => (hseen' c).trans ?_⟩
    rw [hseen, Option.map_map]
    refine congrArg (fun f => Option.map f (r.connections.get? c)) (funext fun x => ?_)
    by_cases heq : id = c
    · subst heq; simp
    · simp [heq, Ne.symm heq]

theorem deliver_seen : (r.deliver now e).1 = (r.recipients e).length ∧
    ∀ c, (r.deliver now e).2.connections.get? c = (r.connections.get? c).map fun x =>
      if r.hears c e.target then { x with lastSeen := now } else x := by
  have hr : ∀ c ∈ r.recipients e, (r.addresses c).isSome := by
    intro c hc
    rw [mem_recipients h] at hc
    exact Option.isSome_of_any hc
  obtain ⟨hcount, hseen⟩ := foldl_send_seen h now e (r.recipients e) 0 hr
  refine ⟨hcount.trans (Nat.zero_add _), fun c => (hseen c).trans ?_⟩
  simp only [mem_recipients h]

end Send

namespace Enrolled
variable {r : Registry} {roll : Roll} (h : r.Enrolled roll) (hs : r.Sound)
include h

theorem mem_hearing (e : Event) (c : ConnectionId) : c ∈ roll.hearing e ↔ r.hears c e.target := by
  simp only [Roll.hearing, List.mem_map, List.mem_filter]
  constructor
  · rintro ⟨⟨_, as⟩, ⟨hm, hall⟩, rfl⟩
    rw [hears, (h.addresses _ as).2 hm]
    exact hall
  · intro hhears
    obtain ⟨as, has, hall⟩ := (Option.any_eq_true _ _).1 hhears
    exact ⟨(c, as), ⟨(h.addresses c as).1 has, hall⟩, rfl⟩

theorem nodup_hearing (e : Event) : (roll.hearing e).Nodup :=
  (List.filter_sublist.map _).nodup h.distinct

theorem size_closeAll : r.closeAll.1 = roll.members.length := by
  have hkeys : ∀ c, c ∈ roll.members.map (·.1) ↔ ∃ x, r.connections.get? c = some x := by
    intro c
    rw [← Dict.mem_keys_iff, mem_keys_connections, Option.isSome_iff_exists]
    simp [h.addresses]
  exact (r.connections.size_eq_length _ h.distinct hkeys).trans (List.length_map _)

include hs

/-- An event goes once to everyone on the roll whom it is for, and to nobody else. -/
theorem deliver (now : Instant) (e : Event) :
    let sent := r.deliver now e
    sent.1 = (roll.hearing e).length ∧ sent.2.byAddress = r.byAddress ∧
      ∀ c, (sent.2.queues.get? c =
          (r.queues.get? c).map fun q => if c ∈ roll.hearing e then q.push e else q) ∧
        sent.2.connections.get? c =
          (r.connections.get? c).map fun x => if c ∈ roll.hearing e then { x with lastSeen := now } else x := by
  obtain ⟨hcount, hseen⟩ := deliver_seen hs now e
  obtain ⟨_, hroll, hqueues⟩ := deliver_spec now e hs
  have hperm : (r.recipients e).Perm (roll.hearing e) := by
    refine (List.perm_ext_iff_of_nodup (nodup_recipients hs e) (h.nodup_hearing e)).2 fun c => ?_
    rw [mem_recipients hs, h.mem_hearing]
  simp only [h.mem_hearing]
  exact ⟨hcount.trans hperm.length_eq, hroll.index, fun c => ⟨hqueues c, hseen c⟩⟩

theorem entries_closeAll : r.closeAll.2.connections.entries = [] ∧ r.closeAll.2.byAddress.entries = [] := by
  constructor
  · refine Dict.entries_eq_nil _ fun c => ?_
    exact Option.map_eq_none_iff.1 (addresses_closeAll r c)
  · refine Dict.entries_eq_nil _ fun a => ?_
    cases ha : r.closeAll.2.byAddress.get? a with
    | none => rfl
    | some ids =>
      -- an address is listed for someone, and nobody is left
      cases ids with
      | nil => exact absurd ha (h.closeAll.occupied a)
      | cons c ids =>
        have hm : c ∈ r.closeAll.2.members a := by
          rw [members, ha]
          exact List.mem_cons_self
        obtain ⟨as, has, _⟩ := (hs.closeAll.mem_members a c).1 hm
        rw [addresses_closeAll] at has
        cases has

/-- A connection that is given up is neither on the register nor under any address. -/
theorem not_mem_drop (c : ConnectionId) : (r.drop c).connections.get? c = none ∧
    ∀ a, c ∉ (r.drop c).members a ∧ (r.drop c).byAddress.get? a ≠ some [] := by
  have hoff : (r.drop c).addresses c = none := by rw [addresses_drop, if_pos rfl]
  refine ⟨Option.map_eq_none_iff.1 hoff, fun a => ⟨fun hm => ?_, (h.drop c).occupied a⟩⟩
  obtain ⟨as, has, _⟩ := ((hs.drop c).mem_members a c).1 hm
  rw [hoff] at has
  cases has

/-- A connection that is given up as soon as it was opened leaves no trace on the register. -/
theorem drop_register (now : Instant) (as : List Address) :
    let r' := (r.register now as).2.drop r.next
    (∀ c, r'.connections.get? c = r.connections.get? c) ∧ ∀ a, r'.byAddress.get? a = r.byAddress.get? a := by
  have hnew : ∀ a, r.next ∉ listed r.byAddress a := by
    intro a hm
    obtain ⟨bs, hbs, _⟩ := (hs.mem_members a r.next).1 hm
    rw [hs.below _ (Nat.le_refl _)] at hbs
    cases hbs
  have hon : (r.register now as).2.connections.get? r.next = some ⟨as, now, now⟩ := by
    simp [Registry.register, Dict.get?_insert]
  have hindex : ((r.register now as).2.drop r.next).byAddress =
      as.foldl (delist r.next) (as.foldl (enlist r.next) r.byAddress) := by
    rw [Registry.drop, Registry.unregister, hon]
    rfl
  refine ⟨fun c => ?_, fun a => get?_eq_of_listed ((h.register hs now as).drop r.next).occupied h.occupied ?_⟩
  · have hnone : r.connections.get? r.next = none :=
      Option.map_eq_none_iff.1 (hs.below _ (Nat.le_refl _))
    rw [Registry.drop, Registry.unregister, hon]
    simp only [Registry.register, Dict.get?_erase, Dict.get?_insert]
    split
    · next heq => rw [← heq, hnone]
    · rfl
  · rw [hindex]
    exact listed_delist_enlist r.next r.byAddress hnew as a

end Enrolled

section Step
variable {r : Registry} (h : r.Sound) {c : ConnectionId} (hc : c < r.next) (x : Act)
include h hc

/-- An act leaves the queue of a connection where it is, unless its reader goes away. -/
theorem Act.queues_run (hx : x ≠ .drop c) :
    (x.run r).queues.get? c = (r.queues.get? c).map (x.onQueue c r) := by
  cases x with
  | register now as =>
    refine (queues_register r now as c).trans ?_
    rw [if_neg (Nat.ne_of_gt hc)]
    exact Option.map_id'.symm
  | unregister d => exact queues_unregister r d c
  | drop d =>
    refine (queues_drop r d c).trans ?_
    have hne : d ≠ c := fun hd => hx (congrArg Act.drop hd)
    rw [if_neg hne]
    exact Option.map_id'.symm
  | closeAll => exact queues_closeAll r c
  | deliver now e => exact (deliver_spec now e h).2.2 c
  | receive d => exact queues_receive r d c

theorem Act.addresses_run :
    (x.run r).addresses c = if x.Removes c then none else r.addresses c := by
  cases x with
  | register now as =>
    refine (addresses_register r now as c).trans ?_
    rw [if_neg (Nat.ne_of_gt hc)]
    rfl
  | unregister d => exact addresses_unregister r d c
  | drop d => exact addresses_drop r d c
  | closeAll => exact addresses_closeAll r c
  | deliver now e => exact (deliver_spec now e h).2.1.addresses c
  | receive d => exact (receive_sameRoll r d).addresses c

end Step

theorem Act.next_le_run (r : Registry) (x : Act) : r.next ≤ (x.run r).next := by
  cases x with
  | register now as => exact Nat.le_succ _
  | unregister d => exact Nat.le_of_eq (next_unregister r d).symm
  | drop d => exact Nat.le_of_eq (next_unregister r d).symm
  | closeAll => exact Nat.le_of_eq (sameShape_closeAll r).next.symm
  | deliver now e => exact Nat.le_of_eq (sameShape_deliver r now e).next.symm
  | receive d => exact Nat.le_of_eq (sameShape_receive r d).next.symm

section Reading
variable {r : Registry} {c : ConnectionId} {zs : List Act}

/-- Who is off the register hears nothing more. -/
theorem Act.heard_of_addresses_eq_none (h : r.Sound) (hc : c < r.next) (hoff : r.addresses c = none) :
    heard c zs r = [] := by
  induction zs generalizing r with
  | nil => rfl
  | cons x zs ih =>
    have hoff' : (x.run r).addresses c = none := by
      rw [x.addresses_run h hc, hoff, ite_self]
    have hrest := ih (h.run x) (Nat.lt_of_lt_of_le hc (next_le_run r x)) hoff'
    rw [heard, hrest, List.append_nil, Option.toList_eq_nil_iff]
    cases x with
    | deliver now e =>
      have hdeaf : r.hears c e.target = false := by rw [hears, hoff]; rfl
      rw [delivered?, hdeaf]
      rfl
    | _ => rfl

/-- As long as nothing is delivered to it, a connection is read as its queue says, until there is nothing more;
if it is closed, then it reports that. -/
theorem Act.readings_of_quiet (h : r.Sound) (hc : c < r.next) {q : Queue Event}
    (hq : r.queues.get? c = some q) (hdrop : .drop c ∉ zs) (hquiet : heard c zs r = [])
    (hend : q.closed ∨ reads c zs ≤ q.report.length) :
    readings c zs r = q.answers (reads c zs) := by
  induction zs generalizing r q with
  | nil => simp [readings, reads, Queue.answers]
  | cons x zs ih =>
    have hx : x ≠ .drop c := fun hx => hdrop (hx ▸ List.mem_cons_self)
    have hdrop : .drop c ∉ zs := fun hz => hdrop (List.mem_cons_of_mem x hz)
    have hq' := x.queues_run h hc hx
    rw [hq, Option.map_some] at hq'
    have hrest {q' : Queue Event} (hq' : (x.run r).queues.get? c = some q') :=
      ih (h.run x) (Nat.lt_of_lt_of_le hc (next_le_run r x)) hq' hdrop
    -- an act that reads nothing from the queue and adds nothing to it
    have hidle {q' : Queue Event} (hq' : (x.run r).queues.get? c = some q')
        (hreport : q'.report = q.report) (hclosed : q.closed → q'.closed)
        (hreading : x.reading? c r = none) (hreads : reads c (x :: zs) = reads c zs)
        (hheard : heard c (x :: zs) r = heard c zs (x.run r)) :
        readings c (x :: zs) r = q.answers (reads c (x :: zs)) := by
      rw [hreads] at hend ⊢
      rw [readings, hreading, Queue.answers, ← hreport]
      exact hrest hq' (hheard ▸ hquiet) (hreport ▸ hend.imp_left hclosed)
    cases x with
    | register now as => exact hidle hq' rfl id rfl rfl rfl
    | drop d => exact hidle hq' rfl id rfl rfl rfl
    | unregister d =>
      exact hidle hq' (Queue.report_ite_close q _) (Queue.closed_ite_close _) rfl rfl rfl
    | closeAll => exact hidle hq' (Queue.report_ite_close q _) (Queue.closed_ite_close _) rfl rfl rfl
    | deliver now e =>
      have hdeaf : r.hears c e.target = false := by
        by_contra hhears
        simp [heard, delivered?, hhears] at hquiet
      simp only [onQueue, hdeaf] at hq'
      refine hidle hq' rfl id rfl rfl ?_
      rw [heard, delivered?, hdeaf]
      rfl
    | receive d =>
      by_cases hd : d = c
      · subst hd
        have hreads : reads d (.receive d :: zs) = reads d zs + 1 := by simp [reads]
        have hreading : reading? d r (.receive d) = some q.receive.1 := by
          rw [reading?, if_pos rfl, Registry.receive, hq]
        simp only [onQueue, if_true] at hq'
        rw [hreads] at hend ⊢
        obtain ⟨hanswers, hend⟩ := Queue.answers_succ hend
        rw [readings, hreading, hanswers, hrest hq' hquiet hend]
        rfl
      · simp only [onQueue, if_neg hd] at hq'
        refine hidle hq' rfl id (if_neg hd) ?_ rfl
        simp [reads, hd]

/-- What was delivered to a connection before it was closed can still be read, and then it reports the end. -/
theorem Act.readings_closeAll (h : r.Sound) (hon : (r.addresses c).isSome) {q : Queue Event}
    (hq : r.queues.get? c = some q) (hdrop : .drop c ∉ zs) :
    readings c zs r.closeAll.2 = q.answers (reads c zs) := by
  have hc : c < r.next := by
    by_contra hnew
    rw [h.below c (Nat.le_of_not_lt hnew)] at hon
    cases hon
  have hc' : c < r.closeAll.2.next := (sameShape_closeAll r).next.symm ▸ hc
  have hclosed : r.closeAll.2.queues.get? c = some q.close := by
    rw [queues_closeAll, hq, Option.map_some, if_pos hon]
  exact readings_of_quiet (q := q.close) h.closeAll hc' hclosed hdrop
    (heard_of_addresses_eq_none h.closeAll hc' (addresses_closeAll r c)) (.inl rfl)

end Reading

/-- Whatever is done to a register, the index has every connection under each of its addresses and nothing
else. An event goes once to each connection that it is for, which is all of them if it has no target; their
number is returned, and the time is noted on them alone. When all connections are closed, their number is
returned and nothing is left on the register, and each of them can be read to its end. -/
theorem index_and_routing_follow_the_roll (capacity : Nat) (xs : List Act) :
    let r := Act.runAll xs (ofCapacity capacity)
    let roll := Act.enrolAll xs
    (roll.members.map (·.1)).Nodup ∧
    (∀ c as, (c, as) ∈ roll.members ↔ r.addresses c = some as) ∧
    (∀ c as, (c, as) ∈ roll.members → ∃ q, r.queues.get? c = some q) ∧
    (∀ a, r.byAddress.get? a ≠ some [] ∧ (r.members a).Nodup ∧
      ∀ c, c ∈ r.members a ↔ ∃ as, (c, as) ∈ roll.members ∧ a ∈ as) ∧
    (∀ now e, let sent := r.deliver now e
      sent.1 = (roll.hearing e).length ∧ sent.2.byAddress = r.byAddress ∧
        ∀ c, (sent.2.queues.get? c =
            (r.queues.get? c).map fun q => if c ∈ roll.hearing e then q.push e else q) ∧
          sent.2.connections.get? c = (r.connections.get? c).map fun x =>
            if c ∈ roll.hearing e then { x with lastSeen := now } else x) ∧
    r.closeAll.1 = roll.members.length ∧
    r.closeAll.2.connections.entries = [] ∧ r.closeAll.2.byAddress.entries = [] ∧
    ∀ c as q, (c, as) ∈ roll.members → r.queues.get? c = some q → ∀ zs, .drop c ∉ zs →
      Act.readings c zs r.closeAll.2 = q.answers (Act.reads c zs) := by
  intro r roll
  have hs : r.Sound := (sound_ofCapacity capacity).runAll xs
  have h : r.Enrolled roll := (Enrolled.ofCapacity capacity).runAll (sound_ofCapacity capacity) xs
  refine ⟨h.distinct, fun c as => (h.addresses c as).symm, ?_, fun a => ⟨h.occupied a, hs.nodup_members a, ?_⟩,
    h.deliver hs, h.size_closeAll, (h.entries_closeAll hs).1, (h.entries_closeAll hs).2, ?_⟩
  · intro c as hm
    exact Option.isSome_iff_exists.1 (hs.hasQueue c (Option.isSome_of_eq_some ((h.addresses c as).2 hm)))
  · intro c
    simp only [hs.mem_members, h.addresses]
  · intro c as q hm hq zs hdrop
    exact Act.readings_closeAll hs (Option.isSome_of_eq_some ((h.addresses c as).2 hm)) hq hdrop

/-- Two connections, of which one is for an address, named twice, and the other for none. -/
theorem index_and_routing_follow_the_roll_of_two :
    let a : Address := ⟨.user, "u"⟩
    let e : Event := .dismissed ⟨1⟩ (some a)
    let xs : List Act := [.register .epoch [a, a], .register .epoch [], .deliver .epoch e]
    let zs : List Act := [.receive 0, .drop 1, .unregister 0, .receive 0, .receive 0]
    (0, [a, a]) ∈ (Act.enrolAll xs).members ∧ Act.drop 0 ∉ zs ∧
      Act.readings 0 zs (Act.runAll xs (ofCapacity 1)).closeAll.2 = [.item e, .closed, .closed] := by
  intro a e xs zs
  obtain ⟨_, _, _, _, _, _, _, _, hread⟩ := index_and_routing_follow_the_roll 1 xs
  have hm : (0, [a, a]) ∈ (Act.enrolAll xs).members := List.mem_cons_self
  have hdrop : Act.drop 0 ∉ zs := by simp [zs]
  exact ⟨hm, hdrop, hread 0 [a, a] ⟨1, [e], 0, false⟩ hm rfl zs hdrop⟩

end Tidings.Registry
