import Mathlib.Algebra.BigOperators.Group.List.Basic
import Mathlib.Algebra.GroupWithZero.Nat
import Tidings.Proofs.Roll
/-!
The reckoning of a connection. Its queue keeps the last of what its reader has not got past; the reader loses
only older events, and learns of each loss, so what it has read, what it has lost and what is unread make up
what was delivered.
-/
namespace Tidings.Registry

namespace Act
variable {c : ConnectionId}

theorem mem_readings {xs : List Act} {r : Registry} {y : Received Event} (h : y ∈ readings c xs r) :
    ∃ zs x, zs ++ [x] <+: xs ∧ x.reading? c (runAll zs r) = some y := by
  induction xs generalizing r with
  | nil => cases h
  | cons x xs ih =>
    rcases List.mem_append.1 h with hy | hy
    · exact ⟨[], x, List.prefix_append [x] xs, Option.mem_toList.1 hy⟩
    · obtain ⟨zs, z, hz, hread⟩ := ih hy
      exact ⟨x :: zs, z, List.cons_prefix_cons.2 ⟨rfl, hz⟩, hread⟩

theorem capacity_run (x : Act) (r : Registry) : (x.run r).capacity = r.capacity := by
  cases x with
  | register now as => rfl
  | unregister d => exact (sameShape_unregister r d).capacity
  | drop d => exact (sameShape_unregister r d).capacity
  | closeAll => exact (sameShape_closeAll r).capacity
  | deliver now e => exact (sameShape_deliver r now e).capacity
  | receive d => exact (sameShape_receive r d).capacity

theorem capacity_runAll (xs : List Act) (r : Registry) : (runAll xs r).capacity = r.capacity := by
  induction xs generalizing r with
  | nil => rfl
  | cons x xs ih => exact (ih (x.run r)).trans (x.capacity_run r)

/-- How far the reader of a connection has got. -/
def passed (read : List (Received Event)) : Nat := (read.map Received.passed).sum

/-- The events delivered to a connection that its reader has not got past. -/
def unread (c : ConnectionId) (xs : List Act) (r : Registry) : List Event :=
  (heard c xs r).drop (passed (readings c xs r))

theorem passed_append (read read' : List (Received Event)) :
    passed (read ++ read') = passed read + passed read' := by
  rw [passed, List.map_append, List.sum_append]
  rfl

theorem passed_eq (read : List (Received Event)) :
    passed read = (read.filterMap Received.item?).length + (read.map Received.lost).sum := by
  induction read with
  | nil => rfl
  | cons x read ih =>
    have hcons : passed (x :: read) = x.passed + passed read := List.sum_cons
    have hitems : (x :: read).filterMap Received.item? =
        x.item?.toList ++ read.filterMap Received.item? := by
      cases x <;> rfl
    rw [hcons, ih, hitems, List.length_append, List.map_cons, List.sum_cons, Received.passed]
    omega

end Act

/-- A connection whose queue has what its reader has not got past. What was read came in the order in which it
was delivered. -/
structure Reckoned (r : Registry) (c : ConnectionId) (room : Nat) (heard : List Event)
    (read : List (Received Event)) : Prop where
  sound : r.Sound
  known : c < r.next
  counted : Act.passed read ≤ heard.length
  inOrder : (read.filterMap Received.item?).Sublist (heard.take (Act.passed read))
  queue : ∃ q, r.queues.get? c = some q ∧ q.capacity = room ∧
    q.Holds (heard.drop (Act.passed read)) ∧ (q.closed ↔ r.addresses c = none)

namespace Reckoned
variable {r : Registry} {c : ConnectionId} {room : Nat} {heard : List Event}
  {read : List (Received Event)}

/-- A connection that has just been opened. -/
theorem opened (hr : r.Sound) (now : Instant) (as : List Address) :
    (r.register now as).2.Reckoned r.next (ceilPowerOfTwo (max 1 r.capacity)) [] [] where
  sound := hr.register now as
  known := Nat.lt_succ_self _
  counted := Nat.le_refl _
  inOrder := List.Sublist.refl _
  queue := by
    refine ⟨Queue.ofSize r.capacity, ?_, rfl, Queue.holds_ofSize _, ?_⟩
    · rw [queues_register, if_pos rfl]
    · rw [addresses_register, if_pos rfl]
      simp [Queue.ofSize]

variable (h : r.Reckoned c room heard read) (hroom : 0 < room)
include h

/-- What neither delivers to the connection nor reads it nor takes it off the register. -/
theorem idle {x : Act} (hx : x ≠ .drop c) (hspared : ¬ x.Removes c) (hq : ∀ q, x.onQueue c r q = q) :
    (x.run r).Reckoned c room heard read :=
  { h with
    sound := h.sound.run x
    known := Nat.lt_of_lt_of_le h.known (x.next_le_run r)
    queue := by
      obtain ⟨q, hget, hcap, hholds, hclosed⟩ := h.queue
      refine ⟨q, ?_, hcap, hholds, ?_⟩
      · rw [x.queues_run h.sound h.known hx, hget, Option.map_some, hq]
      · rw [x.addresses_run h.sound h.known, if_neg hspared, hclosed] }

/-- A connection that is taken off the register is closed, and its queue keeps what it has. -/
theorem removed {x : Act} (hx : x ≠ .drop c) (hremoved : x.Removes c)
    (hq : ∀ q, x.onQueue c r q = if (r.addresses c).isSome then q.close else q) :
    (x.run r).Reckoned c room heard read :=
  { h with
    sound := h.sound.run x
    known := Nat.lt_of_lt_of_le h.known (x.next_le_run r)
    queue := by
      obtain ⟨q, hget, hcap, hholds, hclosed⟩ := h.queue
      rw [x.queues_run h.sound h.known hx, hget, x.addresses_run h.sound h.known, if_pos hremoved]
      refine ⟨_, rfl, ?_⟩
      rw [hq]
      cases hon : r.addresses c with
      | none => exact ⟨hcap, hholds, by simp [hclosed, hon]⟩
      | some as => exact ⟨hcap, hholds.close, by simp [Queue.close]⟩ }

include hroom in
/-- What is delivered goes to the end of what is unread. -/
theorem deliver (now : Instant) {e : Event} (hhears : r.hears c e.target) :
    (r.deliver now e).2.Reckoned c room (heard ++ [e]) read := by
  obtain ⟨hs, hroll, hqueues⟩ := deliver_spec now e h.sound
  obtain ⟨q, hget, hcap, hholds, hclosed⟩ := h.queue
  exact {
    sound := hs
    known := hroll.next.symm ▸ h.known
    counted := h.counted.trans (by rw [List.length_append]; exact Nat.le_add_right _ _)
    inOrder := by
      rw [List.take_append_of_le_length h.counted]
      exact h.inOrder
    queue := by
      refine ⟨q.push e, ?_, (q.capacity_push e).trans hcap, ?_, ?_⟩
      · rw [hqueues, hget, Option.map_some, if_pos hhears]
      · rw [List.drop_append_of_le_length h.counted]
        exact hholds.push (hcap.symm ▸ hroom) e
      · rw [Queue.closed_push, hroll.addresses, hclosed] }

/-- A reading gets past what it gives and what it says is lost. -/
theorem receive : (r.receive c).2.Reckoned c room heard (read ++ [(r.receive c).1]) := by
  have hroll := receive_sameRoll r c
  obtain ⟨q, hget, hcap, hholds, hclosed⟩ := h.queue
  have hreading : (r.receive c).1 = q.receive.1 := by rw [Registry.receive, hget]
  obtain ⟨hle, hrest, hitem⟩ := hholds.receive
  have hpassed : Act.passed (read ++ [q.receive.1]) = Act.passed read + q.receive.1.passed :=
    Act.passed_append read [q.receive.1]
  rw [hreading]
  exact {
    sound := h.sound.receive c
    known := hroll.next.symm ▸ h.known
    counted := by
      rw [List.length_drop] at hle
      have hcounted := h.counted
      omega
    inOrder := by
      rw [hpassed, List.take_add, List.filterMap_append]
      refine h.inOrder.append ?_
      rw [List.filterMap_cons]
      cases hi : q.receive.1.item? with
      | none => exact List.nil_sublist _
      | some e => simpa [hi] using hitem
    queue := by
      refine ⟨q.receive.2, ?_, q.capacity_receive.trans hcap, ?_, ?_⟩
      · rw [queues_receive, hget, Option.map_some, if_pos rfl]
      · rw [hpassed, ← List.drop_drop]
        exact hrest
      · rw [Queue.closed_receive, hroll.addresses, hclosed] }

include hroom in
theorem step {x : Act} (hx : x ≠ .drop c) : (x.run r).Reckoned c room
    (heard ++ (x.delivered? c r).toList) (read ++ (x.reading? c r).toList) := by
  cases x with
  | register now as => simpa [Act.delivered?, Act.reading?] using h.idle hx id fun _ => rfl
  | drop d =>
    have hne : d ≠ c := fun hd => hx (congrArg Act.drop hd)
    simpa [Act.delivered?, Act.reading?] using h.idle hx hne fun _ => rfl
  | unregister d =>
    simp only [Act.delivered?, Act.reading?, Option.toList_none, List.append_nil]
    by_cases hd : d = c
    · subst hd
      exact h.removed hx rfl fun q => by simp [Act.onQueue]
    · exact h.idle hx hd fun q => if_neg fun hdc => hd hdc.1
  | closeAll => simpa [Act.delivered?, Act.reading?] using h.removed hx trivial fun _ => rfl
  | deliver now e =>
    by_cases hhears : r.hears c e.target
    · simpa [Act.delivered?, Act.reading?, hhears, Act.run] using h.deliver hroom now hhears
    · simpa [Act.delivered?, Act.reading?, hhears] using h.idle hx id fun _ => if_neg hhears
  | receive d =>
    by_cases hd : d = c
    · subst hd
      simpa [Act.delivered?, Act.reading?, Act.run] using h.receive
    · simpa [Act.delivered?, Act.reading?, hd] using h.idle hx id fun _ => if_neg hd

include hroom in
theorem runAll {xs : List Act} (hdrop : .drop c ∉ xs) : (Act.runAll xs r).Reckoned c room
    (heard ++ Act.heard c xs r) (read ++ Act.readings c xs r) := by
  induction xs generalizing r heard read with
  | nil => simpa [Act.heard, Act.readings, Act.runAll] using h
  | cons x xs ih =>
    have hx : x ≠ .drop c := fun hx => hdrop (hx ▸ List.mem_cons_self)
    have hrest := ih (h.step hroom hx) fun hxs => hdrop (List.mem_cons_of_mem x hxs)
    rw [List.append_assoc, List.append_assoc] at hrest
    exact hrest

theorem holds : ∃ q, r.queues.get? c = some q ∧
    q.items = (heard.drop (Act.passed read)).drop ((heard.drop (Act.passed read)).length - room) ∧
      q.lost = (heard.drop (Act.passed read)).length - room := by
  obtain ⟨q, hget, rfl, hholds, _⟩ := h.queue
  exact ⟨q, hget, hholds.items, hholds.lost⟩

section Next
variable {unread : List Event} (hunread : heard.drop (Act.passed read) = unread)
include hunread

theorem receive_of_lt (hlt : room < unread.length) :
    (r.receive c).1 = .lagged (unread.length - room) := by
  obtain ⟨q, hget, rfl, hholds, _⟩ := h.queue
  rw [hunread] at hholds
  rw [Registry.receive, hget]
  exact hholds.receive_of_lt hlt

theorem receive_of_le {e : Event} {rest : List Event} (hcons : unread = e :: rest)
    (hle : unread.length ≤ room) : (r.receive c).1 = .item e := by
  obtain ⟨q, hget, rfl, hholds, _⟩ := h.queue
  rw [hunread] at hholds
  rw [Registry.receive, hget]
  exact congrArg Prod.fst (hholds.receive_of_le hcons hle)

theorem receive_of_nil (hnil : unread = []) :
    (r.receive c).1 = if r.addresses c = none then .closed else .nothing := by
  obtain ⟨q, hget, _, hholds, hclosed⟩ := h.queue
  rw [hunread] at hholds
  simp only [Registry.receive, hget, ← hclosed]
  exact congrArg Prod.fst (hholds.receive_of_nil hnil)

/-- A reader that is not too far behind loses nothing. -/
theorem receive_ne_lagged (hle : unread.length ≤ room) (n : Nat) : (r.receive c).1 ≠ .lagged n := by
  cases hu : unread with
  | nil =>
    rw [h.receive_of_nil hunread hu]
    split <;> exact nofun
  | cons e rest =>
    rw [h.receive_of_le hunread hu hle]
    exact nofun

/-- One that is learns of it, and then reads the last events that were delivered, as many as there is room
for. -/
theorem readings_of_lt (hlt : room < unread.length) {zs : List Act} (hdrop : .drop c ∉ zs)
    (hquiet : Act.heard c zs r = []) (hreads : Act.reads c zs = room + 1) :
    Act.readings c zs r =
      .lagged (unread.length - room) :: (heard.drop (heard.length - room)).map .item := by
  obtain ⟨q, hget, rfl, hholds, _⟩ := h.queue
  rw [hunread] at hholds
  have hlost : q.lost ≠ 0 := by
    rw [hholds.lost]
    omega
  have hlast : q.items = heard.drop (heard.length - q.capacity) := by
    rw [hholds.items, ← hunread, List.drop_drop]
    congr 1
    rw [← hunread, List.length_drop] at hlt
    rw [List.length_drop]
    omega
  have hreport : q.report = .lagged (unread.length - q.capacity) :: q.items.map .item := by
    rw [Queue.report, if_neg hlost, hholds.lost]
    rfl
  have hlength : q.report.length = q.capacity + 1 := by
    rw [hreport, List.length_cons, List.length_map, hholds.length_items]
    omega
  rw [Act.readings_of_quiet h.sound h.known hget hdrop hquiet (.inr (by omega)), Queue.answers, hreads,
    ← hlength, List.take_left, hreport, hlast]

end Next

/-- What was read, what was lost and what is unread is all that was delivered. -/
theorem account : (read.filterMap Received.item?).length + (read.map Received.lost).sum +
    (heard.drop (Act.passed read)).length = heard.length := by
  have hcounted := h.counted
  have hpassed := Act.passed_eq read
  rw [List.length_drop]
  omega

/-- As long as no loss was reported, everything up to what is unread was read. -/
theorem eq_of_lossless (hlossless : ∀ n, .lagged n ∉ read) :
    read.filterMap Received.item? ++ heard.drop (Act.passed read) = heard := by
  have hlost : (read.map Received.lost).sum = 0 := by
    refine List.sum_eq_zero fun n hn => ?_
    obtain ⟨x, hx, rfl⟩ := List.mem_map.1 hn
    cases x with
    | lagged n => exact absurd hx (hlossless n)
    | _ => rfl
  have hall : read.filterMap Received.item? = heard.take (Act.passed read) := by
    refine h.inOrder.eq_of_length ?_
    have hpassed := Act.passed_eq read
    have hcounted := h.counted
    rw [List.length_take]
    omega
  rw [hall, List.take_append_drop]

end Reckoned

/-- However deliveries to a connection and readings of it follow each other, as long as its reader is there:
the reader gets the oldest unread event as long as there is room for all that are unread; otherwise it learns
how many of the oldest are lost, and then it gets the last ones delivered. So what was read, what was reported
lost and what is unread is all that was delivered, what was read came in order and once, and nothing is lost
while there is room. -/
theorem only_oldest_lost (capacity : Nat) (xs : List Act) (now : Instant) (as : List Address) :
    let c := ((Act.runAll xs (ofCapacity capacity)).register now as).1
    let opened := ((Act.runAll xs (ofCapacity capacity)).register now as).2
    let room := ceilPowerOfTwo (max 1 capacity)
    IsLeast {p | max 1 capacity ≤ p ∧ ∃ k, p = 2 ^ k} room ∧
    ∀ ys, .drop c ∉ ys →
      let r := Act.runAll ys opened
      let heard := Act.heard c ys opened
      let read := Act.readings c ys opened
      let unread := Act.unread c ys opened
      (∃ q, r.queues.get? c = some q ∧ q.items = unread.drop (unread.length - room) ∧
        q.lost = unread.length - room) ∧
      (room < unread.length → (r.receive c).1 = .lagged (unread.length - room)) ∧
      (room < unread.length → ∀ zs, .drop c ∉ zs → Act.heard c zs r = [] → Act.reads c zs = room + 1 →
        Act.readings c zs r =
          .lagged (unread.length - room) :: (heard.drop (heard.length - room)).map .item) ∧
      (∀ e rest, unread = e :: rest → unread.length ≤ room → (r.receive c).1 = .item e) ∧
      (unread = [] → (r.receive c).1 = if r.addresses c = none then .closed else .nothing) ∧
      (read.filterMap Received.item?).length + (read.map Received.lost).sum + unread.length = heard.length ∧
      (read.filterMap Received.item?).Sublist heard ∧
      ((∀ zs, zs <+: ys → (Act.unread c zs opened).length ≤ room) →
        (∀ n, .lagged n ∉ read) ∧ read.filterMap Received.item? ++ unread = heard) := by
  intro c opened room
  have hsound := (sound_ofCapacity capacity).runAll xs
  have hopened : opened.Reckoned c room [] [] := by
    have hstart := Reckoned.opened hsound now as
    rwa [Act.capacity_runAll] at hstart
  have hroom : 0 < room := ceilPowerOfTwo_pos _
  have hreckoned {zs : List Act} (hzs : .drop c ∉ zs) : (Act.runAll zs opened).Reckoned c room
      (Act.heard c zs opened) (Act.readings c zs opened) := by
    simpa using hopened.runAll hroom hzs
  refine ⟨isLeast_ceilPowerOfTwo _, fun ys hdrop => ?_⟩
  intro r heard read unread
  have h : r.Reckoned c room heard read := hreckoned hdrop
  have hunread : heard.drop (Act.passed read) = unread := rfl
  refine ⟨h.holds, h.receive_of_lt hunread, fun hlt zs => h.readings_of_lt hunread hlt,
    fun e rest => h.receive_of_le hunread, h.receive_of_nil hunread, h.account,
    h.inOrder.trans (List.take_sublist _ _), fun hfits => ?_⟩
  have hlossless : ∀ n, .lagged n ∉ read := by
    intro n hn
    obtain ⟨zs, x, hzs, hread⟩ := Act.mem_readings hn
    have hbegins : zs <+: ys := (List.prefix_append zs [x]).trans hzs
    have hz := hreckoned fun hmem => hdrop (hbegins.subset hmem)
    cases x with
    | receive d =>
      by_cases hd : d = c
      · subst hd
        refine hz.receive_ne_lagged rfl (hfits zs hbegins) n ?_
        simpa [Act.reading?] using hread
      · simp [Act.reading?, hd] at hread
    | _ => cases hread
  exact ⟨hlossless, h.eq_of_lossless hlossless⟩

/-- Three events come to a queue for two while its reader is away; before that it has lost nothing. -/
theorem only_oldest_lost_of_three_events :
    let e (k : BitVec 128) : Event := .dismissed ⟨k⟩ none
    let opened := ((ofCapacity 2).register .epoch []).2
    let before : List Act := [.deliver .epoch (e 1), .receive 0]
    let ys : List Act := before ++ [.deliver .epoch (e 2), .deliver .epoch (e 3), .deliver .epoch (e 4)]
    let zs : List Act := [.receive 0, .unregister 0, .receive 0, .receive 0]
    .drop 0 ∉ before ∧ .drop 0 ∉ ys ∧ .drop 0 ∉ zs ∧ 2 < (Act.unread 0 ys opened).length ∧
      Act.heard 0 zs (Act.runAll ys opened) = [] ∧
      Act.readings 0 zs (Act.runAll ys opened) = [.lagged 1, .item (e 3), .item (e 4)] ∧
      (∀ n, .lagged n ∉ Act.readings 0 before opened) := by
  intro e opened before ys zs
  obtain ⟨_, hall⟩ := only_oldest_lost 2 [] .epoch []
  have hbefore : Act.drop 0 ∉ before := by simp [before]
  have hys : Act.drop 0 ∉ ys := by simp [ys, before]
  have hzs : Act.drop 0 ∉ zs := by simp [zs]
  have hfits : ∀ ws, ws <+: before → (Act.unread 0 ws opened).length ≤ 2 := by
    intro ws hws
    simp only [before, List.prefix_cons_iff, List.prefix_nil] at hws
    rcases hws with rfl | ⟨_, rfl, rfl | ⟨_, rfl, rfl⟩⟩ <;> decide
  have hlost : 2 < (Act.unread 0 ys opened).length := by decide
  obtain ⟨_, _, hlagged, _⟩ := hall ys hys
  obtain ⟨_, _, _, _, _, _, _, hlossless⟩ := hall before hbefore
  have hquiet : Act.heard 0 zs (Act.runAll ys opened) = [] := rfl
  have hroom : ceilPowerOfTwo (max 1 2) = 2 := by decide
  have hunread : Act.unread 0 ys opened = [e 2, e 3, e 4] := rfl
  have hheard : Act.heard 0 ys opened = [e 1, e 2, e 3, e 4] := rfl
  have hread : Act.readings 0 zs (Act.runAll ys opened) =
      .lagged ((Act.unread 0 ys opened).length - ceilPowerOfTwo (max 1 2)) ::
        ((Act.heard 0 ys opened).drop ((Act.heard 0 ys opened).length - ceilPowerOfTwo (max 1 2))).map .item :=
    hlagged hlost zs hzs hquiet rfl
  rw [hunread, hheard, hroom] at hread
  exact ⟨hbefore, hys, hzs, hlost, hquiet, hread, (hlossless hfits).1⟩

end Tidings.Registry
