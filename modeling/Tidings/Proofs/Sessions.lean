import Tidings.Proofs.Relay
import Tidings.Proofs.Roll
import Tidings.Proofs.StableSort
/-!
Sessions. To open a stream the store is read for one address after the other. If a reading fails the stream is
given up and nothing is left of it; otherwise what was found is replayed, each identifier once and in the order
of creation, then comes the end of the replay, and then what happens.
-/
namespace Tidings

section Replay

/-- Of each identifier that was not seen before, the first notification is kept. -/
theorem mem_distinctFrom {seen : List Id} {ns : List Notification} {n : Notification} :
    n ∈ distinctFrom seen ns ↔ n.id ∉ seen ∧ ns.find? (·.id = n.id) = some n := by
  induction ns generalizing seen with
  | nil => simp [distinctFrom]
  | cons m ns ih =>
    rw [distinctFrom, List.find?_cons]
    by_cases hm : m.id ∈ seen
    · rw [if_pos hm, ih]
      by_cases hid : m.id = n.id
      · simp [← hid, hm]
      · simp [hid]
    · rw [if_neg hm, List.mem_cons, ih]
      by_cases hid : m.id = n.id
      · simp [← hid, hm, eq_comm]
      · have hne : n ≠ m := fun heq => hid (congrArg Notification.id heq.symm)
        simp [hid, Ne.symm hid, hne]

theorem nodup_distinctFrom (seen : List Id) (ns : List Notification) :
    ((distinctFrom seen ns).map (·.id)).Nodup := by
  induction ns generalizing seen with
  | nil => exact List.nodup_nil
  | cons n ns ih =>
    rw [distinctFrom]
    split
    · exact ih seen
    · refine List.nodup_cons.2 ⟨fun hmem => ?_, ih _⟩
      obtain ⟨m, hm, hid⟩ := List.mem_map.1 hmem
      exact (mem_distinctFrom.1 hm).1 (hid ▸ List.mem_cons_self)

theorem mem_replayOrder {ns : List Notification} {n : Notification} :
    n ∈ replayOrder ns ↔ ns.find? (·.id = n.id) = some n := by
  rw [replayOrder, List.mem_mergeSort, mem_distinctFrom]
  simp

theorem nodup_replayOrder (ns : List Notification) : ((replayOrder ns).map (·.id)).Nodup :=
  ((List.mergeSort_perm _ _).map _).nodup_iff.2 (nodup_distinctFrom [] ns)

theorem sorted_replayOrder (ns : List Notification) :
    (replayOrder ns).Pairwise fun x y => x.createdAt ≤ y.createdAt :=
  StableSort.sorted_mergeSort (fun n : Notification => n.createdAt.order) (distinctFrom [] ns)

end Replay

section Fetch
variable {σ : Type}

instance Access.lawful : LawfulMonad (Access σ) := LawfulMonad.mk' (Access σ)
  (by
    intro α x
    funext s
    show Access.andThen x Access.ok s = x s
    unfold Access.andThen
    rcases x s with ⟨fault | a, s'⟩ <;> rfl)
  (fun _ _ => rfl)
  (by
    intro α β γ x f g
    funext s
    show Access.andThen (Access.andThen x f) g s = Access.andThen x (fun a => Access.andThen (f a) g) s
    unfold Access.andThen
    rcases x s with ⟨fault | a, s'⟩ <;> rfl)

theorem Access.map_apply {α β : Type} (f : α → β) (x : Access σ α) (s : σ) :
    (f <$> x) s = ((x s).1.map f, (x s).2) := by
  show Access.andThen x (fun a => Access.ok (f a)) s = _
  unfold Access.andThen
  rcases x s with ⟨fault | a, s'⟩ <;> rfl

variable (service : Service σ)

/-- What the readings of a store give, one after the other, until one fails. -/
def Fetch.runAll : List Fetch → Service.Action σ (List (List Notification))
  | [] => pure []
  | f :: rest => do
    let ns ← f.run service
    let more ← runAll rest
    pure (ns :: more)

theorem Fetch.runAll_append (fs gs : List Fetch) : runAll service (fs ++ gs) =
    runAll service fs >>= fun ns => (ns ++ ·) <$> runAll service gs := by
  induction fs with
  | nil => simp [runAll]
  | cons f fs ih => simp [runAll, ih]

/-- A stream loads what the readings give. -/
theorem Stream.load_eq_runAll (since : Option Instant) (scopes : List Address) :
    Stream.load service since scopes = List.flatten <$> Fetch.runAll service (fetches since scopes) := by
  have hone (a : Address) : Stream.loadOne service since a =
      List.flatten <$> Fetch.runAll service (.queued a :: (since.map (.since a)).toList) := by
    cases since with
    | none => simp [Stream.loadOne, Fetch.runAll, Fetch.run]
    | some t => simp [Stream.loadOne, Fetch.runAll, Fetch.run]
  induction scopes with
  | nil => simp [Stream.load, fetches, Fetch.runAll]
  | cons a scopes ih =>
    have hcons : fetches since (a :: scopes) =
        (.queued a :: (since.map (.since a)).toList) ++ fetches since scopes := List.flatMap_cons
    rw [Stream.load, hone, ih, hcons, Fetch.runAll_append]
    simp

/-- Readings leave the register as it is. -/
theorem Fetch.registry_runAll (fs : List Fetch) (s : Service.State σ) :
    (runAll service fs s).2.registry = s.registry := by
  induction fs generalizing s with
  | nil => rfl
  | cons f fs ih =>
    have hone : (f.run service s).2.registry = s.registry := by cases f <;> rfl
    rw [runAll]
    rcases hf : f.run service s with ⟨fault | ns, s'⟩
    · rw [hf] at hone
      rw [Access.bind_of_error hf]
      exact hone
    · rw [hf] at hone
      rw [Access.bind_of_ok hf, bind_pure_comp, Access.map_apply]
      exact (ih s').trans hone

/-- What a stream starts with, if every reading gave something. -/
theorem Stream.start_of_ok {now : Instant} {scopes : List Address} {since : Option Instant}
    {s s' : Service.State σ} {lists : List (List Notification)}
    (h : Fetch.runAll service (fetches since scopes)
      { s with registry := (s.registry.register now scopes).2 } = (.ok lists, s')) :
    Stream.start service now scopes since s = (.ok (.ofFound s.registry.next lists.flatten), s') := by
  have hload : Stream.load service since scopes { s with registry := (s.registry.register now scopes).2 } =
      (.ok lists.flatten, s') := by
    rw [load_eq_runAll, Access.map_apply, h]
    rfl
  simp only [start, hload]
  rfl

/-- A stream is given up as soon as a reading fails. -/
theorem Stream.start_of_error {now : Instant} {scopes : List Address} {since : Option Instant}
    {s s' : Service.State σ} {fault : Fault}
    (h : Fetch.runAll service (fetches since scopes)
      { s with registry := (s.registry.register now scopes).2 } = (.error fault, s')) :
    Stream.start service now scopes since s =
      (.error fault, { s' with registry := s'.registry.drop s.registry.next }) := by
  have hload : Stream.load service since scopes { s with registry := (s.registry.register now scopes).2 } =
      (.error fault, s') := by
    rw [load_eq_runAll, Access.map_apply, h]
    rfl
  simp only [start, hload]
  rfl

end Fetch

section Rows
variable {scopes : List Address} {since : Option Instant} {n : Notification}

/-- What a memory has for a stream: the queued rows at its addresses and, with a point in time, those of a
time series that were created after it. -/
def Memory.HasFor (m : Memory) (scopes : List Address) (since : Option Instant) (n : Notification) : Prop :=
  (∃ a ∈ scopes, ∃ row ∈ m.entries a, row.notification = n) ∧
    (n.mode = .queued ∨ n.mode = .timeseries ∧ ∃ t, since = some t ∧ t < n.createdAt)

theorem mem_fetches (m : Memory) :
    n ∈ (fetches since scopes).flatMap (fun f => f.onMemory m) ↔ m.HasFor scopes since n := by
  have hselect (a : Address) (keep : Notification → Bool) : n ∈ m.select a keep ↔
      (∃ row ∈ m.entries a, row.notification = n) ∧ keep n := by
    rw [Memory.select, List.mem_mergeSort, List.mem_filter, List.mem_map]
  have hone (a : Address) : n ∈ (Fetch.queued a :: (since.map (Fetch.since a)).toList).flatMap
      (fun f => f.onMemory m) ↔ (∃ row ∈ m.entries a, row.notification = n) ∧
        (n.mode = .queued ∨ n.mode = .timeseries ∧ ∃ t, since = some t ∧ t < n.createdAt) := by
    cases since with
    | none => simp [Fetch.onMemory, Memory.queued, hselect]
    | some t => simp [Fetch.onMemory, Memory.queued, Memory.since, hselect, and_or_left]
  rw [fetches, List.flatMap_assoc, List.mem_flatMap, Memory.HasFor]
  simp only [hone, ← and_assoc, exists_and_right]

theorem Memory.Reachable.mem_replayOrder {m : Memory} (h : m.Reachable) :
    n ∈ replayOrder ((fetches since scopes).flatMap fun f => f.onMemory m) ↔ m.HasFor scopes since n := by
  obtain ⟨log, hlog⟩ := h.represents
  have hstored {x : Notification} (hx : x ∈ (fetches since scopes).flatMap fun f => f.onMemory m) :
      ∃ row ∈ log, row.notification = x := by
    obtain ⟨⟨a, _, row, hrow, heq⟩, _⟩ := (mem_fetches m).1 hx
    rw [hlog.entries_eq] at hrow
    exact ⟨row, (List.mem_filter.1 hrow).1, heq⟩
  rw [← mem_fetches m]
  refine ⟨mem_of_mem_replayOrder, fun hn => ?_⟩
  -- nothing else is stored under the identifier, so what is replayed under it is the notification itself
  obtain ⟨x, hx, hid⟩ := exists_mem_replayOrder hn
  obtain ⟨row, hrow, rfl⟩ := hstored hn
  obtain ⟨row', hrow', rfl⟩ := hstored (mem_of_mem_replayOrder hx)
  rwa [hlog.sound.eq_of_id hrow' hrow hid] at hx

end Rows

/-- If the store can be read for all addresses, a stream replays what was found, each identifier once and in
the order of creation; over a memory that is what it has for the stream. Then comes the end of the replay,
once, and then what the channel gives, in its order, without the first notice of whatever was replayed, until
the channel is closed. If a reading fails its failure is given, and nothing is left of the connection, whatever
has happened in between. -/
theorem sessions_replay_then_relay {σ : Type} (service : Service σ) (now : Instant) (scopes : List Address)
    (since : Option Instant) (s : Service.State σ) (capacity : Nat) (xs : List Registry.Act)
    (hreached : s.registry = Registry.Act.runAll xs (.ofCapacity capacity)) :
    let c := s.registry.next
    let opened : Service.State σ := { s with registry := (s.registry.register now scopes).2 }
    let found := (Fetch.runAll service (fetches since scopes) opened).1
    let result := Stream.start service now scopes since s
    (∀ lists, found = .ok lists → result.2.registry = opened.registry ∧ ∃ t, result.1 = .ok t ∧
      t.connection = c ∧ (t.replay.map (·.id)).Nodup ∧
      (t.replay.Pairwise fun x y => x.createdAt ≤ y.createdAt) ∧
      (∀ n, n ∈ t.replay ↔ lists.flatten.find? (·.id = n.id) = some n) ∧
      (∀ qs, t.steps qs = ((Stream.notices t.replay ++ [Frame.sync]).map Stream.Step.frame ++
        Stream.relay (t.replay.map (·.id)) []
          (Stream.results (qs.drop (t.replay.length + 1)))).take qs.length) ∧
      ∀ r q, r.queues.get? c = some q → (t.read none r).1 =
        (Stream.notices t.replay ++
          .sync :: Stream.framesOf (Stream.relay (t.replay.map (·.id)) [] q.report), q.closed)) ∧
    (∀ fault, found = .error fault → result.1 = .error fault ∧
      (∀ d, result.2.registry.connections.get? d = s.registry.connections.get? d) ∧
      (∀ a, result.2.registry.byAddress.get? a = s.registry.byAddress.get? a) ∧
      ∀ ys, let r := (Registry.Act.runAll ys opened.registry).drop c
        r.connections.get? c = none ∧ ∀ a, c ∉ r.members a ∧ r.byAddress.get? a ≠ some []) ∧
    ∀ (memory : Service Memory) (u : Service.State Memory), memory.backend = Backend.inMemory →
      ∃ t, (Stream.start memory now scopes since u).1 = .ok t ∧
        (∀ n ∈ t.replay, u.store.HasFor scopes since n) ∧
        (∀ n, u.store.HasFor scopes since n → n.id ∈ t.replay.map (·.id)) ∧
        (u.store.Reachable → ∀ n, n ∈ t.replay ↔ u.store.HasFor scopes since n) := by
  intro c opened found result
  have hkept := Fetch.registry_runAll service (fetches since scopes) opened
  refine ⟨fun lists hlists => ?_, fun fault hfault => ?_, fun memory u hb => ?_⟩
  · have hstart := Stream.start_of_ok service (Prod.ext hlists rfl)
    rw [show result = _ from hstart]
    refine ⟨hkept, _, rfl, rfl, nodup_replayOrder _, sorted_replayOrder _, fun n => mem_replayOrder,
      Stream.steps_eq rfl, fun r q hq => Stream.read_none rfl hq⟩
  · have hs : s.registry.Sound := hreached ▸ (Registry.sound_ofCapacity capacity).runAll xs
    have hroll : s.registry.Enrolled (Registry.Act.enrolAll xs) :=
      hreached ▸ (Registry.Enrolled.ofCapacity capacity).runAll (Registry.sound_ofCapacity capacity) xs
    have hstart := Stream.start_of_error service (Prod.ext hfault rfl)
    rw [show result = _ from hstart, hkept]
    obtain ⟨hconnections, hindex⟩ := hroll.drop_register hs now scopes
    have hs' : opened.registry.Sound := hs.register now scopes
    exact ⟨rfl, hconnections, hindex, fun ys =>
      ((hroll.register hs now scopes).runAll hs' ys).not_mem_drop (hs'.runAll ys) c⟩
  · have hstart : (Stream.start memory now scopes since u).1 = .ok (Stream.ofFound u.registry.next
        ((fetches since scopes).flatMap fun f => f.onMemory u.store)) := by
      simp only [Stream.start, load_eq hb]
      rfl
    refine ⟨_, hstart, fun n hn => (mem_fetches _).1 (mem_of_mem_replayOrder hn), fun n hn => ?_,
      fun hu n => hu.mem_replayOrder⟩
    obtain ⟨x, hx, hid⟩ := exists_mem_replayOrder ((mem_fetches _).2 hn)
    exact List.mem_map.2 ⟨x, hx, hid⟩

/-- One note is stored, and its address is named twice; once it can be read and once it cannot. -/
theorem sessions_replay_then_relay_of_one_note :
    let a : Address := ⟨.user, "u"⟩
    let n : Notification := .create ⟨1⟩ .epoch (some a) "note" .queued none []
    let fault : Fault := .database "down"
    let s : Service.State Memory := Service.initial {} (Memory.empty.store .epoch n).2
    let service : Service Memory := ⟨⟨0⟩, {}, .inMemory, .none⟩
    let broken : Service Memory := ⟨⟨0⟩, {}, { Backend.inMemory with queued := fun _ => Access.fail fault }, .none⟩
    s.registry = Registry.Act.runAll [] (.ofCapacity 256) ∧ s.store.Reachable ∧
      (∃ t, (Stream.start service .epoch [a, a] none s).1 = .ok t ∧ n ∈ t.replay) ∧
      (Stream.start broken .epoch [a, a] none s).1 = .error fault ∧
      (Stream.start broken .epoch [a, a] none s).2.registry.byAddress.get? a = none := by
  intro a n fault s service broken
  have hreached : s.registry = Registry.Act.runAll [] (.ofCapacity 256) := rfl
  have hstore : s.store.Reachable := .store .empty .epoch n rfl
  obtain ⟨_, _, hmemory⟩ := sessions_replay_then_relay service .epoch [a, a] none s 256 [] hreached
  obtain ⟨_, hfailure, _⟩ := sessions_replay_then_relay broken .epoch [a, a] none s 256 [] hreached
  obtain ⟨t, hstart, _, _, hreplay⟩ := hmemory service s rfl
  obtain ⟨hfault, _, hindex, _⟩ := hfailure fault rfl
  refine ⟨hreached, hstore, ⟨t, hstart, (hreplay hstore n).2 ⟨⟨a, ?_, ?_⟩, .inl rfl⟩⟩, hfault, hindex a⟩
  · exact List.mem_cons_self
  · exact ⟨⟨n, .epoch⟩, List.mem_cons_self, rfl⟩

end Tidings
