import Tidings.Proofs.Following
/-!
Convergence. A client that follows a service undisturbed, and reads on until nothing is ahead, holds what
the store has for its addresses.
-/
namespace Tidings

/-- What every scene of an undisturbed run keeps: the service is in order, the connection is registered, and
the client follows what its queue has. -/
structure Attended (c : ConnectionId) (scopes : List Address) (used : List Id) (w : Scene) (log : Log) :
    Prop where
  kept : Kept used w.state log
  addresses : w.state.registry.addresses c = some scopes
  queue : ∃ q, w.state.registry.queues.get? c = some q ∧ q.lost = 0 ∧
    w.client.Follows scopes used log q.items c

/-- Reading a stream takes frames off those ahead, and without a limit it takes all. -/
theorem Stream.read_passed {r : Registry} {t : Stream} {q : Queue Event}
    (hq : r.queues.get? t.connection = some q) (limit : Option Nat) :
    ∃ result t' q', t.read limit r = (result, t', { r with queues := r.queues.insert t.connection q' }) ∧
      Passed t q result.1 t' q' ∧ (limit = none → t'.ahead q'.items = []) := by
  obtain ⟨hpassed, hall⟩ := readSteps_passed (t.backlog q) (limit.getD (t.backlog q)) t q
  rcases hr : readSteps (t.backlog q) (limit.getD (t.backlog q)) t q with ⟨result, t', q'⟩
  rw [hr] at hpassed hall
  refine ⟨result, t', q', ?_, hpassed, fun hlimit => hall ?_ ?_⟩
  · have hc : t'.connection = t.connection := hpassed.connection
    simp only [read, hq, Option.getD_some, hr, hc]
  · unfold todo backlog
    split <;> omega
  · rw [hlimit, Option.getD_none]
    unfold todo backlog
    split <;> omega

namespace Attended
variable {service : Service Memory} (hb : service.backend = Backend.inMemory) {c : ConnectionId}
  {scopes : List Address} {used : List Id} {w : Scene} {log : Log} (h : Attended c scopes used w log)

theorem initial {s : Service.State Memory} (hk : Kept used s log) (now : Instant)
    (since : Option Instant) :
    Attended (s.registry.register now scopes).1 scopes used (.opened s now scopes since) log where
  kept := hk.withRegistry (hk.registry.register now scopes)
  addresses := (Registry.addresses_register _ _ _ _).trans (if_pos rfl)
  queue := by
    refine ⟨Queue.ofSize s.registry.capacity, ?_, rfl, ?_⟩
    · exact (Registry.queues_register _ _ _ _).trans (if_pos rfl)
    · exact Opening.initial hk.store.sound hk.used since

include h

theorem hears (target : Option Address) :
    w.state.registry.hears c target = target.all (· ∈ scopes) := by
  rw [Registry.hears, h.addresses]
  rfl

/-- Whatever is done to the register besides, a connection keeps its addresses and its queue. -/
theorem withRegistry {r : Registry} (hs : r.Sound)
    (ha : r.addresses c = w.state.registry.addresses c)
    (hq : r.queues.get? c = w.state.registry.queues.get? c) :
    Attended c scopes used ⟨Step.withRegistry w.state r, w.client⟩ log where
  kept := h.kept.withRegistry hs
  addresses := ha.trans h.addresses
  queue := by
    obtain ⟨q, hget, hlost, hfollows⟩ := h.queue
    exact ⟨q, hq.trans hget, hlost, hfollows⟩

include hb

theorem call {now : Instant} {call : Call} (hfresh : ∀ id, call.fresh? = some id → id ∉ used)
    (hlossless : ∀ q, (call.run service now w.state).registry.queues.get? c = some q → q.lost = 0) :
    ∃ log', Attended c scopes (call.fresh?.toList ++ used) ⟨call.run service now w.state, w.client⟩ log' := by
  have hd : Done now log w.state _ _ := call.run_done hb h.kept.store fun id hid hm =>
    hfresh id hid (h.kept.used hm)
  obtain ⟨q, hget, _, hfollows⟩ := h.queue
  obtain ⟨_, hroll, hqueues⟩ := Registry.deliverAll_spec now
    (Deed.events (call.deeds service now log w.state.recent)) h.kept.registry
  rw [← hd.registry] at hroll hqueues
  have hget' := hqueues c
  rw [hget, Option.map_some] at hget'
  have hlost := hlossless _ hget'
  refine ⟨_, h.kept.call hb now call hfresh, ?_, _, hget', hlost, ?_⟩
  · rw [hroll.addresses]
    exact h.addresses
  · have hheard : (fun e : Event => w.state.registry.hears c e.target) = isFor scopes :=
      funext fun e => h.hears e.target
    rw [Queue.items_foldl_push hlost, hheard, ← Deed.foldl_onItems]
    refine hfollows.deeds hd.fit (Call.allNew hfresh) (List.subset_append_right _ _) fun n hn => ?_
    rw [Call.post_mem_deeds hn]
    exact List.mem_append_left _ List.mem_cons_self

theorem sweep {now : Instant} (hkeep : ∀ a ∈ scopes,
      ((Step.sweep now).run service w.state).store.entries a = w.state.store.entries a) :
    ∃ log', Attended c scopes used ⟨(Step.sweep now).run service w.state, w.client⟩ log' := by
  obtain ⟨log', hsub, hk, hreg⟩ := h.kept.sweep hb now
  obtain ⟨q, hget, hlost, hfollows⟩ := h.queue
  refine ⟨log', hk, ?_, q, ?_, hlost, hfollows.forget hsub ?_⟩
  · rw [hreg]
    exact h.addresses
  · rw [hreg]
    exact hget
  · intro s hs a ha hta
    have hmem : s ∈ w.state.store.entries a := by
      rw [h.kept.store.entries_eq]
      exact List.mem_filter.2 ⟨hs, by simp [Log.isAt, hta]⟩
    rw [← hkeep a ha, hk.store.entries_eq] at hmem
    exact (List.mem_filter.1 hmem).1

theorem fetch : Attended c scopes used (Move.fetch.run service c w) log := by
  obtain ⟨q, hget, hlost, hfollows⟩ := h.queue
  obtain ⟨s, client⟩ := w
  cases client with
  | gone => exact hfollows.elim
  | reading t held => exact h
  | opening left found =>
    cases left with
    | nil =>
      refine ⟨h.kept, h.addresses, q, hget, hlost, rfl, ?_⟩
      exact Opening.start hfollows h.kept.store.sound.distinct c
    | cons f rest =>
      have hrun : Move.fetch.run service c ⟨s, .opening (f :: rest) found⟩ =
          ⟨s, .opening rest (found ++ f.onLog log)⟩ := by
        rw [Move.run, f.run_eq hb, Fetch.onMemory_eq h.kept.store]
      rw [hrun]
      exact ⟨h.kept, h.addresses, q, hget, hlost, Opening.fetch hfollows rfl⟩

omit hb in
theorem read (limit : Option Nat) : Attended c scopes used ((Move.read limit).run service c w) log := by
  obtain ⟨q, hget, hlost, hfollows⟩ := h.queue
  obtain ⟨s, client⟩ := w
  cases client with
  | gone => exact hfollows.elim
  | opening left found => exact h
  | reading t held =>
    obtain ⟨rfl, hreading⟩ := hfollows
    obtain ⟨result, t', q', heq, hpassed, _⟩ := Stream.read_passed hget limit
    have hrun : (Move.read limit).run service t.connection ⟨s, .reading t held⟩ =
        ⟨Step.withRegistry s { s.registry with queues := s.registry.queues.insert t.connection q' },
          .reading t' (applyFrames held result.1)⟩ := by
      rw [Move.run, heq]
    rw [hrun]
    refine ⟨h.kept.withRegistry (h.kept.registry.of_sameRoll ⟨rfl, rfl, fun _ => rfl⟩ ?_), h.addresses,
      q', ?_, Nat.le_zero.1 (hlost ▸ hpassed.lost), hpassed.connection, hreading.passed rfl hpassed⟩
    · intro c' hc'
      rw [Dict.get?_insert]
      split
      · rfl
      · exact hc'
    · exact (Dict.get?_insert _ _ _ _).trans (if_pos rfl)

/-- Each undisturbing move keeps the invariant. -/
theorem move {m : Move} (hu : m.Undisturbing service c scopes w)
    (hfresh : ∀ id, m.fresh? = some id → id ∉ used) :
    ∃ log', Attended c scopes (m.fresh?.toList ++ used) (m.run service c w) log' := by
  cases m with
  | fetch => exact ⟨log, h.fetch hb⟩
  | read limit => exact ⟨log, h.read limit⟩
  | step x =>
    have hx := hu.spares x rfl
    cases x with
    | call now call => exact h.call hb hfresh hu.lossless
    | sweep now => exact h.sweep hb (hu.unpurged now rfl)
    | closeAll => exact hx.elim
    | connect now as =>
      have hne : w.state.registry.next ≠ c := by
        intro heq
        have hnone := h.kept.registry.below c heq.le
        rw [h.addresses] at hnone
        cases hnone
      refine ⟨log, h.withRegistry (h.kept.registry.register now as) ?_ ?_⟩
      · rw [Registry.addresses_register, if_neg hne]
      · rw [Registry.queues_register, if_neg hne]
    | unregister c' =>
      have hne : c' ≠ c := hx
      refine ⟨log, h.withRegistry (h.kept.registry.unregister c') ?_ ?_⟩
      · rw [Registry.addresses_unregister, if_neg hne]
      · rw [Registry.queues_unregister]
        simp [hne]
    | drop c' =>
      have hne : c' ≠ c := hx
      refine ⟨log, h.withRegistry (h.kept.registry.drop c') ?_ ?_⟩
      · rw [Registry.addresses_drop, if_neg hne]
      · rw [Registry.queues_drop_of_ne _ hne]
    | receive c' =>
      have hne : c' ≠ c := hx
      refine ⟨log, h.withRegistry (h.kept.registry.receive c') ?_ ?_⟩
      · exact (Registry.receive_sameRoll _ c').addresses c
      · rw [Registry.queues_receive]
        simp [hne]

theorem runAll {ms : List Move} (hu : Undisturbed service c scopes w ms)
    (hf : Fresh (Move.freshIds ms) used) :
    ∃ used' log', Attended c scopes used' (Move.runAll service c ms w) log' := by
  induction ms generalizing w log used with
  | nil => exact ⟨used, log, h⟩
  | cons m ms ih =>
    have hids : Move.freshIds (m :: ms) = m.fresh?.toList ++ Move.freshIds ms := by
      cases hm : m.fresh? <;> simp [Move.freshIds, hm]
    rw [hids] at hf
    obtain ⟨hm, hms⟩ := hf.cons
    obtain ⟨log₁, h₁⟩ := h.move hb hu.1 hm
    exact ih h₁ hu.2 hms

omit hb in
/-- A client that has read everything holds what is stored for it. -/
theorem read_all {t : Stream} {held : List Notification} (hw : w.client = .reading t held) :
    let held' := applyFrames held (t.read none w.state.registry).1.1
    (held'.map (·.id)).Nodup ∧ ∀ n, n ∈ held' ↔ Awaited scopes log n := by
  obtain ⟨q, hget, hlost, hfollows⟩ := h.queue
  rw [hw] at hfollows
  obtain ⟨rfl, hreading⟩ := hfollows
  obtain ⟨result, t', q', heq, hpassed, hall⟩ := Stream.read_passed hget none
  have hpast := hreading.passed rfl hpassed
  rw [heq]
  refine ⟨hpast.distinct, fun n => ?_⟩
  rw [← hpast.awaited n, hall rfl]
  rfl

end Attended

theorem mem_queued_iff {service : Service Memory} (hb : service.backend = Backend.inMemory)
    {s : Service.State Memory} {log : Log} (h : s.store.Represents log) (scopes : List Address)
    (n : Notification) : Awaited scopes log n ↔
      ∃ a ∈ scopes, ∃ ns, (service.queued a s).1 = .ok ns ∧ n ∈ ns := by
  have hrun (a : Address) : service.queued a s = (.ok (log.queued a), s) := by
    rw [← h.queued_eq a]
    exact (Fetch.queued a).run_eq hb s
  constructor
  · rintro ⟨hq, ⟨a, ha, hta⟩, hs⟩
    exact ⟨a, ha, log.queued a, by rw [hrun], Log.mem_queued.2 ⟨hq, hta, hs⟩⟩
  · rintro ⟨a, ha, ns, hns, hn⟩
    rw [hrun] at hns
    cases hns
    obtain ⟨hq, hta, hs⟩ := Log.mem_queued.1 hn
    exact ⟨hq, ⟨a, ha, hta⟩, hs⟩

namespace Client

/-- The turns that a client still needs before it reads its stream. -/
def turns : Client → Nat
  | .opening left _ => left.length + 1
  | .reading _ _ | .gone => 0

end Client

namespace Move
variable (service : Service Memory) (c : ConnectionId)

def isFetch : Move → Bool
  | .fetch => true
  | _ => false

theorem turns_run (m : Move) (w : Scene) :
    (m.run service c w).client.turns ≤ w.client.turns - if m.isFetch then 1 else 0 := by
  obtain ⟨s, client⟩ := w
  cases m with
  | step x => exact Nat.le_refl _
  | read limit => cases client <;> exact Nat.le_refl _
  | fetch =>
    cases client with
    | reading t held => exact Nat.le_refl _
    | gone => exact Nat.le_refl _
    | opening left found =>
      cases left with
      | nil => exact Nat.le_refl _
      | cons f rest =>
        rw [run]
        rcases f.run service s with ⟨r, s'⟩
        cases r with
        | ok ns => exact Nat.le_refl _
        | error fault => exact Nat.zero_le _

theorem turns_runAll (ms : List Move) (w : Scene) :
    (runAll service c ms w).client.turns ≤ w.client.turns - ms.countP isFetch := by
  induction ms generalizing w with
  | nil => exact Nat.le_refl _
  | cons m ms ih =>
    have hm := turns_run service c m w
    have hms := ih (m.run service c w)
    rw [List.countP_cons]
    show (runAll service c ms (m.run service c w)).client.turns ≤ _
    omega

end Move

/-- A client follows a stream that is opened anywhere in a run, whatever is called in between; once it has
read everything, it holds what the store returns for its addresses. It gets so far with enough turns. -/
theorem client_converges (id : Id) (settings : Settings) (hooks : Hooks) (before : List Step)
    (now : Instant) (scopes : List Address) (since : Option Instant) (moves : List Move)
    (hn : (Step.freshIds before ++ Move.freshIds moves).Nodup) :
    let service := Service.overMemory id settings hooks
    let s := Step.runAll service before (Service.initial settings Memory.empty)
    let c := (s.registry.register now scopes).1
    let w := Move.runAll service c moves (.opened s now scopes since)
    Undisturbed service c scopes (.opened s now scopes since) moves →
      ((fetches since scopes).length < moves.countP Move.isFetch →
        ∃ t held, w.client = .reading t held) ∧ w.Agrees service scopes := by
  intro service s c w hu
  obtain ⟨hbefore, hmoves, hdis⟩ := List.nodup_append.1 hn
  obtain ⟨log, hk⟩ : ∃ log, Kept (Step.freshIds before) s log := Kept.reached rfl before hbefore
  have hfresh : Fresh (Move.freshIds moves) (Step.freshIds before) :=
    ⟨hmoves, fun id hid hm => hdis id hm id hid rfl⟩
  obtain ⟨used, log', h⟩ := (Attended.initial hk now since).runAll rfl hu hfresh
  refine ⟨fun henough => ?_, fun t held hw => ?_⟩
  · have hturns : w.client.turns ≤ (fetches since scopes).length + 1 - moves.countP Move.isFetch :=
      Move.turns_runAll service c moves (.opened s now scopes since)
    have hthere : w.client ≠ .gone := by
      intro hgone
      obtain ⟨q, _, _, hfollows⟩ := h.queue
      rw [show (Move.runAll service c moves _).client = .gone from hgone] at hfollows
      exact hfollows
    cases hc : w.client with
    | reading t held => exact ⟨t, held, rfl⟩
    | gone => exact absurd hc hthere
    | opening left found =>
      rw [hc, Client.turns] at hturns
      omega
  · obtain ⟨hdistinct, hheld⟩ := h.read_all hw
    refine ⟨hdistinct, fun n => (hheld n).trans ?_⟩
    exact mem_queued_iff rfl h.kept.store scopes n

/-- One notification is withdrawn and another is posted between the registration and the reading. -/
theorem client_converges_of_overlap :
    let a : Address := ⟨.session, "s"⟩
    let before : List Step := [.call .epoch (.notify ⟨1⟩ a "note" .queued none [])]
    let moves : List Move := [.step (.call .epoch (.dismiss ⟨1⟩)),
      .step (.call .epoch (.notify ⟨2⟩ a "note" .queued none [])), .fetch, .fetch]
    let service := Service.overMemory ⟨0⟩ {} Hooks.none
    let s := Step.runAll service before (Service.initial {} Memory.empty)
    let c := (s.registry.register .epoch [a]).1
    let w := Move.runAll service c moves (.opened s .epoch [a] none)
    (Step.freshIds before ++ Move.freshIds moves).Nodup ∧
      Undisturbed service c [a] (.opened s .epoch [a] none) moves ∧
      (∃ t held, w.client = .reading t held) ∧ w.Agrees service [a] := by
  intro a before moves service s c w
  have hn : (Step.freshIds before ++ Move.freshIds moves).Nodup := by decide
  have hlossless (m : Move) (w : Scene)
      (h : ((m.run service c w).state.registry.queues.get? c).all fun q => q.lost = 0) (q : Queue Event)
      (hq : (m.run service c w).state.registry.queues.get? c = some q) : q.lost = 0 := by
    simpa [hq] using h
  have hu : Undisturbed service c [a] (.opened s .epoch [a] none) moves :=
    ⟨⟨by rintro _ ⟨⟩; trivial, hlossless _ _ (by decide +kernel), by simp⟩,
      ⟨by rintro _ ⟨⟩; trivial, hlossless _ _ (by decide +kernel), by simp⟩,
      ⟨by simp, hlossless _ _ (by decide +kernel), by simp⟩,
      ⟨by simp, hlossless _ _ (by decide +kernel), by simp⟩, trivial⟩
  obtain ⟨hturns, hagrees⟩ :=
    client_converges ⟨0⟩ {} Hooks.none before .epoch [a] none moves hn hu
  exact ⟨hn, hu, hturns (by decide), hagrees⟩

end Tidings
