import Tidings.Proofs.Chronicle
import Tidings.Proofs.Serial
/-!
When a dismissal may overtake. A dismissal by an identifier takes no turn, so it can take a notification
back that is stored and not announced yet. Nothing else upsets the order: what a connection reads follows the
order in which the changes were made, wherever no such dismissal has something to emit at the same time as
another call.
-/
namespace Tidings

/-- What was read off a connection and what is in its queue are part of what was heard, in order. -/
def Registry.Shows (r : Registry) (c : ConnectionId) (readings : List (Received Event))
    (heard : List Event) : Prop :=
  ∃ q, r.queues.get? c = some q ∧ (readings.filterMap Received.item? ++ q.items).Sublist heard

theorem Queue.items_push_sublist {α : Type} (q : Queue α) (a : α) :
    (q.push a).items.Sublist (q.items ++ [a]) := by
  unfold push
  split
  · exact .refl _
  · exact (List.drop_sublist 1 q.items).append_right [a]

theorem Queue.items_foldl_push_sublist {α : Type} (q : Queue α) (as : List α) :
    (as.foldl push q).items.Sublist (q.items ++ as) := by
  induction as generalizing q with
  | nil => simp
  | cons a as ih =>
    have hrest := (ih (q.push a)).trans ((q.items_push_sublist a).append_right as)
    rwa [List.append_assoc] at hrest

namespace Registry.Shows
variable {r : Registry} {c : ConnectionId} {readings : List (Received Event)} {heard : List Event}
  (h : r.Shows c readings heard)
include h

theorem deliverAll (hr : r.Sound) {as : List Address} (has : r.addresses c = some as) (now : Instant)
    (es : List Event) : (r.deliverAll now es).Shows c readings (heard ++ es.filter (isFor as)) := by
  obtain ⟨q, hq, hsub⟩ := h
  obtain ⟨_, _, hqueues⟩ := deliverAll_spec now es hr
  have hhears : (fun e : Event => r.hears c e.target) = isFor as := by
    funext e
    rw [Registry.hears, has]
    rfl
  refine ⟨_, by rw [hqueues, hq]; rfl, ?_⟩
  rw [hhears]
  have hpushed := (List.Sublist.refl (readings.filterMap Received.item?)).append
    (q.items_foldl_push_sublist (es.filter (isFor as)))
  rw [← List.append_assoc] at hpushed
  exact hpushed.trans (hsub.append_right _)

/-- Queues that keep their items show the same. -/
theorem congr {r' : Registry} (hr : ∀ q, r.queues.get? c = some q →
    ∃ q', r'.queues.get? c = some q' ∧ q'.items = q.items) : r'.Shows c readings heard := by
  obtain ⟨q, hq, hsub⟩ := h
  obtain ⟨q', hq', hitems⟩ := hr q hq
  exact ⟨q', hq', hitems ▸ hsub⟩

theorem receive (d : ConnectionId) :
    (r.receive d).2.Shows c (readings ++ (Step.reading? c r (.receive d)).toList) heard := by
  obtain ⟨q, hq, hsub⟩ := h
  by_cases hd : d = c
  · subst hd
    have hreading : Step.reading? d r (.receive d) = some q.receive.1 := by
      rw [Step.reading?, if_pos rfl, Registry.receive, hq]
    refine ⟨q.receive.2, by simp [queues_receive, hq], ?_⟩
    rw [hreading, List.filterMap_append, List.append_assoc]
    have hitem : [q.receive.1].filterMap Received.item? = q.receive.1.item?.toList := by
      cases q.receive.1 <;> rfl
    rw [Option.toList_some, hitem, q.items_receive]
    exact hsub
  · have hreading : Step.reading? c r (.receive d) = none := if_neg hd
    rw [hreading]
    refine ⟨q, by simp [queues_receive, hq, hd], ?_⟩
    simpa using hsub

/-- What a visit shows of a connection that stays. -/
theorem visit {σ : Type} {service : Service σ} {s : Service.State σ} (hs : s.registry = r)
    (hc : c < r.next) {v : Visit} (hv : v.Spares c) :
    (v.step.perform service s).registry.Shows c (readings ++ (v.step.reading? c r).toList) heard := by
  subst hs
  cases v with
  | receive d => exact h.receive d
  | connect now as =>
    have hne : s.registry.next ≠ c := Nat.ne_of_gt hc
    have hsame : (s.registry.register now as).2.Shows c readings heard := h.congr fun q hq => by
      exact ⟨q, by rw [queues_register, if_neg hne, hq], rfl⟩
    simpa [Visit.step, Step.perform, Step.reading?] using hsame
  | unregister d =>
    have hne : d ≠ c := fun heq => hv.1 (by rw [heq])
    have hsame : (s.registry.unregister d).Shows c readings heard := h.congr fun q hq => by
      exact ⟨q, by simp [queues_unregister, hne, hq], rfl⟩
    simpa [Visit.step, Step.perform, Step.reading?] using hsame
  | drop d =>
    have hne : d ≠ c := fun heq => hv.2.1 (by rw [heq])
    have hsame : (s.registry.drop d).Shows c readings heard := h.congr fun q hq => by
      exact ⟨q, by rw [queues_drop, if_neg hne, hq], rfl⟩
    simpa [Visit.step, Step.perform, Step.reading?] using hsame
  | closeAll => exact absurd rfl hv.2.2

end Registry.Shows

/-- What is read off a connection that stays on the register is, in order, part of what is emitted for it. -/
theorem Concurrent.shows_runAll {ι σ : Type} [DecidableEq ι] (service : Service σ) (jobs : ι → Job)
    {c : ConnectionId} {as : List Address} (ms : List (Move ι)) (hms : ∀ v, .visit v ∈ ms → v.Spares c)
    {w : Concurrent ι (Posted σ)} {readings before : List (Received Event)} {items heard : List Event}
    (h : w.state.registry.Holding c (some as) readings heard)
    (hshows : w.state.registry.Shows c before (items ++ w.emitted.filter (isFor as))) :
    (runAll service.recorded jobs ms w).state.registry.Shows c
      (before ++ Concurrent.readings service.recorded jobs c ms w)
      (items ++ (runAll service.recorded jobs ms w).emitted.filter (isFor as)) := by
  induction ms generalizing w readings before heard with
  | nil => simpa [Concurrent.readings, runAll] using hshows
  | cons m ms ih =>
    obtain ⟨_, _, hmove⟩ := holding_move service jobs m
      (fun v hv => hms v (by rw [hv]; exact List.mem_cons_self)) h
    have hrest := fun v hv => hms v (List.mem_cons_of_mem m hv)
    cases m with
    | caller i =>
      obtain ⟨es, ids, hdoes⟩ := step_does service.recorded jobs w i
      obtain ⟨new, hsent, _, hnew⟩ := hdoes.sent
      have hregistry : ((Move.caller i).run service.recorded jobs w).state.registry = _ := hdoes.registry
      have hemitted : ((Move.caller i).run service.recorded jobs w).emitted = w.emitted ++ es := by
        rw [← hnew]
        exact Service.State.emitted_of_sent hsent
      refine ih hrest hmove ?_
      rw [hregistry, hemitted, List.filter_append, ← List.append_assoc]
      exact hshows.deliverAll h.sound h.addresses (jobs i).now es
    | visit v =>
      have hemitted : ((Move.visit v).run service.recorded jobs w).emitted = w.emitted :=
        Service.State.emitted_congr (v.store_perform service.recorded w.state)
      rw [Concurrent.readings, ← List.append_assoc]
      refine ih hrest hmove ?_
      rw [hemitted]
      exact hshows.visit rfl h.known (hms v List.mem_cons_self)

/-- What begins with something that is not in the first part lies in the second part. -/
theorem Event.sublist_of_not_mem {e : Event} {es xs ys : List Event} (he : e ∉ xs)
    (h : (e :: es).Sublist (xs ++ ys)) : (e :: es).Sublist ys := by
  obtain ⟨l, l', hl, hxs, hys⟩ := List.sublist_append_iff.1 h
  cases l with
  | nil => exact hl ▸ hys
  | cons x l =>
    cases hl
    exact absurd (hxs.subset List.mem_cons_self) he

/-- Writers and those who dismiss by an identifier, at the same time, whoever comes, reads and goes meanwhile.
What comes out for an address comes out in the order in which the changes were made, if no dismissal by an
identifier has something to emit there while another call has. A dismissal does not wait for a writer, nor a
writer for a dismissal, so that this is up to the schedule. And if no dismissal of a notification gets between
the storing of it and its announcement, then no connection that stayed reads of it after it has read that it
was dismissed. -/
theorem no_overtaking_where_clear {ι : Type} [Fintype ι] [DecidableEq ι] (self : Id)
    (settings : Settings) (hooks : Hooks) (xs : List Turn) (hids : (Turn.freshIds xs).Nodup)
    (jobs : ι → Job) (hjobs : ∀ i, (jobs i).isWriter ∨ (jobs i).isDismissal)
    (hdistinct : Job.AreDistinct jobs)
    (hnew : ∀ i id, (jobs i).call.fresh? = some id → id ∉ Turn.freshIds xs)
    (ms : List (Concurrent.Move ι)) :
    let plain := Service.overMemory self settings hooks
    let service := plain.recorded
    let s := (Turn.runAll plain xs (Service.initial settings Memory.empty)).recorded
    let run (ns : List (Concurrent.Move ι)) := Concurrent.runAll service jobs ns (.start s)
    let made := Concurrent.made service jobs ms (.start s)
    let clear (X : Event → Bool) := ∀ ns, ns <+: ms → (run ns).IsClear jobs X
    let isAt (a : Address) (e : Event) : Bool := e.target = some a
    (∀ a, clear (isAt a) → (run ms).emitted.filter (isAt a) <+: made.filter (isAt a) ∧
      ((∀ i, (run ms).owed (isAt a) i = []) → (run ms).emitted.filter (isAt a) = made.filter (isAt a))) ∧
    ∀ c as q, s.registry.addresses c = some as → s.registry.queues.get? c = some q →
      (∀ v, .visit v ∈ ms → v.Spares c) →
      let received := (Concurrent.readings service jobs c ms (.start s)).filterMap Received.item?
      (∀ a, clear (isAt a) → (received.filter (isAt a)).Sublist ((q.items ++ made).filter (isAt a))) ∧
      ∀ n, clear (·.id = n.id) → (∀ t, .dismissed n.id t ∉ q.items) →
        ∀ t, ¬ [.dismissed n.id t, .notify n].Sublist received := by
  intro plain service s run made clear isAt
  have hb : plain.backend = Backend.inMemory := rfl
  obtain ⟨log, hkept⟩ := Turn.kept_freshIds hb (Kept.initial settings) xs ⟨hids, by simp⟩
  have hunused : ∀ i id, (jobs i).call.fresh? = some id → id ∉ log.ids := fun i id hid hm =>
    hnew i id hid (by simpa using hkept.used hm)
  have horderly : ∀ i, (jobs i).IsOrderly service := by
    intro i
    rcases hjobs i with hwriter | hdismissal
    · exact Job.isOrderly_of_isWriter hwriter service
    · exact Job.isOrderly_of_isDismissal hdismissal service
  have hkeeps {X : Event → Bool} (hX : ∀ e e', X e → X e' → e.id = e'.id ∨ e.target = e'.target)
      (h : clear X) : Event.InOrder made ∧ (run ms).KeepsUp X made :=
    Concurrent.keepsUp_runAll hb horderly hdistinct hX ms (.start hkept.store hunused)
      (Concurrent.chronicle_start s log) (Concurrent.keepsUp_start rfl) h
  have hat (a : Address) (h : clear (isAt a)) : (run ms).KeepsUp (isAt a) made :=
    (hkeeps (fun e e' he he' => .inr ((of_decide_eq_true he).trans (of_decide_eq_true he').symm)) h).2
  refine ⟨fun a h => ⟨(hat a h).isPrefix, (hat a h).quiet⟩, fun c as q has hq hspared => ?_⟩
  intro received
  have hpart : received.Sublist (q.items ++ (run ms).emitted.filter (isFor as)) := by
    have hopen : (Concurrent.start s : Concurrent ι _).state.registry.Holding c (some as) [] q.items :=
      hkept.registry.holding has hq
    have hshows : (Concurrent.start s : Concurrent ι _).state.registry.Shows c []
        (q.items ++ (Concurrent.start s : Concurrent ι _).emitted.filter (isFor as)) :=
      ⟨q, hq, List.sublist_append_left q.items []⟩
    obtain ⟨q', _, hsub⟩ := Concurrent.shows_runAll plain jobs ms hspared hopen hshows
    exact (List.sublist_append_left _ _).trans hsub
  refine ⟨fun a h => ?_, fun n h hn t hsub => ?_⟩
  · have hbehind :
        (((run ms).emitted.filter (isFor as)).filter (isAt a)).Sublist (made.filter (isAt a)) :=
      (List.filter_sublist.filter (isAt a)).trans (hat a h).isPrefix.sublist
    rw [List.filter_append]
    refine (hpart.filter (isAt a)).trans ?_
    rw [List.filter_append]
    exact hbehind.append_left _
  · obtain ⟨horder, hbehind⟩ := hkeeps (fun e e' he he' =>
      .inl ((of_decide_eq_true he).trans (of_decide_eq_true he').symm)) h
    have hemitted := Event.sublist_of_not_mem (hn t) (hsub.trans hpart)
    have hboth := (hemitted.trans List.filter_sublist).filter fun e => decide (e.id = n.id)
    have hpair : [Event.dismissed n.id t, .notify n].filter (fun e => decide (e.id = n.id)) =
        [.dismissed n.id t, .notify n] := by
      simp [Event.id]
    rw [hpair] at hboth
    exact horder.not_sublist n t (hboth.trans (hbehind.isPrefix.sublist.trans List.filter_sublist))

/-- One asks for the dismissal of a notification that is stored and not announced yet, and takes it back after
it was announced. -/
theorem no_overtaking_where_clear_of_patience :
    let a : Address := ⟨.user, "u"⟩
    let plain := Service.overMemory ⟨0⟩ {} Hooks.none
    let xs : List Turn := [.own (.connect .epoch [a]),
      .own (.call .epoch (.notify ⟨1⟩ a "note" .queued (some "g") []))]
    let s := (Turn.runAll plain xs (Service.initial {} Memory.empty)).recorded
    let n : Notification := .create ⟨2⟩ .epoch (some a) "note" .queued (some "g") []
    let jobs : Fin 3 → Job
      | 0 => ⟨.epoch, .notify ⟨2⟩ a "note" .queued (some "g") []⟩
      | 1 => ⟨.epoch, .dismiss ⟨2⟩⟩
      | 2 => ⟨.epoch, .notify ⟨3⟩ a "note" .timeseries none []⟩
    let is : List (Fin 3) := [0, 0, 0, 2, 1, 0, 1, 0, 1, 1, 0, 2, 1, 2, 2, 2, 0, 0, 2, 2]
    let ms : List (Concurrent.Move (Fin 3)) := is.map .caller ++ List.replicate 5 (.visit (.receive 0))
    let run (ns : List (Concurrent.Move (Fin 3))) := Concurrent.runAll plain.recorded jobs ns (.start s)
    let made := Concurrent.made plain.recorded jobs ms (.start s)
    let clear (X : Event → Bool) := ∀ ns, ns <+: ms → (run ns).IsClear jobs X
    let isAt (e : Event) : Bool := e.target = some a
    let received := (Concurrent.readings plain.recorded jobs 0 ms (.start s)).filterMap Received.item?
    (Turn.freshIds xs).Nodup ∧ (∀ i, (jobs i).isWriter ∨ (jobs i).isDismissal) ∧ Job.AreDistinct jobs ∧
      (∀ i id, (jobs i).call.fresh? = some id → id ∉ Turn.freshIds xs) ∧ clear isAt ∧ clear (·.id = n.id) ∧
      (run ms).emitted.filter isAt = made.filter isAt ∧
      (∀ t, ¬ [.dismissed n.id t, .notify n].Sublist received) ∧
      received.map Event.id = [⟨1⟩, ⟨1⟩, ⟨2⟩, ⟨2⟩, ⟨3⟩] := by
  intro a plain xs s n jobs is ms run made clear isAt received
  have hids : (Turn.freshIds xs).Nodup := by decide
  have hjobs : ∀ i, (jobs i).isWriter ∨ (jobs i).isDismissal := by decide
  have hdistinct : Job.AreDistinct jobs := Job.areDistinct_of_ne (by decide)
  have hnew : ∀ i id, (jobs i).call.fresh? = some id → id ∉ Turn.freshIds xs := by
    have hall : ∀ i, ∀ id ∈ (jobs i).call.fresh?, id ∉ Turn.freshIds xs := by decide
    exact hall
  have hclear {X : Event → Bool} (h : ∀ ns ∈ ms.inits, (run ns).IsClear jobs X) : clear X :=
    fun ns hns => h ns ((List.mem_inits ns ms).2 hns)
  have hat : clear isAt := hclear (by decide +kernel)
  have hid : clear (·.id = n.id) := hclear (by decide +kernel)
  have hquiet : ∀ i, (run ms).owed isAt i = [] := by decide +kernel
  have hspared : ∀ v, .visit v ∈ ms → v.Spares 0 := by
    intro v hv
    obtain rfl : v = .receive 0 := by simpa [ms] using hv
    exact ⟨nofun, nofun, nofun⟩
  obtain ⟨q, hq⟩ : ∃ q, s.registry.queues.get? 0 = some q := Option.isSome_iff_exists.1 (by decide +kernel)
  have has : s.registry.addresses 0 = some [a] := by decide +kernel
  have hitems : ∀ t, .dismissed n.id t ∉ q.items := by
    have hall : ∀ q ∈ s.registry.queues.get? 0, ∀ e ∈ q.items, e.id ≠ n.id := by decide +kernel
    exact fun t ht => hall q hq _ ht rfl
  have hreceived : received.map Event.id = [⟨1⟩, ⟨1⟩, ⟨2⟩, ⟨2⟩, ⟨3⟩] := by decide +kernel
  obtain ⟨hout, hconnections⟩ :=
    no_overtaking_where_clear ⟨0⟩ {} Hooks.none xs hids jobs hjobs hdistinct hnew ms
  have hall := (hout a hat).2 hquiet
  have horder := (hconnections 0 [a] q has hq hspared).2 n hid hitems
  with_reducible exact ⟨hids, hjobs, hdistinct, hnew, hat, hid, hall, horder, hreceived⟩

/-- A dismissal that does not keep clear. The notification is stored, taken back by another call, and
announced after that. A client reads of it last, and nothing is stored. -/
theorem dismissal_overtakes_notification :
    let a : Address := ⟨.user, "u1"⟩
    let plain := Service.overMemory ⟨0⟩ {} Hooks.none
    let s := (Turn.runAll plain [.own (.connect .epoch [a])] (Service.initial {} Memory.empty)).recorded
    let jobs : Fin 2 → Job
      | 0 => ⟨.epoch, .notify ⟨1⟩ a "note" .queued none []⟩
      | 1 => ⟨.epoch, .dismiss ⟨1⟩⟩
    let is : List (Fin 2) := [0, 0, 0, 1, 1, 1, 1, 1, 0, 0, 0, 0]
    let ms : List (Concurrent.Move (Fin 2)) := is.map .caller ++ List.replicate 2 (.visit (.receive 0))
    let w := Concurrent.runAll plain.recorded jobs ms (.start s)
    let received := (Concurrent.readings plain.recorded jobs 0 ms (.start s)).filterMap Received.item?
    received.map Event.id = [⟨1⟩, ⟨1⟩] ∧ ¬ Event.InOrder received ∧ w.state.store.store.entries a = [] ∧
      ∀ i, (w.phase i).progress = 3 ∧ (w.phase i).stage = .outside := by
  intro a plain s jobs is ms w received
  have hreceived : received.map Event.id = [⟨1⟩, ⟨1⟩] := by decide +kernel
  have horder : ¬ Event.InOrder received := by decide +kernel
  have hstored : (w.state.store.store.entries a).length = 0 := by decide +kernel
  have hdone : ∀ i, (w.phase i).progress = 3 ∧ (w.phase i).stage = .outside := by decide +kernel
  exact ⟨hreceived, horder, List.eq_nil_of_length_eq_zero hstored, hdone⟩

end Tidings
