import Tidings.Proofs.Overtaking
import Tidings.Proofs.Seclusion
import Tidings.Proofs.Sessions
/-!
Replay and live order. Live connections hear of notifications in the order in which they are stored. A stream
replays them in the order of creation, and of those that were created in one microsecond the queued ones first.
-/
namespace Tidings

/-- One thing stands before another in a list. -/
def Before {α : Type*} (l : List α) (x y : α) : Prop := [x, y].Sublist l

instance {α : Type*} [DecidableEq α] (l : List α) (x y : α) : Decidable (Before l x y) :=
  inferInstanceAs (Decidable ([x, y].Sublist l))

namespace Before
variable {α β : Type*} {l m order : List α} {x y : α}

theorem mono (h : Before l x y) (hsub : l.Sublist m) : Before m x y := h.trans hsub

theorem map (f : α → β) (h : Before l x y) : Before (l.map f) (f x) (f y) := List.Sublist.map f h

theorem asymm (hl : l.Nodup) (h : Before l x y) : ¬ Before l y x := by
  intro hback
  induction l with
  | nil => cases h
  | cons a l ih =>
    obtain ⟨ha, hrest⟩ := List.nodup_cons.1 hl
    unfold Before at h hback
    cases h with
    | cons _ h =>
      cases hback with
      | cons _ hback => exact ih hrest h hback
      | cons_cons _ hback => exact ha (h.subset (List.mem_cons_of_mem x List.mem_cons_self))
    | cons_cons _ h =>
      cases hback with
      | cons _ hback => exact ha (hback.subset (List.mem_cons_of_mem y List.mem_cons_self))
      | cons_cons _ hback => exact ha (List.singleton_sublist.1 h)

theorem total (hx : x ∈ l) (hy : y ∈ l) (hne : x ≠ y) : Before l x y ∨ Before l y x := by
  induction l with
  | nil => cases hx
  | cons a l ih =>
    rcases List.mem_cons.1 hx with rfl | hxl
    · have hyl : y ∈ l := (List.mem_cons.1 hy).resolve_left (Ne.symm hne)
      exact .inl (List.Sublist.cons_cons x (List.singleton_sublist.2 hyl))
    · rcases List.mem_cons.1 hy with rfl | hyl
      · exact .inr (List.Sublist.cons_cons y (List.singleton_sublist.2 hxl))
      · exact (ih hxl hyl).imp (List.Sublist.cons a) (List.Sublist.cons a)

theorem ne (hl : l.Nodup) (h : Before l x y) : x ≠ y := by
  rintro rfl
  exact h.asymm hl h

/-- What stands before another in a list stands before it in every part that has both. -/
theorem of_sublist (hm : m.Nodup) (hsub : l.Sublist m) (hx : x ∈ l) (hy : y ∈ l) (h : Before m x y) : Before l x y :=
  (total hx hy (h.ne hm)).resolve_right fun hback => h.asymm hm (hback.mono hsub)

theorem pairwise (h : l.Sublist order) : l.Pairwise (Before order) :=
  List.pairwise_iff_forall_sublist.2 fun hpair => hpair.trans h

/-- The same things in the order of one list are the same list. -/
theorem eq_of_pairwise (ho : order.Nodup) (hl : l.Pairwise (Before order)) (hm : m.Pairwise (Before order))
    (hmem : ∀ x, x ∈ l ↔ x ∈ m) : l = m := by
  have hnodup {l : List α} (hl : l.Pairwise (Before order)) : l.Nodup := hl.imp fun h => h.ne ho
  have hperm : l.Perm m := (List.perm_ext_iff_of_nodup (hnodup hl) (hnodup hm)).2 hmem
  exact hperm.eq_of_pairwise (fun _ _ _ _ hab hba => absurd hba (hab.asymm ho)) hl hm

theorem sublist_iff [DecidableEq α] (ho : order.Nodup) (hsub : l ⊆ order) :
    l.Sublist order ↔ l.Pairwise (Before order) := by
  refine ⟨pairwise, fun hl => ?_⟩
  have heq : l = order.filter (· ∈ l) :=
    eq_of_pairwise ho hl (pairwise List.filter_sublist) fun x => by simpa using fun hx => hsub hx
  rw [heq]
  exact List.filter_sublist

/-- The order of the images is that of the things, if the images are in their order and differ. -/
theorem map_iff {f : α → β} {images : List β} (ho : images.Nodup) (hsub : (l.map f).Sublist images) (hx : x ∈ l)
    (hy : y ∈ l) : Before images (f x) (f y) ↔ Before l x y := by
  refine ⟨fun h => ?_, fun h => (h.map f).mono hsub⟩
  have hne : x ≠ y := fun heq => h.ne ho (congrArg f heq)
  exact (total hx hy hne).resolve_right fun hback => h.asymm ho ((hback.map f).mono hsub)

/-- Two parts of one list agree on what they have in common. -/
theorem filter_mem [DecidableEq α] (ho : order.Nodup) (hl : l.Sublist order) (hm : m.Sublist order) :
    l.filter (· ∈ m) = m.filter (· ∈ l) :=
  eq_of_pairwise ho (pairwise (List.filter_sublist.trans hl)) (pairwise (List.filter_sublist.trans hm))
    fun x => by simp [and_comm]

end Before

theorem Instant.le_antisymm {a b : Instant} (hab : a ≤ b) (hba : b ≤ a) : a = b := by
  have horder : a.order = b.order := Int.le_antisymm hab hba
  have ha := a.nanos_lt
  have hb := b.nanos_lt
  have hparts : a.seconds = b.seconds ∧ a.nanos = b.nanos := by
    unfold order billion at *
    omega
  cases a
  cases b
  simpa using hparts

section Sorting
variable {ns queued later : List Notification} {x y : Notification}

/-- One is queued and the other of a time series, and they were created in the same microsecond. -/
def Notification.Ties (x y : Notification) : Prop :=
  x.mode = .queued ∧ y.mode = .timeseries ∧ x.createdAt = y.createdAt

instance (x y : Notification) : Decidable (x.Ties y) := inferInstanceAs (Decidable (_ ∧ _ ∧ _))

theorem distinctFrom_of_nodup {seen : List Id} (hn : (ns.map (·.id)).Nodup) (hseen : ∀ n ∈ ns, n.id ∉ seen) :
    distinctFrom seen ns = ns := by
  induction ns generalizing seen with
  | nil => rfl
  | cons n ns ih =>
    obtain ⟨hfirst, hrest⟩ := List.nodup_cons.1 hn
    have hothers : ∀ m ∈ ns, m.id ∉ n.id :: seen := fun m hm hmem => by
      rcases List.mem_cons.1 hmem with heq | hmem
      · exact hfirst (List.mem_map.2 ⟨m, hm, heq⟩)
      · exact hseen m (List.mem_cons_of_mem n hm) hmem
    rw [distinctFrom, if_neg (hseen n List.mem_cons_self), ih hrest hothers]

theorem before_replayOrder (hn : (ns.map (·.id)).Nodup) (h : Before ns x y) (hle : x.createdAt ≤ y.createdAt) :
    Before (replayOrder ns) x y := by
  rw [replayOrder, distinctFrom_of_nodup hn fun _ _ => List.not_mem_nil]
  refine List.pair_sublist_mergeSort ?_ ?_ (by simpa using hle) h
  · intro a b c hab hbc
    simp only [decide_eq_true_eq] at hab hbc ⊢
    exact Int.le_trans hab hbc
  · intro a b
    simp only [Bool.or_eq_true, decide_eq_true_eq]
    exact Int.le_total a.createdAt.order b.createdAt.order

theorem perm_replayOrder (hn : (ns.map (·.id)).Nodup) : (replayOrder ns).Perm ns := by
  rw [replayOrder, distinctFrom_of_nodup hn fun _ _ => List.not_mem_nil]
  exact List.mergeSort_perm ..

/-- What was found of the notifications that are stored: some queued ones and some of a time series. -/
structure Found (ns queued later : List Notification) : Prop where
  distinct : (ns.map (·.id)).Nodup
  created : ns.Pairwise fun x y => x.createdAt ≤ y.createdAt
  fromQueued : queued.Sublist ns
  fromLater : later.Sublist ns
  isQueued : ∀ n ∈ queued, n.mode = .queued
  isLater : ∀ n ∈ later, n.mode = .timeseries

namespace Found
variable (h : Found ns queued later)
include h

theorem nodup : ((queued ++ later).map (·.id)).Nodup := by
  rw [List.map_append]
  refine List.nodup_append.2 ⟨(h.fromQueued.map _).nodup h.distinct, (h.fromLater.map _).nodup h.distinct, ?_⟩
  rintro _ hid _ hid' rfl
  obtain ⟨x, hx, rfl⟩ := List.mem_map.1 hid
  obtain ⟨y, hy, heq⟩ := List.mem_map.1 hid'
  obtain rfl : y = x := List.inj_on_of_nodup_map h.distinct (h.fromLater.subset hy) (h.fromQueued.subset hx) heq
  have hmode := (h.isLater y hy).symm.trans (h.isQueued y hx)
  cases hmode

theorem mem_queued (hx : x ∈ queued ++ later) (hmode : x.mode = .queued) : x ∈ queued :=
  (List.mem_append.1 hx).resolve_right fun hx => nomatch hmode.symm.trans (h.isLater x hx)

theorem mem_later (hx : x ∈ queued ++ later) (hmode : x.mode = .timeseries) : x ∈ later :=
  (List.mem_append.1 hx).resolve_left fun hx => nomatch hmode.symm.trans (h.isQueued x hx)

theorem before_of_ties (hx : x ∈ queued ++ later) (hy : y ∈ queued ++ later) (hties : x.Ties y) :
    Before (replayOrder (queued ++ later)) x y := by
  obtain ⟨hqueued, hlater, heq⟩ := hties
  have hfirst : [x].Sublist queued := List.singleton_sublist.2 (h.mem_queued hx hqueued)
  have hsecond : [y].Sublist later := List.singleton_sublist.2 (h.mem_later hy hlater)
  exact before_replayOrder h.nodup (hfirst.append hsecond) (heq ▸ Int.le_refl _)

/-- Of two that were stored one after the other the first is replayed first, if they do not tie. -/
theorem before_of_before (hx : x ∈ queued ++ later) (hy : y ∈ queued ++ later) (hbefore : Before ns x y)
    (hno : ¬ y.Ties x) : Before (replayOrder (queued ++ later)) x y := by
  have hns : ns.Nodup := .of_map _ h.distinct
  have hle : x.createdAt ≤ y.createdAt := List.pairwise_iff_forall_sublist.1 h.created hbefore
  rcases List.mem_append.1 hx with hxq | hxt
  · rcases List.mem_append.1 hy with hyq | hyt
    · have hpart : Before queued x y := hbefore.of_sublist hns h.fromQueued hxq hyq
      exact before_replayOrder h.nodup (hpart.mono (List.sublist_append_left ..)) hle
    · have hsplit := (List.singleton_sublist.2 hxq).append (List.singleton_sublist.2 hyt)
      exact before_replayOrder h.nodup hsplit hle
  · rcases List.mem_append.1 hy with hyq | hyt
    · have hmem {z : Notification} := (perm_replayOrder h.nodup).mem_iff (a := z)
      refine (Before.total (hmem.2 hx) (hmem.2 hy) (hbefore.ne hns)).resolve_right fun hback => hno ?_
      have hge : y.createdAt ≤ x.createdAt :=
        List.pairwise_iff_forall_sublist.1 (sorted_replayOrder (queued ++ later)) hback
      exact ⟨h.isQueued y hyq, h.isLater x hxt, Instant.le_antisymm hge hle⟩
    · have hpart : Before later x y := hbefore.of_sublist hns h.fromLater hxt hyt
      exact before_replayOrder h.nodup (hpart.mono (List.sublist_append_right ..)) hle

/-- The order of a replay is that of storing, but of those that were created in the same microsecond the queued
ones come first. -/
theorem before_replayOrder_iff (hx : x ∈ queued ++ later) (hy : y ∈ queued ++ later) :
    Before (replayOrder (queued ++ later)) x y ↔ x.Ties y ∨ ¬ y.Ties x ∧ Before ns x y := by
  have hns : ns.Nodup := .of_map _ h.distinct
  have hreplay : (replayOrder (queued ++ later)).Nodup := .of_map _ (nodup_replayOrder _)
  have hsub : queued ++ later ⊆ ns := List.append_subset.2 ⟨h.fromQueued.subset, h.fromLater.subset⟩
  constructor
  · intro hbefore
    have hne := hbefore.ne hreplay
    by_cases hties : x.Ties y
    · exact .inl hties
    · refine .inr ⟨fun hback => hbefore.asymm hreplay (h.before_of_ties hy hx hback), ?_⟩
      refine (Before.total (hsub hx) (hsub hy) hne).resolve_right fun hback => ?_
      exact hbefore.asymm hreplay (h.before_of_before hy hx hback hties)
  · rintro (hties | ⟨hno, hbefore⟩)
    · exact h.before_of_ties hx hy hties
    · exact h.before_of_before hx hy hbefore hno

end Found

end Sorting

section Storing

namespace Step

/-- The time at which a step is taken, where it reads the clock. -/
def now? : Step → Option Instant
  | .call now _ | .sweep now | .connect now _ => some now
  | .unregister _ | .drop _ | .closeAll | .receive _ => none

def times (xs : List Step) : List Instant := xs.filterMap now?

theorem times_cons (x : Step) (xs : List Step) : times (x :: xs) = x.now?.toList ++ times xs := by
  cases hx : x.now? <;> simp [times, hx]

end Step

theorem Instant.toMicrosecond_mono {a b : Instant} (h : a ≤ b) : a.toMicrosecond ≤ b.toMicrosecond := by
  have ha := a.nanos_lt
  have hb := b.nanos_lt
  have horder : a.order ≤ b.order := h
  show a.toMicrosecond.order ≤ b.toMicrosecond.order
  unfold order toMicrosecond billion at *
  simp only at horder ⊢
  rcases Int.lt_or_eq_of_le (show a.seconds ≤ b.seconds by omega) with hlt | heq
  · omega
  · have hdiv : a.nanos / 1000 ≤ b.nanos / 1000 := Nat.div_le_div_right (by omega)
    omega

/-- The notification that a deed posts. -/
def Deed.posted? : Deed → Option Notification
  | .post n => some n
  | .withdraw _ _ => none

/-- What is stored stays in its order, and what is posted comes behind it. -/
theorem Deed.logAfter_sublist (now : Instant) (log : Log) (ds : List Deed) :
    (logAfter now log ds).Sublist (log ++ (ds.filterMap posted?).map fun n => ⟨n, now⟩) := by
  induction ds generalizing log with
  | nil => exact (List.append_nil log).symm ▸ List.Sublist.refl log
  | cons d ds ih =>
    refine (ih (d.onLog now log)).trans ?_
    cases d with
    | post n =>
      by_cases hst : n.isStored
      · rw [onLog, if_pos hst, List.append_assoc]
        exact List.Sublist.refl _
      · rw [onLog, if_neg hst]
        exact (List.Sublist.refl log).append (List.sublist_cons_self _ _)
    | withdraw id a => exact (Log.without_sublist _ _).append_right _

namespace Call
variable {service : Service Memory} {now : Instant} {log : Log} {recent : Recent} {c : Call}

theorem posted_deeds : (c.deeds service now log recent).filterMap Deed.posted? = (c.sent? service now).toList := by
  have hsend (n : Notification) : (service.sendDeeds log n).filterMap Deed.posted? =
      (if service.admits n then some n else none).toList := by
    have hreplaced : (replacement log n).filterMap Deed.posted? = [] := by
      unfold replacement
      split <;> rfl
    unfold Service.sendDeeds
    split
    · split
      · rw [List.filterMap_append, hreplaced]
        rfl
      · rfl
    · rfl
  cases c with
  | notify fresh target kind mode group payload =>
    by_cases ho : target.owner = ""
    · simp [deeds, sent?, ho]
    · simp [deeds, sent?, ho, hsend]
  | broadcast fresh kind group payload => exact hsend _
  | dismiss id =>
    refine List.filterMap_eq_nil_iff.2 fun d hd => ?_
    cases d with
    | post n => cases sent?_of_post_mem hd
    | withdraw id a => rfl
  | dismissGroup a group =>
    refine List.filterMap_eq_nil_iff.2 fun d hd => ?_
    cases d with
    | post n => cases sent?_of_post_mem hd
    | withdraw id a => rfl

end Call

/-- What a run keeps while the clock does not go back: what is stored stands in the order in which it came, and
that is the order of creation. -/
structure Chronological (order : List Id) (times : List Instant) (s : Service.State Memory) (log : Log) : Prop where
  kept : Kept order s log
  stored : log.ids.Sublist order
  created : log.Pairwise fun x y => x.notification.createdAt ≤ y.notification.createdAt
  past : ∀ x ∈ log, ∃ t ∈ times, x.notification.createdAt = t.toMicrosecond

namespace Chronological
variable {service : Service Memory} (hb : service.backend = Backend.inMemory) {order : List Id}
  {times : List Instant} {s s' : Service.State Memory} {log log' : Log} (h : Chronological order times s log)
include h

theorem shrink (hkept : Kept order s' log') (hsub : log'.Sublist log) (later : List Instant) :
    Chronological order (times ++ later) s' log' where
  kept := hkept
  stored := (hsub.map _).trans h.stored
  created := h.created.sublist hsub
  past x hx := by
    obtain ⟨t, ht, heq⟩ := h.past x (hsub.subset hx)
    exact ⟨t, List.mem_append_left later ht, heq⟩

include hb

theorem call (now : Instant) (c : Call) (hfresh : ∀ id, c.fresh? = some id → id ∉ order)
    (hclock : ∀ t ∈ times, t ≤ now) : Chronological (order ++ c.fresh?.toList) (times ++ [now])
      (c.run service now s) (Deed.logAfter now log (c.deeds service now log s.recent)) := by
  have hkept := h.kept.call hb now c hfresh
  have hsub := Deed.logAfter_sublist now log (c.deeds service now log s.recent)
  rw [Call.posted_deeds] at hsub
  generalize Deed.logAfter now log (c.deeds service now log s.recent) = log' at *
  let new : Log := (c.sent? service now).toList.map fun n => ⟨n, now⟩
  have hnew : ∀ x ∈ new, x.notification.createdAt = now.toMicrosecond := by
    intro x hx
    obtain ⟨n, hn, rfl⟩ := List.mem_map.1 hx
    exact (Call.of_sent? (Option.mem_toList.1 hn)).2.2
  have hids : new.ids.Sublist c.fresh?.toList := by
    cases hsent : c.sent? service now with
    | none => simp [new, hsent, Log.ids]
    | some n => simp [new, hsent, Log.ids, Call.fresh?_of_sent? hsent]
  have hone : new.Pairwise fun x y => x.notification.createdAt ≤ y.notification.createdAt :=
    List.pairwise_of_forall_mem_list fun x hx y hy => by
      rw [hnew x hx, hnew y hy]
      exact Int.le_refl _
  have hlater : ∀ x ∈ log, ∀ y ∈ new, x.notification.createdAt ≤ y.notification.createdAt := by
    intro x hx y hy
    obtain ⟨t, ht, heq⟩ := h.past x hx
    rw [heq, hnew y hy]
    exact Instant.toMicrosecond_mono (hclock t ht)
  refine ⟨hkept.mono fun id hid => ?_, ?_, ?_, fun x hx => ?_⟩
  · simpa [or_comm] using hid
  · have hall := hsub.map (·.notification.id)
    rw [List.map_append] at hall
    exact hall.trans (h.stored.append hids)
  · exact (List.pairwise_append.2 ⟨h.created, hone, hlater⟩).sublist hsub
  · rcases List.mem_append.1 (hsub.subset hx) with hx | hx
    · obtain ⟨t, ht, heq⟩ := h.past x hx
      exact ⟨t, List.mem_append_left _ ht, heq⟩
    · exact ⟨now, List.mem_append_right _ List.mem_cons_self, hnew x hx⟩

theorem step (x : Step) (hfresh : ∀ id, x.fresh? = some id → id ∉ order)
    (hclock : ∀ now, x.now? = some now → ∀ t ∈ times, t ≤ now) :
    ∃ log', Chronological (order ++ x.fresh?.toList) (times ++ x.now?.toList) (x.run service s) log' := by
  have hsame {r : Registry} (hr : r.Sound) (later : List Instant) :
      ∃ log', Chronological (order ++ []) (times ++ later) (Step.withRegistry s r) log' := by
    rw [List.append_nil]
    exact ⟨log, h.shrink (h.kept.withRegistry hr) (List.Sublist.refl log) later⟩
  have hr := h.kept.registry
  cases x with
  | call now c => exact ⟨_, h.call hb now c hfresh (hclock now rfl)⟩
  | sweep now =>
    obtain ⟨log', hsub, hkept, _⟩ := h.kept.sweep hb now
    refine ⟨log', ?_⟩
    have hshrunk := h.shrink hkept hsub [now]
    rwa [← List.append_nil order] at hshrunk
  | connect now as => exact hsame (hr.register now as) [now]
  | unregister c => exact hsame (hr.unregister c) []
  | drop c => exact hsame (hr.drop c) []
  | closeAll => exact hsame hr.closeAll []
  | receive c => exact hsame (hr.receive c) []

theorem runAll (xs : List Step) (hn : (order ++ Step.freshIds xs).Nodup)
    (hclock : (times ++ Step.times xs).Pairwise (· ≤ ·)) :
    ∃ log', Chronological (order ++ Step.freshIds xs) (times ++ Step.times xs) (Step.runAll service xs s) log' := by
  induction xs generalizing order times s log with
  | nil => exact ⟨log, by simpa [Step.freshIds, Step.times, Step.runAll] using h⟩
  | cons x xs ih =>
    rw [Step.freshIds_cons, ← List.append_assoc] at hn ⊢
    rw [Step.times_cons, ← List.append_assoc] at hclock ⊢
    have hfresh : ∀ id, x.fresh? = some id → id ∉ order := fun id hid hm =>
      (List.nodup_append.1 (List.nodup_append.1 hn).1).2.2 id hm id (by simp [hid]) rfl
    have hpast : ∀ now, x.now? = some now → ∀ t ∈ times, t ≤ now := fun now hnow t ht =>
      (List.pairwise_append.1 (List.pairwise_append.1 hclock).1).2.2 t ht now (by simp [hnow])
    obtain ⟨log₁, h₁⟩ := h.step hb x hfresh hpast
    exact ih h₁ hn hclock

omit h in
/-- Every state that a run reaches from the start. -/
theorem reached (xs : List Step) (hn : (Step.freshIds xs).Nodup) (hclock : (Step.times xs).Pairwise (· ≤ ·)) :
    ∃ log, Chronological (Step.freshIds xs) (Step.times xs)
      (Step.runAll service xs (Service.initial service.settings Memory.empty)) log := by
  have hstart : Chronological [] [] (Service.initial service.settings Memory.empty) [] :=
    ⟨Kept.initial _, List.Sublist.refl _, List.Pairwise.nil, fun _ hx => (nomatch hx)⟩
  exact hstart.runAll hb xs hn hclock

end Chronological

end Storing

section Listening

/-- The identifiers of the notifications that some events tell of. -/
def Event.notices (es : List Event) : List Id := (es.filterMap notification?).map (·.id)

theorem Event.notices_append (es es' : List Event) : notices (es ++ es') = notices es ++ notices es' := by
  simp [notices]

theorem Event.notices_sublist {es es' : List Event} (h : es.Sublist es') : (notices es).Sublist (notices es') :=
  (h.filterMap _).map _

/-- What a connection has not read yet. -/
def Registry.waiting (r : Registry) (c : ConnectionId) : List Event := ((r.queues.get? c).map (·.items)).getD []

namespace Step

/-- The identifiers of the notifications that a connection reads of in a run. -/
def noticed (service : Service Memory) (c : ConnectionId) (xs : List Step) (s : Service.State Memory) : List Id :=
  Event.notices ((received service c xs s).filterMap Received.item?)

variable (service : Service Memory) (c : ConnectionId)

/-- What a step puts into the queue of a connection comes behind what was there. -/
theorem waiting_call {s : Service.State Memory} (hs : s.registry.Sound) (now : Instant) (call : Call) :
    (Event.notices ((call.run service now s).registry.waiting c)).Sublist
      (Event.notices (s.registry.waiting c) ++ call.fresh?.toList) := by
  obtain ⟨es, hdoes, hsent⟩ := call.perform_does service now s
  rw [← call.run_eq_perform] at hdoes
  obtain ⟨_, _, hqueues⟩ := Registry.deliverAll_spec now es hs
  have hwaiting : ((call.run service now s).registry.waiting c).Sublist (s.registry.waiting c ++ es) := by
    rw [Registry.waiting, Registry.waiting, hdoes.registry, hqueues]
    cases s.registry.queues.get? c with
    | none => exact List.nil_sublist _
    | some q => exact (q.items_foldl_push_sublist _).trans ((List.Sublist.refl _).append List.filter_sublist)
  have hids : (Event.notices es).Sublist call.fresh?.toList := by
    refine (hsent.map _).trans ?_
    cases hn : call.sent? service now with
    | none => exact List.nil_sublist _
    | some n =>
      rw [Call.fresh?_of_sent? hn]
      exact List.Sublist.refl _
  have hall := Event.notices_sublist hwaiting
  rw [Event.notices_append] at hall
  exact hall.trans ((List.Sublist.refl _).append hids)

/-- What a connection reads in a step and what is left then was waiting, or is put behind. -/
theorem noticed_step {s : Service.State Memory} (hs : s.registry.Sound) (x : Step) :
    (Event.notices ((x.reading? c s.registry).toList.filterMap Received.item? ++
      (x.run service s).registry.waiting c)).Sublist (Event.notices (s.registry.waiting c) ++ x.fresh?.toList) := by
  have hrest {r : Registry} (h : (r.waiting c).Sublist (s.registry.waiting c)) :
      (Event.notices (r.waiting c)).Sublist (Event.notices (s.registry.waiting c) ++ []) := by
    rw [List.append_nil]
    exact Event.notices_sublist h
  have hitems {r : Registry} (f : Queue Event → Queue Event) (hf : ∀ q, (f q).items = q.items)
      (hqueues : r.queues.get? c = (s.registry.queues.get? c).map f) :
      (r.waiting c).Sublist (s.registry.waiting c) := by
    rw [Registry.waiting, hqueues, Registry.waiting]
    cases s.registry.queues.get? c with
    | none => exact List.Sublist.refl _
    | some q =>
      have hsame : (f q).items.Sublist q.items := (hf q).symm ▸ List.Sublist.refl q.items
      exact hsame
  cases x with
  | call now call => exact waiting_call service c hs now call
  | sweep now => exact hrest (by rw [registry_sweep])
  | connect now as =>
    refine hrest ?_
    rw [Registry.waiting, show (run service _ s).registry = (s.registry.register now as).2 from rfl,
      Registry.queues_register]
    split
    · exact List.nil_sublist _
    · exact List.Sublist.refl _
  | unregister d =>
    exact hrest (hitems _ (fun q => by split <;> rfl) (Registry.queues_unregister s.registry d c))
  | drop d =>
    refine hrest ?_
    rw [Registry.waiting, show (run service _ s).registry = s.registry.drop d from rfl, Registry.queues_drop]
    split
    · exact List.nil_sublist _
    · exact List.Sublist.refl _
  | closeAll =>
    exact hrest (hitems _ (fun q => by split <;> rfl) (Registry.queues_closeAll s.registry c))
  | receive d =>
    have hwaiting : ((Step.receive d).reading? c s.registry).toList.filterMap Received.item? ++
        ((Step.receive d).run service s).registry.waiting c = s.registry.waiting c := by
      rw [Registry.waiting, show (run service _ s).registry = (s.registry.receive d).2 from rfl,
        Registry.queues_receive, Registry.waiting, reading?]
      by_cases hd : d = c
      · subst hd
        rw [if_pos rfl, Registry.receive]
        cases s.registry.queues.get? d with
        | none => rfl
        | some q =>
          have hone : [q.receive.1].filterMap Received.item? = q.receive.1.item?.toList := by
            cases q.receive.1 <;> rfl
          simpa [hone] using q.items_receive
      · simp [hd]
    rw [hwaiting]
    exact List.sublist_append_left _ _

/-- A connection reads of notifications in the order in which they came. -/
theorem noticed_sublist {opened : List (List Address)} {s : Service.State Memory} (hs : s.registry.Routed opened)
    (xs : List Step) :
    (noticed service c xs s).Sublist (Event.notices (s.registry.waiting c) ++ freshIds xs) := by
  induction xs generalizing s opened with
  | nil => exact List.nil_sublist _
  | cons x xs ih =>
    have hstep := noticed_step service c hs.sound x
    have hrouted : (x.run service s).registry.Routed (opened ++ connected [x]) := routed_run hs x
    have hlater := ih hrouted
    rw [Event.notices_append] at hstep
    have hsplit : noticed service c (x :: xs) s = Event.notices ((x.reading? c s.registry).toList.filterMap
        Received.item?) ++ noticed service c xs (x.run service s) := by
      rw [noticed, received, List.filterMap_append, Event.notices_append, noticed]
    have hboth := hlater.append_left
      (Event.notices ((x.reading? c s.registry).toList.filterMap Received.item?))
    rw [← List.append_assoc] at hboth
    rw [hsplit, freshIds_cons, ← List.append_assoc]
    exact hboth.trans (hstep.append_right _)

end Step

end Listening

section Opened

/-- The notifications that are stored, in the order in which they came. -/
def Log.notifications (log : Log) : List Notification := log.map (·.notification)

/-- A stream over a memory starts with what its readings give. -/
theorem Stream.start_memory {service : Service Memory} (hb : service.backend = Backend.inMemory) (now : Instant)
    (scopes : List Address) (since : Option Instant) (s : Service.State Memory) :
    (Stream.start service now scopes since s).1 =
      .ok (.ofFound s.registry.next ((fetches since scopes).flatMap fun f => f.onMemory s.store)) := by
  simp only [start, load_eq hb]
  rfl

/-- What a stream over a memory finds of them at one address. -/
theorem Chronological.found {service : Service Memory} (hb : service.backend = Backend.inMemory) {order : List Id}
    {times : List Instant} {s : Service.State Memory} {log : Log} (h : Chronological order times s log)
    (now : Instant) (a : Address) (since : Option Instant) :
    ∃ t queued later, (Stream.start service now [a] since s).1 = .ok t ∧
      t.replay = replayOrder (queued ++ later) ∧ Found log.notifications queued later := by
  have hpart (p : Stored → Bool) : ((log.filter p).map (·.notification)).Sublist log.notifications :=
    List.filter_sublist.map _
  have hcreated : log.notifications.Pairwise fun x y => x.createdAt ≤ y.createdAt := List.pairwise_map.2 h.created
  have hsorted (p : Stored → Bool) : Log.byCreation ((log.filter p).map (·.notification)) =
      (log.filter p).map (·.notification) := (hcreated.sublist (hpart p)).insertionSort_eq
  have hids : (log.notifications.map (·.id)).Nodup := by
    rw [Log.notifications, List.map_map]
    exact h.kept.store.sound.distinct
  have hstart := Stream.start_memory hb now [a] since s
  have hlog : (fetches since [a]).flatMap (fun f => f.onMemory s.store) =
      (fetches since [a]).flatMap fun f => f.onLog log :=
    congrArg (fetches since [a]).flatMap (funext fun f => f.onMemory_eq h.kept.store)
  have hqueued : ∀ n ∈ log.queued a, n.mode = .queued := fun n hn => (Log.mem_queued.1 hn).1
  rw [hlog] at hstart
  cases since with
  | none =>
    refine ⟨_, log.queued a, [], hstart, ?_, hids, hcreated, ?_, List.nil_sublist _, hqueued, fun _ hn => (nomatch hn)⟩
    · rfl
    · rw [Log.queued, hsorted]
      exact hpart _
  | some t =>
    refine ⟨_, log.queued a, log.since a t, hstart, ?_, hids, hcreated, ?_, ?_, hqueued, fun n hn => ?_⟩
    · simp [Stream.ofFound, fetches, Fetch.onLog]
    · rw [Log.queued, hsorted]
      exact hpart _
    · rw [Log.since, hsorted]
      exact hpart _
    · rw [Log.since, hsorted] at hn
      obtain ⟨x, hx, rfl⟩ := List.mem_map.1 hn
      have hkind := (List.mem_filter.1 hx).2
      simp only [Bool.and_eq_true, decide_eq_true_eq] at hkind
      exact hkind.2.1

/-- While the clock does not go back, a connection reads of notifications in the order in which they came, and a
stream of one address replays them in that order, too, except where a queued one and one of a time series were
created in the same microsecond: there the queued one comes first, whichever was stored first. So where no time
series notification was stored before a queued one of the same microsecond, replay and live order agree. -/
theorem replay_follows_live_order (self : Id) (settings : Settings) (hooks : Hooks) (xs : List Step)
    (hfresh : (Step.freshIds xs).Nodup) (hclock : (Step.times xs).Pairwise (· ≤ ·)) (now : Instant) (a : Address)
    (since : Option Instant) :
    let service := Service.overMemory self settings hooks
    let start := Service.initial settings Memory.empty
    let order := Step.freshIds xs
    ∃ t, (Stream.start service now [a] since (Step.runAll service xs start)).1 = .ok t ∧
      (∀ x ∈ t.replay, ∀ y ∈ t.replay,
        Before t.replay x y ↔ x.Ties y ∨ ¬ y.Ties x ∧ Before order x.id y.id) ∧
      (∀ c, (Step.noticed service c xs start).Sublist order) ∧
      ((t.replay.map (·.id)).Sublist order ↔
        ∀ x ∈ t.replay, ∀ y ∈ t.replay, x.Ties y → Before order x.id y.id) ∧
      ((t.replay.map (·.id)).Sublist order → ∀ c,
        (t.replay.map (·.id)).filter (· ∈ Step.noticed service c xs start) =
          (Step.noticed service c xs start).filter (· ∈ t.replay.map (·.id))) := by
  intro service start order
  have hb : service.backend = Backend.inMemory := rfl
  obtain ⟨log, h⟩ := Chronological.reached hb xs hfresh hclock
  obtain ⟨t, queued, later, hstart, hreplay, hfound⟩ := h.found hb now a since
  have hids : (log.notifications.map (·.id)).Sublist order := by
    rw [Log.notifications, List.map_map]
    exact h.stored
  have hmem {x : Notification} (hx : x ∈ t.replay) : x ∈ queued ++ later ∧ x ∈ log.notifications := by
    have hx : x ∈ queued ++ later := (perm_replayOrder hfound.nodup).mem_iff.1 (hreplay ▸ hx)
    exact ⟨hx, List.append_subset.2 ⟨hfound.fromQueued.subset, hfound.fromLater.subset⟩ hx⟩
  have hpairs : ∀ x ∈ t.replay, ∀ y ∈ t.replay,
      Before t.replay x y ↔ x.Ties y ∨ ¬ y.Ties x ∧ Before order x.id y.id := fun x hx y hy => by
    rw [hreplay, hfound.before_replayOrder_iff (hmem hx).1 (hmem hy).1,
      Before.map_iff hfresh hids (hmem hx).2 (hmem hy).2]
  have hnoticed (c : ConnectionId) : (Step.noticed service c xs start).Sublist order :=
    Step.noticed_sublist service c (Registry.Routed.ofCapacity settings.queueCapacity) xs
  refine ⟨t, hstart, hpairs, hnoticed, ⟨fun hsub x hx y hy hties => ?_, fun hties => ?_⟩,
    fun hsub c => Before.filter_mem hfresh hsub (hnoticed c)⟩
  · exact (((hpairs x hx y hy).2 (.inl hties)).map (·.id)).mono hsub
  · have hknown : t.replay.map (·.id) ⊆ order := fun id hid => by
      obtain ⟨x, hx, rfl⟩ := List.mem_map.1 hid
      exact hids.subset (List.mem_map_of_mem (hmem hx).2)
    refine (Before.sublist_iff hfresh hknown).2 (List.pairwise_map.2 (List.pairwise_iff_forall_sublist.2 ?_))
    intro x y hxy
    have hx := hxy.subset List.mem_cons_self
    have hy := hxy.subset (List.mem_cons_of_mem x List.mem_cons_self)
    rcases (hpairs x hx y hy).1 hxy with hpair | hpair
    · exact hties x hx y hy hpair
    · exact hpair.2

/-- Two come in one microsecond and a third one second later. -/
theorem replay_follows_live_order_of_two_times :
    let a : Address := ⟨.session, "s1"⟩
    let later : Instant := ⟨1, 0, by decide, by decide, by decide⟩
    let service := Service.overMemory ⟨0⟩ {} Hooks.none
    let start := Service.initial {} Memory.empty
    let xs : List Step := [.connect .epoch [a], .call .epoch (.notify ⟨1⟩ a "note" .timeseries none []),
      .call .epoch (.notify ⟨2⟩ a "note" .queued none []), .call later (.notify ⟨3⟩ a "note" .queued none []),
      .receive 0, .receive 0]
    (Step.noticed service 0 xs start).Sublist [⟨1⟩, ⟨2⟩, ⟨3⟩] ∧
      ∃ t, (Stream.start service later [a] (some .epoch) (Step.runAll service xs start)).1 = .ok t ∧
        ∀ x ∈ t.replay, ∀ y ∈ t.replay, x.id = ⟨2⟩ → y.id = ⟨3⟩ → ¬ y.Ties x → Before t.replay x y := by
  intro a later service start xs
  obtain ⟨t, hstart, hpairs, hnoticed, _⟩ := replay_follows_live_order ⟨0⟩ {} Hooks.none xs (by decide)
    (by decide +kernel) later a (some .epoch)
  refine ⟨hnoticed 0, t, hstart, fun x hx y hy hid hid' hno => (hpairs x hx y hy).2 (.inr ⟨hno, ?_⟩)⟩
  rw [hid, hid']
  exact (by decide : Before (Step.freshIds xs) ⟨2⟩ ⟨3⟩)

/-- One of a time series is stored, then a queued one in the same microsecond. A connection that is there reads
of them in this order, and a stream that is opened later replays them the other way round. -/
theorem replay_upsets_a_tie :
    let a : Address := ⟨.session, "s1"⟩
    let before : Instant := ⟨-1, 0, by decide, by decide, by decide⟩
    let service := Service.overMemory ⟨0⟩ {} Hooks.none
    let start := Service.initial {} Memory.empty
    let xs : List Step := [.connect .epoch [a], .call .epoch (.notify ⟨1⟩ a "note" .timeseries none []),
      .call .epoch (.notify ⟨2⟩ a "note" .queued none []), .receive 0, .receive 0]
    (Step.freshIds xs).Nodup ∧ (Step.times xs).Pairwise (· ≤ ·) ∧
      Step.noticed service 0 xs start = [⟨1⟩, ⟨2⟩] ∧
      ∃ t, (Stream.start service .epoch [a] (some before) (Step.runAll service xs start)).1 = .ok t ∧
        t.replay.map (·.id) = [⟨2⟩, ⟨1⟩] := by
  intro a before service start xs
  have hreplay : (replayOrder ((fetches (some before) [a]).flatMap fun f =>
      f.onMemory (Step.runAll service xs start).store)).map (·.id) = [⟨2⟩, ⟨1⟩] := by
    simp only [fetches, List.flatMap_cons, List.flatMap_nil, List.append_nil, Option.map_some, Option.toList_some,
      Fetch.onMemory, Memory.queued, Memory.since, Memory.select, replayOrder, Memory.Represents.byCreation_eq]
    decide +kernel
  exact ⟨by decide, by decide +kernel, by decide +kernel, _, Stream.start_memory rfl .epoch [a] (some before) _, hreplay⟩

end Opened

end Tidings
