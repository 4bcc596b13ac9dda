import Tidings.Proofs.Schedule
/-!
The events of the changes, in the order in which they are made. A caller emits its events after its change, and
as long as one caller at a time has events of some kind to emit, these come out in the order of the changes.
-/
namespace Tidings
open Log

namespace Event

/-- Whether an event takes the notification back that another one announces. -/
def Undoes : Event → Event → Prop
  | .dismissed id _, .notify n => id = n.id
  | .dismissed _ _, .dismissed _ _ => False
  | .notify _, _ => False

instance : DecidableRel Undoes
  | .dismissed id _, .notify n => inferInstanceAs (Decidable (id = n.id))
  | .dismissed _ _, .dismissed _ _ => inferInstanceAs (Decidable False)
  | .notify _, _ => inferInstanceAs (Decidable False)

theorem Undoes.eq {e e' : Event} (h : e.Undoes e') : ∃ n t, e = .dismissed n.id t ∧ e' = .notify n := by
  cases e with
  | notify n => exact h.elim
  | dismissed id t =>
    cases e' with
    | notify n =>
      cases h
      exact ⟨n, t, rfl, rfl⟩
    | dismissed id' t' => exact h.elim

/-- Nothing is announced after it was taken back. -/
def InOrder (es : List Event) : Prop := es.Pairwise fun e e' => ¬ e.Undoes e'

instance (es : List Event) : Decidable (InOrder es) :=
  inferInstanceAs (Decidable (es.Pairwise fun e e' => ¬ e.Undoes e'))

theorem InOrder.not_sublist {es : List Event} (h : InOrder es) (n : Notification) (t : Option Address) :
    ¬ [.dismissed n.id t, .notify n].Sublist es :=
  fun hsub => List.pairwise_pair.1 (h.sublist hsub) rfl

end Event

/-- A call that takes a notification back by its identifier. -/
def Job.isDismissal (job : Job) : Bool :=
  match job.call with
  | .dismiss _ => true
  | .notify .. | .broadcast .. | .dismissGroup _ _ => false

theorem Service.plan_ne_dismissal {σ : Type} (service : Service σ) (n : Notification) (id : Id) :
    service.plan n ≠ .dismissal id := by
  unfold plan
  repeat' split
  all_goals exact fun h => (nomatch h)

theorem Job.isDismissal_of_plan {σ : Type} {service : Service σ} {job : Job} {id : Id}
    (h : job.plan service = .dismissal id) : job.isDismissal := by
  obtain ⟨now, call⟩ := job
  cases call with
  | notify fresh target kind mode group payload =>
    simp only [plan] at h
    split at h
    · cases h
    · exact absurd h (service.plan_ne_dismissal _ id)
  | broadcast fresh kind group payload => exact absurd h (service.plan_ne_dismissal _ id)
  | dismiss id => rfl
  | dismissGroup a group => cases h

theorem Job.isOrderly_of_isDismissal {σ : Type} {job : Job} (h : job.isDismissal) (service : Service σ) :
    job.IsOrderly service := by
  obtain ⟨now, call⟩ := job
  cases call with
  | dismiss id =>
    intro n hplan
    cases hplan
  | notify fresh target kind mode group payload => cases h
  | broadcast fresh kind group payload => cases h
  | dismissGroup a group => cases h

/-- What a change takes back is stored. -/
theorem Change.of_withdraw_mem {σ : Type} {service : Service σ} {job : Job} {a : Address} {x : Change}
    (hplan : job.plan service = .inTurn a x) {log : Log} {id : Id} {b : Address}
    (h : .withdraw id b ∈ x.deeds a log) :
    ∃ s ∈ log, s.notification.id = id ∧ s.notification.target = some b := by
  have hfound {p : Stored → Bool} (hp : ∀ s, p s → isAt a s)
      (h : .withdraw id b ∈ (log.find? p).toList.map fun s => Deed.withdraw s.notification.id a) :
      ∃ s ∈ log, s.notification.id = id ∧ s.notification.target = some b := by
    obtain ⟨s, hs, heq⟩ := List.mem_map.1 h
    have hs : log.find? p = some s := by simpa using hs
    cases heq
    exact ⟨s, List.mem_of_find?_eq_some hs, rfl, by simpa [isAt] using hp s (List.find?_some hs)⟩
  cases x with
  | store n =>
    obtain ⟨ha, _⟩ := Job.of_store hplan
    rcases List.mem_append.1 h with h | h
    · rw [replacement_eq ha] at h
      exact hfound (fun s hs => (Bool.and_eq_true_iff.1 (holds_of_yields ha hs)).1) h
    · cases List.mem_singleton.1 h
  | removeGroup group =>
    exact hfound (fun s hs => (Bool.and_eq_true_iff.1 (Bool.and_eq_true_iff.1 hs).2).1) h

theorem Deed.target_of_mem_events {ds : List Deed} {a : Address} (h : ∀ d ∈ ds, d.event.target = some a)
    {e : Event} (he : e ∈ events ds) : e.target = some a := by
  obtain ⟨d, hd, rfl⟩ := List.mem_map.1 he
  exact h d hd

theorem Phase.pending_of_progress {p : Phase} (h : p.progress < 3) : p.pending = [] := by
  cases p with
  | telling k rest => exact absurd h (lt_irrefl 3)
  | doing es reply => exact absurd h (lt_irrefl 3)
  | _ => rfl

namespace Concurrent
variable {ι σ : Type}

/-- The events of some kind that a caller still has to emit. -/
def owed (X : Event → Bool) (w : Concurrent ι σ) (i : ι) : List Event := (w.phase i).pending.filter X

/-- One caller at a time has such events to emit. -/
def OneOwes (X : Event → Bool) (w : Concurrent ι σ) : Prop :=
  ∀ i j, w.owed X i ≠ [] → w.owed X j ≠ [] → i = j

/-- No dismissal by an identifier has such events to emit while another call has. -/
def IsClear (jobs : ι → Job) (X : Event → Bool) (w : Concurrent ι σ) : Prop :=
  ∀ i j, (jobs i).isDismissal → w.owed X i ≠ [] → w.owed X j ≠ [] → i = j

instance [Fintype ι] [DecidableEq ι] (jobs : ι → Job) (X : Event → Bool) (w : Concurrent ι σ) :
    Decidable (w.IsClear jobs X) :=
  inferInstanceAs (Decidable (∀ i j, (jobs i).isDismissal → w.owed X i ≠ [] → w.owed X j ≠ [] → i = j))

/-- The events of the change that a caller makes in a move. -/
def madeIn (w w' : Concurrent ι σ) : Move ι → List Event
  | .caller i => if (w.phase i).progress < 3 then (w'.phase i).pending else []
  | .visit _ => []

/-- The events of the changes that are made in a schedule, in the order in which they are made. -/
def made [DecidableEq ι] (service : Service σ) (jobs : ι → Job) :
    List (Move ι) → Concurrent ι σ → List Event
  | [], _ => []
  | m :: ms, w => madeIn w (m.run service jobs w) m ++ made service jobs ms (m.run service jobs w)

section Moves
variable {service : Service Memory} {jobs : ι → Job} {w w' : Concurrent ι (Posted Memory)}
  {log log' : Log} {m : Move ι}

/-- A caller makes its change. -/
structure Decides [DecidableEq ι] (jobs : ι → Job) (w w' : Concurrent ι (Posted Memory)) (log : Log)
    (i : ι) (ds : List Deed) (p : Phase) : Prop where
  leads : w.Leads w' i p [] []
  before : (w.phase i).progress < 3
  after : p.progress = 3
  pending : p.pending = Deed.events ds
  posts : ∀ n, .post n ∈ ds → (jobs i).call.fresh? = some n.id
  withdrawals : ∀ id a, .withdraw id a ∈ ds →
    ∃ s ∈ log, s.notification.id = id ∧ s.notification.target = some a
  place : ∃ a, ∀ d ∈ ds, d.event.target = some a

/-- What a move does as far as events are concerned: nothing, or a caller emits what it had to emit, or one
makes its change. -/
inductive Voiced [DecidableEq ι] (jobs : ι → Job) (w w' : Concurrent ι (Posted Memory)) (log : Log)
    (m : Move ι) : Log → Prop where
  | still (hmade : madeIn w w' m = []) (hphase : w'.phase = w.phase) (hemitted : w'.emitted = w.emitted) :
    Voiced jobs w w' log m log
  | speak {i : ι} {p : Phase} {is : List ι} {es : List Event} (hmade : madeIn w w' m = [])
    (h : w.Leads w' i p is es) (hpending : (w.phase i).pending = es ++ p.pending) :
    Voiced jobs w w' log m log
  | decide {i : ι} {ds : List Deed} {p : Phase} (hmade : madeIn w w' m = Deed.events ds)
    (h : Decides jobs w w' log i ds p) : Voiced jobs w w' log m (Deed.logAfter (jobs i).now log ds)

theorem Moved.voiced [DecidableEq ι] (h : Moved service jobs w w' log m log') :
    Voiced jobs w w' log m log' := by
  have hmade {i : ι} {p : Phase} {is : List ι} {es : List Event} (hled : w.Leads w' i p is es)
      (hp : (w.phase i).progress < 3) : madeIn w w' (.caller i) = p.pending := by
    rw [madeIn, if_pos hp, hled.self]
  cases h with
  | still m hphase _ hemitted =>
    refine .still ?_ hphase hemitted
    cases m with
    | visit v => rfl
    | caller i =>
      rw [madeIn, hphase]
      split
      · next hp => exact Phase.pending_of_progress hp
      · rfl
  | @pass i p hled hp =>
    refine .speak ?_ hled (hp.before.trans hp.after.symm)
    rw [madeIn, hled.self, hp.after, ite_self]
  | @enter i k locks hi _ hled =>
    refine .speak ((hmade hled ?_).trans rfl) hled ?_
    · simp [hi, Phase.progress]
    · rw [hi]
      rfl
  | @change i a x k rest hplan hi hled hevents hfit =>
    have hbefore : (w.phase i).progress < 3 := by simp [hi, Phase.progress]
    refine .decide ((hmade hled hbefore).trans hevents) ⟨hled, hbefore, rfl, hevents, ?_, ?_, a, ?_⟩
    · exact fun n hn => Change.fresh?_of_post_mem hplan hn
    · exact fun id b hd => Change.of_withdraw_mem hplan hd
    · exact fun d hd => Change.target_of_mem_deeds hplan hd
  | @effect i p e hled hpending _ hbefore _ =>
    refine .speak ?_ hled hpending
    rw [madeIn, if_neg (by simp [hbefore])]
  | @remove i x a hplan hi hx ha es reply hled hevents =>
    have hbefore : (w.phase i).progress < 3 := by simp [hi, Phase.progress]
    have hd : Decides jobs w w' log i [.withdraw x.notification.id a] (.doing es reply) := by
      refine ⟨hled, hbefore, rfl, hevents, fun n hm => ?_, fun id b hm => ?_, a, fun d hm => ?_⟩
      · cases List.mem_singleton.1 hm
      · cases List.mem_singleton.1 hm
        exact ⟨x, hx, rfl, ha⟩
      · rw [List.mem_singleton.1 hm]
        rfl
    exact .decide ((hmade hled hbefore).trans hd.pending) hd

/-- What a change announces is new, and what it takes back was stored. -/
theorem Decides.of_mem [DecidableEq ι] {i : ι} {ds : List Deed} {p : Phase}
    (h : Decides jobs w w' log i ds p) {e : Event} (he : e ∈ Deed.events ds) :
    (∃ n, .post n ∈ ds ∧ e = .notify n) ∨
      ∃ s ∈ log, e = .dismissed s.notification.id s.notification.target := by
  obtain ⟨d, hd, rfl⟩ := List.mem_map.1 he
  cases d with
  | post n => exact .inl ⟨n, hd, rfl⟩
  | withdraw id a =>
    obtain ⟨s, hs, rfl, ha⟩ := h.withdrawals id a hd
    exact .inr ⟨s, hs, by rw [ha]; rfl⟩

/-- What is true of the events of the changes that were made. Each identifier occurs at one address, where
its entry is if it is stored, and does not occur before its notification is stored. -/
structure Chronicle (jobs : ι → Job) (made : List Event) (w : Concurrent ι (Posted Memory)) (log : Log) :
    Prop where
  order : Event.InOrder made
  spent : ∀ e ∈ made, ∀ i, (w.phase i).progress < 3 → (jobs i).call.fresh? ≠ some e.id
  placed : ∀ e ∈ made, ∀ s ∈ log, s.notification.id = e.id → s.notification.target = e.target
  agree : ∀ e ∈ made, ∀ e' ∈ made, e.id = e'.id → e.target = e'.target
  owed : ∀ i, ∀ e ∈ (w.phase i).pending, e ∈ made

theorem chronicle_start (s : Service.State (Posted Memory)) (log : Log) :
    (start s).Chronicle jobs [] log where
  order := .nil
  spent e he := by cases he
  placed e he := by cases he
  agree e he := by cases he
  owed i e he := by cases he

variable [DecidableEq ι] [Fintype ι] {made : List Event}

section Decide
variable {i : ι} {ds : List Deed} {p : Phase} (h : w.Chronicle jobs made log) (hw : Underway service jobs w log)
  (hd : Decides jobs w w' log i ds p)
include hd

include hw in
theorem Decides.unused {n : Notification} (hn : .post n ∈ ds) : n.id ∉ log.ids :=
  (hw.callers i).unused hd.before n.id (hd.posts n hn)

include h

omit [Fintype ι] in
theorem Decides.unspent {n : Notification} (hn : .post n ∈ ds) {e : Event} (he : e ∈ made) : n.id ≠ e.id :=
  fun heq => h.spent e he i hd.before (heq ▸ hd.posts n hn)

include hw

theorem Chronicle.order_decide : Event.InOrder (made ++ Deed.events ds) := by
  -- what is undone was announced in this change, and its identifier is neither stored nor told of yet
  have hnone : ∀ e, e ∈ made ∨ e ∈ Deed.events ds → ∀ e' ∈ Deed.events ds, ¬ e.Undoes e' := by
    intro e he e' he' hundoes
    obtain ⟨n, t, rfl, rfl⟩ := hundoes.eq
    rcases hd.of_mem he' with ⟨n', hn, heq⟩ | ⟨s, _, heq⟩
    · cases heq
      rcases he with he | he
      · exact hd.unspent h hn he rfl
      · rcases hd.of_mem he with ⟨n', _, heq⟩ | ⟨s, hs, heq⟩
        · cases heq
        · injection heq with hid
          exact hd.unused hw hn (hid ▸ List.mem_map_of_mem hs)
    · cases heq
  refine List.pairwise_append.2 ⟨h.order, ?_, fun e he => hnone e (.inl he)⟩
  exact List.pairwise_of_forall_mem_list fun e he => hnone e (.inr he)

theorem Chronicle.spent_decide (hdistinct : Job.AreDistinct jobs)
    (hle : ∀ j, (w.phase j).progress ≤ (w'.phase j).progress) {e : Event} (he : e ∈ made ++ Deed.events ds)
    {j : ι} (hj : (w'.phase j).progress < 3) : (jobs j).call.fresh? ≠ some e.id := by
  have hbefore : (w.phase j).progress < 3 := (hle j).trans_lt hj
  have hother : j ≠ i := by
    rintro rfl
    rw [hd.leads.self, hd.after] at hj
    exact lt_irrefl 3 hj
  rcases List.mem_append.1 he with he | he
  · exact h.spent e he j hbefore
  · rcases hd.of_mem he with ⟨n, hn, rfl⟩ | ⟨s, hs, rfl⟩
    · exact fun hid => hother (hdistinct j i n.id hid (hd.posts n hn))
    · exact fun hid => (hw.callers j).unused hbefore _ hid (List.mem_map_of_mem hs)

theorem Chronicle.placed_decide {e : Event} (he : e ∈ made ++ Deed.events ds) {now : Instant} {s : Stored}
    (hs : s ∈ Deed.logAfter now log ds) (hid : s.notification.id = e.id) :
    s.notification.target = e.target := by
  rcases Deed.of_mem_logAfter hs with hs | ⟨n, hn, _, rfl⟩ <;> rcases List.mem_append.1 he with he | he
  · exact h.placed e he s hs hid
  · rcases hd.of_mem he with ⟨n, hn, rfl⟩ | ⟨s', hs', rfl⟩
    · have hid : s.notification.id = n.id := hid
      exact absurd (hid ▸ List.mem_map_of_mem hs) (hd.unused hw hn)
    · rw [hw.store.sound.eq_of_id hs hs' hid]
      rfl
  · exact absurd hid (hd.unspent h hn he)
  · obtain ⟨a, ha⟩ := hd.place
    exact (ha _ hn).trans (Deed.target_of_mem_events ha he).symm

omit [Fintype ι] hw in
theorem Chronicle.agree_decide {e e' : Event} (he : e ∈ made ++ Deed.events ds)
    (he' : e' ∈ made ++ Deed.events ds) (hid : e.id = e'.id) : e.target = e'.target := by
  have hold {e e' : Event} (he : e ∈ made) (he' : e' ∈ Deed.events ds) (hid : e.id = e'.id) :
      e.target = e'.target := by
    rcases hd.of_mem he' with ⟨n, hn, rfl⟩ | ⟨s, hs, rfl⟩
    · exact absurd hid.symm (hd.unspent h hn he)
    · exact (h.placed e he s hs hid.symm).symm
  rcases List.mem_append.1 he with he | he <;> rcases List.mem_append.1 he' with he' | he'
  · exact h.agree e he e' he' hid
  · exact hold he he' hid
  · exact (hold he' he hid.symm).symm
  · obtain ⟨a, ha⟩ := hd.place
    exact (Deed.target_of_mem_events ha he).trans (Deed.target_of_mem_events ha he').symm

theorem Chronicle.decide (hdistinct : Job.AreDistinct jobs)
    (hle : ∀ j, (w.phase j).progress ≤ (w'.phase j).progress) (now : Instant) :
    w'.Chronicle jobs (made ++ Deed.events ds) (Deed.logAfter now log ds) where
  order := h.order_decide hw hd
  spent _ he _ hj := h.spent_decide hw hd hdistinct hle he hj
  placed _ he _ hs hid := h.placed_decide hw hd he hs hid
  agree _ he _ he' hid := h.agree_decide hd he he' hid
  owed := by
    refine hd.leads.forall_phase (P := fun _ p => ∀ e ∈ p.pending, e ∈ made ++ Deed.events ds) ?_
      fun j _ e he => ?_
    · rw [hd.pending]
      exact fun e he => List.mem_append_right _ he
    · exact List.mem_append_left _ (h.owed j e he)

end Decide

theorem Chronicle.move (h : w.Chronicle jobs made log) (hw : Underway service jobs w log)
    (hdistinct : Job.AreDistinct jobs) (hmoved : Moved service jobs w w' log m log') :
    w'.Chronicle jobs (made ++ madeIn w w' m) log' := by
  have hle := hmoved.progress_le
  have hspent : ∀ e ∈ made, ∀ i, (w'.phase i).progress < 3 → (jobs i).call.fresh? ≠ some e.id :=
    fun e he i hi => h.spent e he i ((hle i).trans_lt hi)
  cases hmoved.voiced with
  | still hmade hphase _ =>
    rw [hmade, List.append_nil]
    exact ⟨h.order, hspent, h.placed, h.agree, hphase ▸ h.owed⟩
  | @speak i p is es hmade hled hpending =>
    rw [hmade, List.append_nil]
    refine ⟨h.order, hspent, h.placed, h.agree, ?_⟩
    refine hled.forall_phase (P := fun _ p => ∀ e ∈ p.pending, e ∈ made) (fun e he => ?_) fun j _ => h.owed j
    exact h.owed i e (hpending ▸ List.mem_append_right es he)
  | decide hmade hd =>
    rw [hmade]
    exact h.decide hw hd hdistinct hle _

/-- Events of some kind come out in the order in which the changes were made: all have come out, or those
that one caller still has to emit come next. -/
structure KeepsUp (X : Event → Bool) (made : List Event) (w : Concurrent ι (Posted Memory)) : Prop where
  quiet : (∀ i, w.owed X i = []) → w.emitted.filter X = made.filter X
  owing : ∀ i, w.owed X i ≠ [] → w.emitted.filter X ++ w.owed X i = made.filter X

variable {X : Event → Bool}

omit [DecidableEq ι] [Fintype ι] in
theorem KeepsUp.isPrefix (h : w.KeepsUp X made) : w.emitted.filter X <+: made.filter X := by
  by_cases hall : ∀ i, w.owed X i = []
  · exact h.quiet hall ▸ List.prefix_refl _
  · obtain ⟨i, hi⟩ := not_forall.1 hall
    exact ⟨_, h.owing i hi⟩

omit [DecidableEq ι] in
/-- Those who have something to emit at one address are inside there, or dismiss by an identifier. -/
theorem Underway.oneOwes (hw : Underway service jobs w log) (h : w.Chronicle jobs made log)
    (hX : ∀ e e', X e → X e' → e.id = e'.id ∨ e.target = e'.target) (hclear : w.IsClear jobs X) :
    w.OneOwes X := by
  classical
  intro i j hi hj
  obtain ⟨e, he⟩ := List.exists_mem_of_ne_nil _ hi
  obtain ⟨e', he'⟩ := List.exists_mem_of_ne_nil _ hj
  obtain ⟨he, hXe⟩ := List.mem_filter.1 he
  obtain ⟨he', hXe'⟩ := List.mem_filter.1 he'
  have htarget : e.target = e'.target := by
    rcases hX e e' hXe hXe' with hid | htarget
    · exact h.agree e (h.owed i e he) e' (h.owed j e' he') hid
    · exact htarget
  -- two who are inside at one address are one, and a dismissal keeps clear of everybody else
  rcases (hw.callers i).spoken e he with ⟨id, hplan⟩ | ⟨⟨k, hk⟩, hplacei⟩
  · exact hclear i j (Job.isDismissal_of_plan hplan) hi hj
  · rcases (hw.callers j).spoken e' he' with ⟨id, hplan⟩ | ⟨⟨k', hk'⟩, hplacej⟩
    · exact (hclear j i (Job.isDismissal_of_plan hplan) hj hi).symm
    · exact Locks.Kept.eq_of_inside hw.locks hk hk' (hplacei.symm.trans (htarget.trans hplacej))

omit [Fintype ι] in
/-- A caller comes to another point and emits what it had to emit in between. -/
theorem KeepsUp.speak (h : w.KeepsUp X made) (hone : w.OneOwes X) {i : ι} {p : Phase} {is : List ι}
    {es : List Event} (hled : w.Leads w' i p is es)
    (hpending : (w.phase i).pending = es ++ p.pending) : w'.KeepsUp X made := by
  have hself : w.owed X i = es.filter X ++ w'.owed X i := by
    rw [owed, owed, hpending, hled.self, List.filter_append]
  have hother {j : ι} (hj : j ≠ i) : w'.owed X j = w.owed X j := by
    rw [owed, owed, hled.other hj]
  have hemitted : w'.emitted.filter X = w.emitted.filter X ++ es.filter X := by
    rw [hled.emitted, List.filter_append]
  by_cases hi : w.owed X i = []
  · obtain ⟨hes, hrest⟩ := List.append_eq_nil_iff.1 (hself.symm.trans hi)
    have hsame (j : ι) : w'.owed X j = w.owed X j := by
      by_cases hj : j = i
      · rw [hj, hrest, hi]
      · exact hother hj
    rw [hes, List.append_nil] at hemitted
    refine ⟨fun hall => hemitted.trans (h.quiet fun j => hsame j ▸ hall j), fun j hj => ?_⟩
    rw [hemitted, hsame]
    exact h.owing j (hsame j ▸ hj)
  · have howing := h.owing i hi
    rw [hself, ← List.append_assoc, ← hemitted] at howing
    refine ⟨fun hall => ?_, fun j hj => ?_⟩
    · rw [← howing, hall i, List.append_nil]
    · by_cases hji : j = i
      · rw [hji]
        exact howing
      · exact absurd (hone j i (hother hji ▸ hj) hi) hji

omit [Fintype ι] in
theorem KeepsUp.decide (h : w.KeepsUp X made) (hone : w'.OneOwes X) {i : ι} {ds : List Deed} {p : Phase} (hd : Decides jobs w w' log i ds p) :
    w'.KeepsUp X (made ++ Deed.events ds) := by
  have hbefore : w.owed X i = [] := by
    rw [owed, Phase.pending_of_progress hd.before]
    rfl
  have hself : w'.owed X i = (Deed.events ds).filter X := by
    rw [owed, hd.leads.self, hd.pending]
  have hother {j : ι} (hj : j ≠ i) : w'.owed X j = w.owed X j := by
    rw [owed, owed, hd.leads.other hj]
  have hemitted : w'.emitted = w.emitted := hd.leads.emitted.trans (List.append_nil _)
  have hmade : (made ++ Deed.events ds).filter X = made.filter X ++ w'.owed X i := by
    rw [List.filter_append, hself]
  by_cases hi : w'.owed X i = []
  · -- no event of the change is of that kind
    have hsame (j : ι) : w'.owed X j = w.owed X j := by
      by_cases hj : j = i
      · rw [hj, hi, hbefore]
      · exact hother hj
    rw [hi, List.append_nil] at hmade
    refine ⟨fun hall => ?_, fun j hj => ?_⟩
    · rw [hemitted, hmade]
      exact h.quiet fun j => hsame j ▸ hall j
    · rw [hemitted, hmade, hsame]
      exact h.owing j (hsame j ▸ hj)
  · -- all that was made before has come out, for otherwise two would owe now
    have hnone {j : ι} (hj : j ≠ i) : w'.owed X j = [] := by
      by_contra hne
      exact hj (hone j i hne hi)
    have hquiet : w.emitted.filter X = made.filter X := h.quiet fun j => by
      by_cases hj : j = i
      · rw [hj, hbefore]
      · rw [← hother hj, hnone hj]
    refine ⟨fun hall => absurd (hall i) hi, fun j hj => ?_⟩
    obtain rfl : j = i := by_contra fun hji => hj (hnone hji)
    rw [hemitted, hmade, hquiet]

omit [Fintype ι] in
theorem KeepsUp.move (h : w.KeepsUp X made) (hone : w.OneOwes X) (hone' : w'.OneOwes X)
    (hmoved : Moved service jobs w w' log m log') : w'.KeepsUp X (made ++ madeIn w w' m) := by
  cases hmoved.voiced with
  | still hmade hphase hemitted =>
    have hsame (i : ι) : w'.owed X i = w.owed X i := by
      rw [owed, owed, hphase]
    rw [hmade, List.append_nil]
    refine ⟨fun hall => ?_, fun i hi => ?_⟩
    · rw [hemitted]
      exact h.quiet fun i => hsame i ▸ hall i
    · rw [hemitted, hsame]
      exact h.owing i (hsame i ▸ hi)
  | speak hmade hled hpending =>
    rw [hmade, List.append_nil]
    exact h.speak hone hled hpending
  | decide hmade hd =>
    rw [hmade]
    exact h.decide hone' hd

end Moves

section Runs
variable {service : Service Memory} {jobs : ι → Job} {w : Concurrent ι (Posted Memory)} {log : Log}
  {X : Event → Bool} [DecidableEq ι] [Fintype ι]

omit [DecidableEq ι] [Fintype ι] in
theorem keepsUp_start {s : Service.State (Posted Memory)} (hs : s.emitted = []) :
    (start s : Concurrent ι _).KeepsUp X [] where
  quiet _ := congrArg _ hs
  owing _ hi := absurd rfl hi

/-- Events of one identifier, or of one address, come out in the order in which the changes were made, if
the dismissals by an identifier keep clear. -/
theorem keepsUp_runAll (hb : service.backend = Backend.inMemory)
    (horderly : ∀ i, (jobs i).IsOrderly service.recorded) (hdistinct : Job.AreDistinct jobs)
    (hX : ∀ e e', X e → X e' → e.id = e'.id ∨ e.target = e'.target) (ms : List (Move ι))
    {before : List Event} (hw : Underway service jobs w log) (hchronicle : w.Chronicle jobs before log)
    (hkeeps : w.KeepsUp X before)
    (hclear : ∀ ns, ns <+: ms → (runAll service.recorded jobs ns w).IsClear jobs X) :
    Event.InOrder (before ++ made service.recorded jobs ms w) ∧
      (runAll service.recorded jobs ms w).KeepsUp X (before ++ made service.recorded jobs ms w) := by
  induction ms generalizing w log before with
  | nil =>
    rw [made, List.append_nil]
    exact ⟨hchronicle.order, hkeeps⟩
  | cons m ms ih =>
    obtain ⟨log', hw', hmoved⟩ := hw.move hb horderly hdistinct m
    have hchronicle' := hchronicle.move hw hdistinct hmoved
    have hclear' : ∀ ns, ns <+: ms →
        (runAll service.recorded jobs ns (m.run service.recorded jobs w)).IsClear jobs X :=
      fun ns hns => hclear (m :: ns) (List.cons_prefix_cons.2 ⟨rfl, hns⟩)
    have hkeeps' := hkeeps.move (hw.oneOwes hchronicle hX (hclear [] List.nil_prefix))
      (hw'.oneOwes hchronicle' hX (hclear' [] List.nil_prefix)) hmoved
    have hrest := ih hw' hchronicle' hkeeps' hclear'
    rw [List.append_assoc] at hrest
    exact hrest

end Runs

end Concurrent

end Tidings
