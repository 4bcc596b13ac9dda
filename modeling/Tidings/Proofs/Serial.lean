import Tidings.Proofs.Dismissal
import Tidings.Proofs.Schedule
/-!
Callers who write to one address take turns. What is stored there and what is emitted for it are what the same
calls make of it one at a time, in the order in which they went inside.
-/
namespace Tidings
open Log

/-- What is stored, and what was emitted. -/
structure Account where
  log : Log
  events : List Event

namespace Account

/-- The account after some deeds. -/
def add (b : Account) (now : Instant) (ds : List Deed) : Account :=
  ⟨Deed.logAfter now b.log ds, b.events ++ Deed.events ds⟩

/-- Two accounts are the same for an address. -/
structure Agrees (a : Address) (b b' : Account) : Prop where
  log : b.log.filter (isWithin {a}) = b'.log.filter (isWithin {a})
  events : b.events.filter (·.target = some a) = b'.events.filter (·.target = some a)

namespace Agrees
variable {a : Address} {b b' b'' : Account}

theorem refl (a : Address) (b : Account) : b.Agrees a b := ⟨rfl, rfl⟩

theorem symm (h : b.Agrees a b') : b'.Agrees a b := ⟨h.log.symm, h.events.symm⟩

theorem trans (h : b.Agrees a b') (h' : b'.Agrees a b'') : b.Agrees a b'' :=
  ⟨h.log.trans h'.log, h.events.trans h'.events⟩

theorem add (h : b.Agrees a b') (now : Instant) (ds : List Deed) :
    (b.add now ds).Agrees a (b'.add now ds) := by
  refine ⟨Deed.filter_logAfter ds h.log, ?_⟩
  rw [Account.add, Account.add, List.filter_append, List.filter_append, h.events]

theorem append (h : b.Agrees a b') (es : List Event) :
    Agrees a ⟨b.log, b.events ++ es⟩ ⟨b'.log, b'.events ++ es⟩ := by
  refine ⟨h.log, ?_⟩
  rw [List.filter_append, List.filter_append, h.events]

end Agrees

/-- Deeds at one address do not matter to another. -/
theorem agrees_add {a c : Address} {b : Account} {now : Instant} {ds : List Deed} (hn : b.log.ids.Nodup)
    (hfit : Deed.AllFit now b.log ds) (hds : ∀ d ∈ ds, d.event.target = some c) (hne : c ≠ a) :
    (b.add now ds).Agrees a b := by
  refine ⟨Deed.filter_logAfter_of_isElsewhere hn hfit fun d hd => ⟨c, hne, hds d hd⟩, ?_⟩
  have hnone : (Deed.events ds).filter (·.target = some a) = [] := by
    refine List.filter_eq_nil_iff.2 fun e he => ?_
    obtain ⟨d, hd, rfl⟩ := List.mem_map.1 he
    simp [hds d hd, hne]
  rw [Account.add, List.filter_append, hnone, List.append_nil]

end Account

/-- A change at an address depends on nothing that is stored elsewhere. -/
theorem Change.deeds_congr {σ : Type} {service : Service σ} {job : Job} {a : Address} {x : Change}
    (hplan : job.plan service = .inTurn a x) {log log' : Log}
    (h : log.filter (isWithin {a}) = log'.filter (isWithin {a})) : x.deeds a log = x.deeds a log' := by
  have hheld {group : String} {s : Stored} (hs : holds a group s) : isWithin {a} s :=
    isWithin_of_isAt (Set.mem_singleton a) (Bool.and_eq_true_iff.1 hs).1
  cases x with
  | store n =>
    obtain ⟨ha, _⟩ := Job.of_store hplan
    have hfound : log.find? (yields n) = log'.find? (yields n) :=
      find?_congr_within (fun s hs => hheld (holds_of_yields ha hs)) h
    rw [deeds, deeds, replacement_eq ha, replacement_eq ha, hfound]
  | removeGroup group =>
    have hfound : log.find? (holdsQueued a group) = log'.find? (holdsQueued a group) :=
      find?_congr_within (fun s hs => hheld (Bool.and_eq_true_iff.1 hs).2) h
    rw [deeds, deeds, dismissGroupDeeds, dismissGroupDeeds, hfound]

namespace Job
variable {ι σ : Type}

/-- What a call that takes its turn adds to an account. -/
def book (service : Service σ) (job : Job) (b : Account) : Account :=
  match job.plan service with
  | .inTurn a x => b.add job.now (x.deeds a b.log)
  | .settled _ | .atOnce _ | .dismissal _ => b

def bookAll (service : Service σ) (jobs : ι → Job) (is : List ι) (b : Account) : Account :=
  is.foldl (fun b i => (jobs i).book service b) b

variable {service : Service σ} {jobs : ι → Job} {b b' : Account} {a : Address}

theorem book_of_inTurn {job : Job} {x : Change} (h : job.plan service = .inTurn a x) (b : Account) :
    job.book service b = b.add job.now (x.deeds a b.log) := by
  rw [book, h]

theorem bookAll_append (is : List ι) (i : ι) (b : Account) :
    bookAll service jobs (is ++ [i]) b = (jobs i).book service (bookAll service jobs is b) := by
  rw [bookAll, List.foldl_append]
  rfl

theorem agrees_book {job : Job} {x : Change} (hplan : job.plan service = .inTurn a x) (h : b.Agrees a b') :
    (job.book service b).Agrees a (job.book service b') := by
  rw [book_of_inTurn hplan, book_of_inTurn hplan, x.deeds_congr hplan h.log]
  exact h.add job.now _

/-- Calls at one address make the same of accounts that are the same for it. -/
theorem agrees_bookAll {is : List ι} (his : ∀ i ∈ is, ((jobs i).plan service).place? = some a)
    (h : b.Agrees a b') : (bookAll service jobs is b).Agrees a (bookAll service jobs is b') := by
  induction is generalizing b b' with
  | nil => exact h
  | cons i is ih =>
    refine ih (fun j hj => his j (List.mem_cons_of_mem i hj)) ?_
    obtain ⟨x, hplan⟩ := Plan.of_place? (his i List.mem_cons_self)
    exact agrees_book hplan h

end Job

/-- A state with such an account. -/
structure Account.IsOf (b : Account) (s : Service.State (Posted Memory)) : Prop where
  store : s.store.store.Represents b.log
  events : s.emitted = b.events

namespace Job
variable {ι : Type} {service : Service Memory} (hb : service.backend = Backend.inMemory) {jobs : ι → Job}
  {b : Account} {s : Service.State (Posted Memory)} (h : b.IsOf s)
include hb h

/-- A call that takes its turn, done at once. -/
theorem isOf_perform {job : Job} {a : Address} {x : Change} (hplan : job.plan service.recorded = .inTurn a x)
    (hnew : ∀ id, job.call.fresh? = some id → id ∉ b.log.ids) :
    (job.book service.recorded b).IsOf (job.call.perform service.recorded job.now s) ∧
      Deed.AllFit job.now b.log (x.deeds a b.log) := by
  obtain ⟨rest, m, hmake, hevents, hrep, hfit⟩ := x.make_done hb hplan h.store hnew
  obtain ⟨hstore, hemitted⟩ :=
    Effect.runAll_emitted hb job.now rest.effects (s.withStore (s.store.setStore m))
  have hfinish : (rest.finish service.recorded job.now (s.withStore (s.store.setStore m))).store =
      (Effect.runAll service.recorded job.now rest.effects (s.withStore (s.store.setStore m))).store := by
    unfold Rest.finish
    cases rest.told <;> rfl
  rw [← Call.answer_snd, answer_of_inTurn hplan, hmake, book_of_inTurn hplan]
  refine ⟨⟨?_, ?_⟩, hfit⟩
  · rw [hfinish, hstore]
    exact hrep
  · show Service.State.emitted _ = _
    rw [Service.State.emitted_congr hfinish, hemitted, hevents, Account.add, ← h.events]
    rfl

/-- Calls that take their turns, one at a time. For each address only those there matter. -/
theorem isOf_runAll (hdistinct : AreDistinct jobs) {is : List ι} (hn : is.Nodup)
    (his : ∀ i ∈ is, ∃ a, ((jobs i).plan service.recorded).place? = some a)
    (hnew : ∀ i ∈ is, ∀ id, (jobs i).call.fresh? = some id → id ∉ b.log.ids) :
    (bookAll service.recorded jobs is b).IsOf (runAll service.recorded jobs is s) ∧
      ∀ a, (bookAll service.recorded jobs is b).Agrees a (bookAll service.recorded jobs
        (is.filter fun i => ((jobs i).plan service.recorded).place? = some a) b) := by
  induction is generalizing b s with
  | nil => exact ⟨h, fun a => .refl a b⟩
  | cons i is ih =>
    obtain ⟨c, hc⟩ := his i List.mem_cons_self
    obtain ⟨x, hplan⟩ := Plan.of_place? hc
    obtain ⟨hone, hfit⟩ := isOf_perform hb h hplan (hnew i List.mem_cons_self)
    have hbook := book_of_inTurn hplan b
    obtain ⟨hi, hn⟩ := List.nodup_cons.1 hn
    have hrest : ∀ j ∈ is, ∀ id, (jobs j).call.fresh? = some id →
        id ∉ ((jobs i).book service.recorded b).log.ids := by
      intro j hj id hid hm
      rw [hbook] at hm
      rcases Deed.ids_logAfter _ _ _ id hm with hm | ⟨n, hpost, rfl⟩
      · exact hnew j (List.mem_cons_of_mem i hj) id hid hm
      · exact hi (hdistinct j i n.id hid (Change.fresh?_of_post_mem hplan hpost) ▸ hj)
    obtain ⟨hall, hagrees⟩ := ih hone hn (fun j hj => his j (List.mem_cons_of_mem i hj)) hrest
    refine ⟨hall, fun a => (hagrees a).trans ?_⟩
    by_cases ha : c = a
    · subst ha
      rw [List.filter_cons_of_pos (by simpa using hc)]
      exact .refl c _
    · rw [List.filter_cons_of_neg (by simp [hc, ha])]
      refine agrees_bookAll (fun j hj => by simpa using (List.mem_filter.1 hj).2) ?_
      rw [hbook]
      exact Account.agrees_add h.store.sound.distinct hfit (fun d hd => Change.target_of_mem_deeds hplan hd) ha

end Job

namespace Concurrent
variable {ι : Type}

/-- The callers that went inside at an address, in order. -/
def line {σ τ : Type} (service : Service σ) (jobs : ι → Job) (a : Address) (w : Concurrent ι τ) : List ι :=
  w.entered.filter fun i => place service jobs i = some a

/-- How an address stands against the calls there, done one at a time in the order in which they went inside.
The last of them may be about to make its change, or have events of it still to emit. -/
structure Serial (service : Service Memory) (jobs : ι → Job) (b : Account) (a : Address)
    (w : Concurrent ι (Posted Memory)) (log : Log) : Prop where
  vacant : (∀ i, ¬ w.IsInside service.recorded jobs a i) → Account.Agrees a ⟨log, w.emitted⟩
    (Job.bookAll service.recorded jobs (w.line service.recorded jobs a) b)
  before : ∀ i, w.IsInside service.recorded jobs a i → (w.phase i).progress < 3 →
    ∃ is, w.line service.recorded jobs a = is ++ [i] ∧
      Account.Agrees a ⟨log, w.emitted⟩ (Job.bookAll service.recorded jobs is b)
  after : ∀ i, w.IsInside service.recorded jobs a i → (w.phase i).progress = 3 →
    Account.Agrees a ⟨log, w.emitted ++ (w.phase i).pending⟩
      (Job.bookAll service.recorded jobs (w.line service.recorded jobs a) b)

section Moves
variable {service : Service Memory} {jobs : ι → Job} {b : Account} {a : Address}
  {w w' : Concurrent ι (Posted Memory)} {log log' : Log}

theorem isInside_congr {i : ι} (h : w'.phase i = w.phase i) :
    w'.IsInside service.recorded jobs a i ↔ w.IsInside service.recorded jobs a i := by
  rw [IsInside, IsInside, h]

/-- One caller at a time is inside at an address. -/
theorem InStep.alone [Fintype ι] (h : w.InStep service.recorded jobs) {i j : ι}
    (hi : w.IsInside service.recorded jobs a i) (hj : w.IsInside service.recorded jobs a j) : i = j := by
  classical
  obtain ⟨hi, k, hk⟩ := hi
  obtain ⟨hj, k', hk'⟩ := hj
  exact Locks.Kept.eq_of_inside h hk hk' (hi.trans hj.symm)

/-- A move that does not concern an address. -/
theorem Serial.frame (h : w.Serial service jobs b a log)
    (hagrees : Account.Agrees a ⟨log', w'.emitted⟩ ⟨log, w.emitted⟩)
    (hline : w'.line service.recorded jobs a = w.line service.recorded jobs a)
    (hphase : ∀ i, place service.recorded jobs i = some a → w'.phase i = w.phase i ∨
      (∀ k, (w.phase i).stage ≠ .inside k) ∧ ∀ k, (w'.phase i).stage ≠ .inside k) :
    w'.Serial service jobs b a log' := by
  have hsame {i : ι} (hi : w'.IsInside service.recorded jobs a i) : w'.phase i = w.phase i := by
    obtain ⟨hplace, k, hk⟩ := hi
    exact (hphase i hplace).resolve_right fun hout => hout.2 k hk
  refine ⟨fun hnone => ?_, fun i hi hp => ?_, fun i hi hp => ?_⟩
  · rw [hline]
    refine hagrees.trans (h.vacant fun i hi => ?_)
    obtain ⟨hplace, k, hk⟩ := hi
    rcases hphase i hplace with heq | ⟨hout, _⟩
    · exact hnone i ((isInside_congr heq).2 ⟨hplace, k, hk⟩)
    · exact hout k hk
  · have heq := hsame hi
    obtain ⟨is, hlast, hbefore⟩ := h.before i ((isInside_congr heq).1 hi) (heq ▸ hp)
    exact ⟨is, hline.trans hlast, hagrees.trans hbefore⟩
  · have heq := hsame hi
    rw [hline, heq]
    exact (hagrees.append _).trans (h.after i ((isInside_congr heq).1 hi) (heq ▸ hp))

variable [Fintype ι]

/-- With a caller inside at an address, it is enough to look at that one. -/
theorem Serial.of_inside (hlocks : w.InStep service.recorded jobs) {i : ι}
    (hi : w.IsInside service.recorded jobs a i)
    (hbefore : (w.phase i).progress < 3 → ∃ is, w.line service.recorded jobs a = is ++ [i] ∧
      Account.Agrees a ⟨log, w.emitted⟩ (Job.bookAll service.recorded jobs is b))
    (hafter : (w.phase i).progress = 3 → Account.Agrees a ⟨log, w.emitted ++ (w.phase i).pending⟩
      (Job.bookAll service.recorded jobs (w.line service.recorded jobs a) b)) :
    w.Serial service jobs b a log where
  vacant hnone := absurd hi (hnone i)
  before j hj hp := by
    obtain rfl := hlocks.alone hi hj
    exact hbefore hp
  after j hj hp := by
    obtain rfl := hlocks.alone hi hj
    exact hafter hp

variable [DecidableEq ι]

theorem Serial.pass (h : w.Serial service jobs b a log) (hlocks : w.InStep service.recorded jobs) {i : ι}
    {p : Phase} (hled : w.Leads w' i p [] []) (hp : (w.phase i).Passes p) :
    w'.Serial service jobs b a log := by
  have hemitted : w'.emitted = w.emitted := hled.emitted.trans (List.append_nil _)
  have hline : w'.line service.recorded jobs a = w.line service.recorded jobs a := by
    rw [line, line, hled.entered, List.append_nil]
  by_cases hi : w.IsInside service.recorded jobs a i
  · -- the caller has done everything inside, and nobody else is there
    obtain ⟨hplacei, k, hk⟩ := hi
    have hnone : ∀ j, ¬ w'.IsInside service.recorded jobs a j := by
      rintro j ⟨hplace, k', hk'⟩
      by_cases hji : j = i
      · subst hji
        exact hp.outside k' (hled.self ▸ hk')
      · exact hji (hlocks.alone ⟨hplace, k', hled.other hji ▸ hk'⟩ ⟨hplacei, k, hk⟩)
    have hafter := h.after i ⟨hplacei, k, hk⟩ (hp.changed k hk)
    rw [hp.before, List.append_nil] at hafter
    refine ⟨fun _ => ?_, fun j hj => absurd hj (hnone j), fun j hj => absurd hj (hnone j)⟩
    rw [hemitted, hline]
    exact hafter
  · refine h.frame (hemitted ▸ .refl a _) hline fun j hplace => ?_
    by_cases hji : j = i
    · subst hji
      exact .inr ⟨fun k hk => hi ⟨hplace, k, hk⟩, fun k hk => hp.outside k (hled.self ▸ hk)⟩
    · exact .inl (hled.other hji)

theorem Serial.enter (h : w.Serial service jobs b a log) (hlocks : w.InStep service.recorded jobs)
    (hlocks' : w'.InStep service.recorded jobs) {i : ι} {k : LockId} {locks : Locks}
    (hi : w.phase i = .waiting k) (hacquire : w.locks.acquire? k = some locks) (hled : w.Leads w' i (.locked k) [i] []) :
    w'.Serial service jobs b a log := by
  have hemitted : w'.emitted = w.emitted := hled.emitted.trans (List.append_nil _)
  have hstage : (w.phase i).stage = .waiting k := by
    rw [hi]
    rfl
  by_cases hplace : place service.recorded jobs i = some a
  · have hvacant : ∀ j, ¬ w.IsInside service.recorded jobs a j := by
      rintro j ⟨hj, k', hk'⟩
      exact Locks.Kept.vacant_of_acquire hlocks hstage hacquire (hj.trans hplace.symm) hk'
    have hline : w'.line service.recorded jobs a = w.line service.recorded jobs a ++ [i] := by
      rw [line, line, hled.entered, List.filter_append, List.filter_cons_of_pos (by simpa using hplace)]
      rfl
    refine .of_inside hlocks' ⟨hplace, k, by rw [hled.self]; rfl⟩ (fun _ => ⟨_, hline, ?_⟩) fun hp => ?_
    · rw [hemitted]
      exact h.vacant hvacant
    · rw [hled.self] at hp
      cases hp
  · have hline : w'.line service.recorded jobs a = w.line service.recorded jobs a := by
      rw [line, line, hled.entered, List.filter_append, List.filter_cons_of_neg (by simpa using hplace)]
      exact List.append_nil _
    refine h.frame (hemitted ▸ .refl a _) hline fun j hj => ?_
    exact .inl (hled.other fun hji => hplace (hji ▸ hj))

theorem Serial.change (h : w.Serial service jobs b a log) (hlocks' : w'.InStep service.recorded jobs)
    (hsound : Sound log) {i : ι} {c : Address} {x : Change} {k : LockId} {rest : Rest}
    (hplan : (jobs i).plan service.recorded = .inTurn c x) (hi : w.phase i = .locked k)
    (hled : w.Leads w' i (.telling k rest) [] [])
    (hevents : Effect.events rest.effects = Deed.events (x.deeds c log))
    (hfit : Deed.AllFit (jobs i).now log (x.deeds c log)) :
    w'.Serial service jobs b a (Deed.logAfter (jobs i).now log (x.deeds c log)) := by
  have hemitted : w'.emitted = w.emitted := hled.emitted.trans (List.append_nil _)
  have hline : w'.line service.recorded jobs a = w.line service.recorded jobs a := by
    rw [line, line, hled.entered, List.append_nil]
  have hplace := place_of_plan hplan
  by_cases hca : c = a
  · subst hca
    refine .of_inside hlocks' ⟨hplace, k, by rw [hled.self]; rfl⟩ (fun hp => ?_) fun _ => ?_
    · rw [hled.self] at hp
      exact absurd hp (by simp [Phase.progress])
    · obtain ⟨is, hlast, hbefore⟩ :=
        h.before i ⟨hplace, k, by rw [hi]; rfl⟩ (by simp [hi, Phase.progress])
      have hbook := Job.agrees_book hplan hbefore
      rw [Job.book_of_inTurn hplan] at hbook
      rw [hline, hlast, Job.bookAll_append, hled.self, Phase.pending, hevents, hemitted]
      exact hbook
  · have hother := Account.agrees_add (b := ⟨log, w.emitted⟩) hsound.distinct hfit
      (fun d hd => Change.target_of_mem_deeds hplan hd) hca
    refine h.frame ⟨hother.log, by rw [hemitted]⟩ hline fun j hj => .inl (hled.other fun hji => ?_)
    subst hji
    exact hca (Option.some.inj (hplace.symm.trans hj))

theorem Serial.effect (h : w.Serial service jobs b a log) (hlocks' : w'.InStep service.recorded jobs) {i : ι}
    {p : Phase} {e : Option Event} (hled : w.Leads w' i p [] e.toList)
    (hpending : (w.phase i).pending = e.toList ++ p.pending) (hstage : p.stage = (w.phase i).stage)
    (hbefore : (w.phase i).progress = 3) (hafter : p.progress = 3)
    (hspoken : ∀ e ∈ (w.phase i).pending, (∃ k, (w.phase i).stage = .inside k) ∧
      e.target = place service.recorded jobs i) : w'.Serial service jobs b a log := by
  have hline : w'.line service.recorded jobs a = w.line service.recorded jobs a := by
    rw [line, line, hled.entered, List.append_nil]
  by_cases hi : w.IsInside service.recorded jobs a i
  · obtain ⟨hplace, k, hk⟩ := hi
    refine .of_inside hlocks' ⟨hplace, k, by rw [hled.self, hstage, hk]⟩ (fun hp => ?_) fun _ => ?_
    · rw [hled.self, hafter] at hp
      exact absurd hp (lt_irrefl 3)
    · rw [hline, hled.self, hled.emitted, List.append_assoc, ← hpending]
      exact h.after i ⟨hplace, k, hk⟩ hbefore
  · have helsewhere : e.toList.filter (·.target = some a) = [] := by
      refine List.filter_eq_nil_iff.2 fun e' he' hta => hi ?_
      obtain ⟨hk, htarget⟩ := hspoken e' (hpending ▸ List.mem_append_left _ he')
      exact ⟨htarget.symm.trans (by simpa using hta), hk⟩
    refine h.frame ⟨rfl, ?_⟩ hline fun j hplace => ?_
    · rw [hled.emitted, List.filter_append, helsewhere, List.append_nil]
    · by_cases hji : j = i
      · subst hji
        refine .inr ⟨fun k hk => hi ⟨hplace, k, hk⟩, fun k hk => hi ⟨hplace, k, ?_⟩⟩
        rwa [hled.self, hstage] at hk
      · exact .inl (hled.other hji)

/-- No move undoes that an address stands as the calls there make it one at a time. -/
theorem Serial.move (h : w.Serial service jobs b a log) (hw : Underway service jobs w log)
    (hw' : Underway service jobs w' log') {m : Move ι} (hmoved : Moved service jobs w w' log m log')
    (hwriters : ∀ i id, (jobs i).plan service.recorded ≠ .dismissal id) : w'.Serial service jobs b a log' := by
  cases hmoved with
  | still _ hphase hentered hemitted =>
    exact h.frame (hemitted ▸ .refl a _) (by rw [line, line, hentered]) fun i _ => .inl (congrFun hphase i)
  | pass hled hp _ => exact h.pass hw.locks hled hp
  | enter hi hacquire hled => exact h.enter hw.locks hw'.locks hi hacquire hled
  | change hplan hi hled hevents hfit => exact h.change hw'.locks hw.store.sound hplan hi hled hevents hfit
  | @effect i p e hled hpending hstage hbefore hafter =>
    refine h.effect hw'.locks hled hpending hstage hbefore hafter fun e he => ?_
    exact ((hw.callers i).spoken e he).resolve_left fun ⟨id, hplan⟩ => hwriters i id hplan
  | remove hplan => exact absurd hplan (hwriters _ _)

end Moves

section Runs
variable {service : Service Memory} {jobs : ι → Job} {w w' : Concurrent ι (Posted Memory)} {log log' : Log}

/-- Those who went inside did so once each, and nobody else has been there who takes turns. -/
structure Lined (service : Service Memory) (jobs : ι → Job) (w : Concurrent ι (Posted Memory)) : Prop where
  nodup : w.entered.Nodup
  past : ∀ i ∈ w.entered, 2 ≤ (w.phase i).progress
  placed : ∀ i ∈ w.entered, ∃ a, place service.recorded jobs i = some a
  complete : ∀ i, 2 ≤ (w.phase i).progress → i ∈ w.entered ∨ place service.recorded jobs i = none

variable [DecidableEq ι]

omit [DecidableEq ι] in
/-- A move by which nobody goes inside. -/
theorem Lined.frame (h : w.Lined service jobs) (hentered : w'.entered = w.entered)
    (hle : ∀ i, (w.phase i).progress ≤ (w'.phase i).progress)
    (hold : ∀ i, 2 ≤ (w'.phase i).progress → 2 ≤ (w.phase i).progress ∨ place service.recorded jobs i = none) :
    w'.Lined service jobs where
  nodup := hentered ▸ h.nodup
  past i hi := (h.past i (hentered ▸ hi)).trans (hle i)
  placed i hi := h.placed i (hentered ▸ hi)
  complete i hi := by
    rcases hold i hi with hi | hnone
    · exact hentered ▸ h.complete i hi
    · exact .inr hnone

/-- A caller comes to another point without going inside. -/
theorem Lined.lead (h : w.Lined service jobs) {i : ι} {p : Phase} {es : List Event}
    (hled : w.Leads w' i p [] es) (hle : ∀ i, (w.phase i).progress ≤ (w'.phase i).progress)
    (hold : 2 ≤ p.progress → 2 ≤ (w.phase i).progress ∨ place service.recorded jobs i = none) :
    w'.Lined service jobs := by
  refine h.frame (hled.entered.trans (List.append_nil _)) hle fun j hj => ?_
  by_cases hji : j = i
  · subst hji
    exact hold (hled.self ▸ hj)
  · exact .inl (hled.other hji ▸ hj)

theorem Lined.enter [Fintype ι] (h : w.Lined service jobs) (hlocks : w.InStep service.recorded jobs) {i : ι}
    {k : LockId} (hle : ∀ i, (w.phase i).progress ≤ (w'.phase i).progress) (hi : w.phase i = .waiting k)
    (hled : w.Leads w' i (.locked k) [i] []) : w'.Lined service jobs := by
  have hnew : i ∉ w.entered := fun hm => absurd (h.past i hm) (by simp [hi, Phase.progress])
  obtain ⟨a, ha, _⟩ := hlocks.listed i k (by rw [hi]; rfl)
  have hmem {j : ι} : j ∈ w'.entered ↔ j ∈ w.entered ∨ j = i := by simp [hled.entered]
  refine ⟨?_, fun j hj => ?_, fun j hj => ?_, fun j hj => ?_⟩
  · rw [hled.entered]
    exact List.Nodup.append h.nodup (List.nodup_singleton i) (List.disjoint_singleton.2 hnew)
  · rcases hmem.1 hj with hj | rfl
    · exact (h.past j hj).trans (hle j)
    · simp [hled.self, Phase.progress]
  · rcases hmem.1 hj with hj | rfl
    · exact h.placed j hj
    · exact ⟨a, ha⟩
  · by_cases hji : j = i
    · exact .inl (hmem.2 (.inr hji))
    · exact (h.complete j (hled.other hji ▸ hj)).imp_left fun hm => hmem.2 (.inl hm)

theorem Lined.move [Fintype ι] (h : w.Lined service jobs) (hlocks : w.InStep service.recorded jobs)
    {m : Move ι} (hmoved : Moved service jobs w w' log m log') : w'.Lined service jobs := by
  have hle := hmoved.progress_le
  cases hmoved with
  | still _ hphase hentered _ => exact h.frame hentered hle fun i hi => .inl (hphase ▸ hi)
  | pass hled _ hturn =>
    refine h.lead hled hle fun hp => ?_
    rcases hturn with hdone | hearly | hnone
    · exact .inl (by omega)
    · omega
    · exact .inr hnone
  | enter hi _ hled => exact h.enter hlocks hle hi hled
  | change _ hi hled _ _ => exact h.lead hled hle fun _ => .inl (by simp [hi, Phase.progress])
  | effect hled _ _ hbefore _ => exact h.lead hled hle fun _ => .inl (by simp [hbefore])
  | remove _ hi _ _ hled _ => exact h.lead hled hle fun _ => .inl (by simp [hi, Phase.progress])

/-- Everything that is true of calls under way that write, after any schedule. -/
theorem serial_runAll [Fintype ι] (hb : service.backend = Backend.inMemory)
    (horderly : ∀ i, (jobs i).IsOrderly service.recorded) (hdistinct : Job.AreDistinct jobs)
    (hwriters : ∀ i id, (jobs i).plan service.recorded ≠ .dismissal id) {b : Account}
    (ms : List (Move ι)) (hw : Underway service jobs w log) (hlined : w.Lined service jobs)
    (hserial : ∀ a, w.Serial service jobs b a log) :
    ∃ log', Underway service jobs (runAll service.recorded jobs ms w) log' ∧
      (runAll service.recorded jobs ms w).Lined service jobs ∧
      ∀ a, (runAll service.recorded jobs ms w).Serial service jobs b a log' := by
  induction ms generalizing w log with
  | nil => exact ⟨log, hw, hlined, hserial⟩
  | cons m ms ih =>
    obtain ⟨log', hw', hmoved⟩ := hw.move hb horderly hdistinct m
    exact ih hw' (hlined.move hw.locks hmoved) fun a => (hserial a).move hw hw' hmoved hwriters

end Runs

section Start
variable {service : Service Memory} {jobs : ι → Job} {s : Service.State (Posted Memory)} {b : Account}

theorem not_isInside_start (s : Service.State (Posted Memory)) (a : Address) (i : ι) :
    ¬ (start s : Concurrent ι _).IsInside service.recorded jobs a i := by
  rintro ⟨_, k, hk⟩
  cases hk

theorem lined_start (s : Service.State (Posted Memory)) : (start s).Lined service jobs where
  nodup := List.nodup_nil
  past i hi := by cases hi
  placed i hi := by cases hi
  complete i hi := absurd hi (by simp [start, Phase.progress])

theorem serial_start (h : b.IsOf s) (a : Address) : (start s).Serial service jobs b a b.log where
  vacant _ := ⟨rfl, congrArg _ h.events⟩
  before i hi := absurd hi (not_isInside_start s a i)
  after i hi := absurd hi (not_isInside_start s a i)

end Start

end Concurrent

/-- A call that stores a notification or takes back the holder of a group. -/
def Job.isWriter (job : Job) : Bool :=
  match job.call with
  | .notify _ _ _ mode _ _ => mode.isPersisted
  | .dismissGroup _ _ => true
  | .broadcast .. | .dismiss _ => false

/-- Such a call is turned away, or takes its turn. -/
theorem Job.plan_of_isWriter {σ : Type} {job : Job} (h : job.isWriter) (service : Service σ) :
    (∃ reply, job.plan service = .settled reply) ∨ ∃ a x, job.plan service = .inTurn a x := by
  obtain ⟨now, call⟩ := job
  cases call with
  | notify fresh target kind mode group payload =>
    have hmode : mode.isPersisted := h
    simp only [Job.plan, Service.plan, Notification.create, hmode, if_true]
    split
    · exact .inl ⟨_, rfl⟩
    · split
      · exact .inl ⟨_, rfl⟩
      · split
        · exact .inl ⟨_, rfl⟩
        · exact .inr ⟨_, _, rfl⟩
  | broadcast fresh kind group payload => cases h
  | dismiss id => cases h
  | dismissGroup a group => exact .inr ⟨a, _, rfl⟩

theorem Job.isOrderly_of_isWriter {σ : Type} {job : Job} (h : job.isWriter) (service : Service σ) :
    job.IsOrderly service := by
  intro n hplan
  rcases Job.plan_of_isWriter h service with ⟨reply, h⟩ | ⟨a, x, h⟩
  · cases hplan.symm.trans h
  · cases hplan.symm.trans h

/-- A connection on the register, before anything is read off it. -/
theorem Registry.Sound.holding {r : Registry} (h : r.Sound) {c : ConnectionId} {as : List Address}
    {q : Queue Event} (has : r.addresses c = some as) (hq : r.queues.get? c = some q) :
    r.Holding c (some as) [] q.items := by
  refine ⟨h, ?_, has, q, hq, fun _ _ => rfl⟩
  by_contra hge
  rw [h.below c (Nat.le_of_not_lt hge)] at has
  cases has

/-- Those who write to one address at the same time take turns, also when its lock is forgotten and made anew
in between, and whoever comes, reads and goes meanwhile. One at a time is inside. When nobody is inside, what
is stored at the address, and what every connection that stayed has been sent for it, is what the calls make of
it one at a time, in the order in which they went inside; a call that has ended did go inside, or was turned
away. When no call is under way, no lock is left. -/
theorem writers_take_turns {ι : Type} [Fintype ι] [DecidableEq ι] (self : Id) (settings : Settings)
    (hooks : Hooks) (xs : List Turn) (hids : (Turn.freshIds xs).Nodup) (jobs : ι → Job)
    (hwriters : ∀ i, (jobs i).isWriter) (hdistinct : Job.AreDistinct jobs)
    (hnew : ∀ i id, (jobs i).call.fresh? = some id → id ∉ Turn.freshIds xs) (ms : List (Concurrent.Move ι)) :
    let plain := Service.overMemory self settings hooks
    let service := plain.recorded
    let s := (Turn.runAll plain xs (Service.initial settings Memory.empty)).recorded
    let w := Concurrent.runAll service jobs ms (.start s)
    let t := Job.runAll service jobs w.entered s
    (∀ a i j, w.IsInside service jobs a i → w.IsInside service jobs a j → i = j) ∧
    (∀ a, (∀ i, ¬ w.IsInside service jobs a i) → w.state.store.store.entries a = t.store.store.entries a ∧
      ∀ c as q, s.registry.addresses c = some as → s.registry.queues.get? c = some q →
        (∀ v, .visit v ∈ ms → v.Spares c) →
        let heard (es : List Event) := q.items ++ es.filter (isFor as)
        w.state.registry.Holding c (some as) (Concurrent.readings service jobs c ms (.start s))
          (heard w.emitted) ∧
        t.registry.Holding c (some as) [] (heard t.emitted) ∧
        (heard w.emitted).filter (·.target = some a) = (heard t.emitted).filter (·.target = some a)) ∧
    (w.entered.Nodup ∧ ∀ i reply, w.phase i = .doing [] reply →
      i ∈ w.entered ∨ ∃ reply, (jobs i).plan service = .settled reply) ∧
    ((∀ i, (w.phase i).stage = .outside) → w.locks.table.size = 0) := by
  intro plain service s w t
  have hb : plain.backend = Backend.inMemory := rfl
  obtain ⟨log, hkept⟩ := Turn.kept_freshIds hb (Kept.initial settings) xs ⟨hids, by simp⟩
  have hof : Account.IsOf ⟨log, []⟩ s := ⟨hkept.store, rfl⟩
  have hunused : ∀ i id, (jobs i).call.fresh? = some id → id ∉ log.ids := fun i id hid hm =>
    hnew i id hid (by simpa using hkept.used hm)
  have hnodismissal : ∀ i id, (jobs i).plan service ≠ .dismissal id := by
    intro i id hplan
    rcases Job.plan_of_isWriter (hwriters i) service with ⟨reply, h⟩ | ⟨a, x, h⟩
    · cases hplan.symm.trans h
    · cases hplan.symm.trans h
  have horderly : ∀ i, (jobs i).IsOrderly service := fun i => Job.isOrderly_of_isWriter (hwriters i) service
  obtain ⟨log', hw, hlined, hserial⟩ := Concurrent.serial_runAll hb horderly hdistinct
    hnodismissal ms (.start hof.store hunused) (Concurrent.lined_start s) (Concurrent.serial_start hof)
  obtain ⟨ht, hline⟩ := Job.isOf_runAll hb hof hdistinct hlined.nodup hlined.placed
    fun i _ => hunused i
  refine ⟨fun a i j => hw.locks.alone, fun a hvacant => ?_, ⟨hlined.nodup, fun i reply hi => ?_⟩,
    Locks.Kept.size_of_outside hw.locks⟩
  · have hagrees : Account.Agrees a ⟨log', w.emitted⟩ (Job.bookAll service jobs w.entered ⟨log, []⟩) :=
      ((hserial a).vacant hvacant).trans (hline a).symm
    refine ⟨?_, fun c as q has hq hspared => ⟨?_, ?_, ?_⟩⟩
    · have hpart := filter_congr_within (p := isAt a) (fun x hx => isWithin_of_isAt (Set.mem_singleton a) hx)
        hagrees.log
      rw [hw.store.entries_eq, ht.store.entries_eq]
      exact hpart
    · have hopen : (Concurrent.start s : Concurrent ι _).state.registry.Holding c (some as) [] q.items :=
        hkept.registry.holding has hq
      obtain ⟨new, hsent, hholding⟩ := Concurrent.holding_runAll plain jobs ms hspared hopen
      have hsent : w.emitted = new := hsent
      rw [hsent]
      exact hholding
    · have hopen : s.registry.Holding c (some as) [] q.items := hkept.registry.holding has hq
      obtain ⟨new, hsent, hholding⟩ := Job.holding_runAll plain jobs w.entered hopen
      have hsent : t.emitted = new := hsent
      rw [hsent]
      exact hholding
    · have hevents : w.emitted.filter (·.target = some a) = t.emitted.filter (·.target = some a) := by
        rw [ht.events]
        exact hagrees.events
      rw [List.filter_append, List.filter_append, List.filter_comm, hevents, List.filter_comm]
  · rcases hlined.complete i (by rw [hi]; simp [Phase.progress]) with hm | hnone
    · exact .inl hm
    · refine .inr ((Job.plan_of_isWriter (hwriters i) service).resolve_right ?_)
      rintro ⟨a, x, hplan⟩
      cases hnone.symm.trans (Concurrent.place_of_plan hplan)

/-- The first lock is forgotten and a second one is made. A caller finds it held and waits, and is inside before
the one that it waited for has looked after the table. -/
theorem writers_take_turns_of_second_lock :
    let a : Address := ⟨.user, "u"⟩
    let plain := Service.overMemory ⟨0⟩ {} Hooks.none
    let xs : List Turn := [.own (.connect .epoch [a]),
      .own (.call .epoch (.notify ⟨1⟩ a "note" .queued (some "g") []))]
    let s := (Turn.runAll plain xs (Service.initial {} Memory.empty)).recorded
    let jobs : Fin 3 → Job
      | 0 => ⟨.epoch, .notify ⟨2⟩ a "note" .queued (some "g") []⟩
      | 1 => ⟨.epoch, .dismissGroup a "g"⟩
      | 2 => ⟨.epoch, .notify ⟨3⟩ a "note" .timeseries (some "g") []⟩
    let is : List (Fin 3) := [1, 1, 1, 1, 1, 1, 1, 1, 0, 0, 2, 2, 0, 0, 0, 0, 2, 0, 2, 2, 2, 2, 2, 2]
    let ms : List (Concurrent.Move (Fin 3)) := .visit (.receive 0) :: is.map .caller
    let w := Concurrent.runAll plain.recorded jobs ms (.start s)
    let t := Job.runAll plain.recorded jobs w.entered s
    (Turn.freshIds xs).Nodup ∧ (∀ i, (jobs i).isWriter) ∧ Job.AreDistinct jobs ∧
      (∀ i id, (jobs i).call.fresh? = some id → id ∉ Turn.freshIds xs) ∧ w.entered = [1, 0, 2] ∧
      w.locks.next = 2 ∧ w.locks.table.size = 0 ∧ w.state.store.store.entries a = t.store.store.entries a ∧
      (w.emitted.filter (isFor [a])).filter (·.target = some a) =
        (t.emitted.filter (isFor [a])).filter (·.target = some a) ∧
      t.emitted.map Event.id = [⟨1⟩, ⟨2⟩, ⟨2⟩, ⟨3⟩] := by
  intro a plain xs s jobs is ms w t
  have hids : (Turn.freshIds xs).Nodup := by decide
  have hwriters : ∀ i, (jobs i).isWriter := by decide
  have hdistinct : Job.AreDistinct jobs := Job.areDistinct_of_ne (by decide)
  have hnew : ∀ i id, (jobs i).call.fresh? = some id → id ∉ Turn.freshIds xs := by
    have hall : ∀ i, ∀ id ∈ (jobs i).call.fresh?, id ∉ Turn.freshIds xs := by decide
    exact hall
  have hquiet : ∀ i, (w.phase i).stage = .outside := by decide +kernel
  have hvacant : ∀ i, ¬ w.IsInside plain.recorded jobs a i := by
    rintro i ⟨_, k, hk⟩
    rw [hquiet i] at hk
    cases hk
  obtain ⟨_, hsame, _, htable⟩ := writers_take_turns ⟨0⟩ {} Hooks.none xs hids jobs hwriters hdistinct hnew ms
  obtain ⟨hentries, hheard⟩ := hsame a hvacant
  have hspared : ∀ v, .visit v ∈ ms → v.Spares 0 := by
    intro v hv
    obtain rfl : v = .receive 0 := by simpa [ms] using hv
    exact ⟨nofun, nofun, nofun⟩
  obtain ⟨q, hq⟩ : ∃ q, s.registry.queues.get? 0 = some q := Option.isSome_iff_exists.1 (by decide +kernel)
  have has : s.registry.addresses 0 = some [a] := by decide +kernel
  obtain ⟨_, _, hpart⟩ := hheard 0 [a] q has hq hspared
  rw [List.filter_append, List.filter_append] at hpart
  have hemitted : t.emitted.map Event.id = [⟨1⟩, ⟨2⟩, ⟨2⟩, ⟨3⟩] := by decide +kernel
  have hentered : w.entered = [1, 0, 2] := by decide +kernel
  have hnext : w.locks.next = 2 := by decide +kernel
  have hempty : w.locks.table.size = 0 := by with_reducible exact htable hquiet
  have hsent := List.append_cancel_left hpart
  with_reducible exact ⟨hids, hwriters, hdistinct, hnew, hentered, hnext, hempty, hentries, hsent, hemitted⟩

end Tidings
