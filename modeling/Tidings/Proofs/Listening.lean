import Mathlib.Logic.Basic
import Tidings.Listener
/-!
One listener at a time. Calls come at any time, and between them listeners run or do not; whatever the order, a
listener that is alive is the one that the handle belongs to, and it is not told to stop.
-/
namespace Tidings

namespace ListenerRun

/-- Only a listener that is to run until it is stopped can still be alive, and it was not stopped. -/
theorem eq_of_alive_proceed {signal : Bool} {r : ListenerRun} (h : (r.proceed signal).fate = .alive) :
    r.proceed signal = r ∧ signal = false := by
  obtain ⟨kind, fate⟩ := r
  cases fate <;> cases kind <;> cases signal <;> simp_all [proceed]

theorem proceed_proceed (signal : Bool) (r : ListenerRun) :
    (r.proceed signal).proceed signal = r.proceed signal := by
  obtain ⟨kind, fate⟩ := r
  cases fate <;> cases kind <;> cases signal <;> rfl

/-- What has become of a listener fits its kind: those that fail by themselves have failed, and no others. -/
def Fits (r : ListenerRun) : Prop := ¬ r.fate = .alive → (r.fate = .failed ↔ r.kind = .failing)

theorem Fits.proceed {r : ListenerRun} (h : r.Fits) (signal : Bool) : (r.proceed signal).Fits := by
  obtain ⟨kind, fate⟩ := r
  cases fate <;> cases kind <;> cases signal <;> simp_all [Fits, ListenerRun.proceed]

end ListenerRun

namespace Listener

/-- What happens: a call, or one listener runs as far as it can. -/
inductive Act where
  | launch (kind : ListenerKind)
  | halt
  | proceed (i : Nat)
deriving DecidableEq, Repr

def perform (l : Listener) : Act → Listener
  | .launch kind => l.launch kind
  | .halt => l.halt
  | .proceed i => l.proceed i

def performAll (l : Listener) (acts : List Act) : Listener := acts.foldl perform l

/-- Whether an act is a launch that finds no listener alive. -/
def opens (l : Listener) : Act → Bool
  | .launch _ => l.alive = 0
  | _ => false

/-- How many launches of a run find no listener alive. -/
def launches : Listener → List Act → Nat
  | _, [] => 0
  | l, act :: acts => (l.opens act).toNat + launches (l.perform act) acts

/-- The second state is the first once its listeners have run, in some order, as far as they can. -/
def SettlesTo (l l' : Listener) : Prop :=
  (∃ order : List Nat, l' = l.performAll (order.map .proceed)) ∧ ∀ i, l'.proceed i = l'

theorem isAlive_iff {l : Listener} {i : Nat} :
    l.isAlive i = true ↔ ∃ r, l.runs[i]? = some r ∧ r.fate = .alive := by
  simp [isAlive, Option.any_eq_true]

theorem alive_eq_zero_iff {l : Listener} : l.alive = 0 ↔ ∀ i, ¬ l.isAlive i := by
  simp only [alive, List.countP_eq_zero, decide_eq_true_eq, List.mem_iff_getElem?, isAlive_iff]
  constructor
  · rintro h i ⟨r, hr, ha⟩
    exact h r ⟨i, hr⟩ ha
  · rintro h r ⟨i, hr⟩ ha
    exact h i ⟨r, hr, ha⟩

/-- A condition that is met at one place at most is counted once at most. -/
theorem countP_le_one {α : Type} {p : α → Bool} {xs : List α}
    (h : ∀ (i j : Nat) (x y : α), xs[i]? = some x → xs[j]? = some y → p x → p y → i = j) :
    xs.countP p ≤ 1 := by
  induction xs with
  | nil => simp
  | cons x xs ih =>
    have hrest : xs.countP p ≤ 1 := ih fun i j y z hy hz hpy hpz => by
      have hij := h (i + 1) (j + 1) y z (by simpa using hy) (by simpa using hz) hpy hpz
      omega
    by_cases hx : p x
    · have hnone : xs.countP p = 0 := by
        rw [List.countP_eq_zero]
        intro y hy hpy
        obtain ⟨j, hj⟩ := List.mem_iff_getElem?.1 hy
        have h0 := h 0 (j + 1) x y (by simp) (by simpa using hj) hx hpy
        omega
      rw [List.countP_cons_of_pos hx]
      omega
    · rwa [List.countP_cons_of_neg hx]

theorem ended_add_failed_add_alive (l : Listener) : l.ended + l.failed + l.alive = l.started := by
  obtain ⟨rs, handle, signal⟩ := l
  simp only [ended, failed, alive, started]
  induction rs with
  | nil => rfl
  | cons r rs ih =>
    simp only [List.countP_cons, List.length_cons]
    cases r.fate <;> simp <;> omega

theorem getElem?_proceed (l : Listener) (i j : Nat) : (l.proceed i).runs[j]? =
    if i = j then (l.runs[j]?).map (ListenerRun.proceed l.signal) else l.runs[j]? := by
  rw [proceed, List.getElem?_modify]
  split <;> simp

/-- Running does not bring a listener back, and one that runs under the signal is over. -/
theorem isAlive_of_proceed {l : Listener} {i j : Nat} (h : (l.proceed i).isAlive j) :
    l.isAlive j ∧ (i = j → l.signal = false) := by
  obtain ⟨r, hr, ha⟩ := isAlive_iff.1 h
  rw [getElem?_proceed] at hr
  split at hr
  · obtain ⟨s, hs, rfl⟩ := Option.map_eq_some_iff.1 hr
    obtain ⟨heq, hsignal⟩ := ListenerRun.eq_of_alive_proceed ha
    exact ⟨isAlive_iff.2 ⟨s, hs, heq ▸ ha⟩, fun _ => hsignal⟩
  · next hij => exact ⟨isAlive_iff.2 ⟨r, hr, ha⟩, fun heq => absurd heq hij⟩

theorem isAlive_of_foldl_proceed {l : Listener} {order : List Nat} {i : Nat}
    (h : (order.foldl proceed l).isAlive i) : l.isAlive i := by
  induction order generalizing l with
  | nil => exact h
  | cons j order ih => exact (isAlive_of_proceed (ih h)).1

theorem getElem?_foldl_proceed (l : Listener) (order : List Nat) (j : Nat) :
    (order.foldl proceed l).runs[j]? =
      if j ∈ order then (l.runs[j]?).map (ListenerRun.proceed l.signal) else l.runs[j]? := by
  induction order generalizing l with
  | nil => simp
  | cons i order ih =>
    have hsignal : (l.proceed i).signal = l.signal := rfl
    rw [List.foldl_cons, ih, getElem?_proceed, hsignal]
    by_cases hij : i = j
    · subst hij
      simp [Function.comp_def, ListenerRun.proceed_proceed]
    · simp [hij, Ne.symm hij]

theorem signal_foldl_proceed (l : Listener) (order : List Nat) :
    (order.foldl proceed l).signal = l.signal := by
  induction order generalizing l with
  | nil => rfl
  | cons i order ih => exact ih (l.proceed i)

/-- What has run as far as it can does not change when it runs once more. -/
theorem settle_settlesTo (l : Listener) : l.SettlesTo l.settle := by
  refine ⟨⟨List.range l.runs.length, ?_⟩, fun i => ?_⟩
  · rw [performAll, List.foldl_map]
    rfl
  have hruns : (l.settle.proceed i).runs = l.settle.runs := by
    refine List.ext_getElem? fun j => ?_
    rw [getElem?_proceed, settle, signal_foldl_proceed, getElem?_foldl_proceed]
    by_cases hj : j < l.runs.length
    · simp [hj, ListenerRun.proceed_proceed]
    · simp [hj]
  exact congrArg (fun runs => { l.settle with runs }) hruns

theorem isAlive_launch {l : Listener} (hrun : l.isRunning = false) (kind : ListenerKind) (i : Nat) :
    (l.launch kind).isAlive i = true ↔ l.isAlive i = true ∨ i = l.started := by
  have hlaunch : (l.launch kind).runs = l.runs ++ [⟨kind, .alive⟩] := by
    simp [launch, hrun]
  rw [isAlive_iff, isAlive_iff, hlaunch, started]
  rcases Nat.lt_trichotomy i l.runs.length with hlt | rfl | hgt
  · rw [List.getElem?_append_left hlt]
    constructor
    · exact .inl
    · rintro (h | h)
      · exact h
      · omega
  · simp
  · rw [List.getElem?_eq_none (by simp; omega), List.getElem?_eq_none (by omega)]
    simp
    omega

/-- A listener that is alive is the one of the handle, and it is not told to stop. -/
structure Sound (l : Listener) : Prop where
  handled : ∀ i, l.isAlive i → l.handle = some i
  quiet : ∀ i, l.isAlive i → l.signal = false
  fits : ∀ r ∈ l.runs, r.Fits

theorem sound_new : Sound new := ⟨by simp [new, isAlive], by simp [new, isAlive], by simp [new]⟩

namespace Sound
variable {l : Listener}

theorem alive_le_one (h : l.Sound) : l.alive ≤ 1 :=
  countP_le_one fun i j r s hr hs har has => by
    have hi := h.handled i (isAlive_iff.2 ⟨r, hr, of_decide_eq_true har⟩)
    have hj := h.handled j (isAlive_iff.2 ⟨s, hs, of_decide_eq_true has⟩)
    exact Option.some.inj (hi.symm.trans hj)

theorem isRunning_iff (h : l.Sound) : l.isRunning = true ↔ ¬ l.alive = 0 := by
  rw [alive_eq_zero_iff, isRunning, Option.any_eq_true]
  constructor
  · rintro ⟨i, _, hi⟩ hnone
    exact hnone i hi
  · intro hsome
    obtain ⟨i, hi⟩ := not_forall_not.1 hsome
    exact ⟨i, h.handled i hi, hi⟩

/-- A launch starts a listener if none is alive, and does nothing otherwise. -/
theorem launch_eq (h : l.Sound) (kind : ListenerKind) : l.launch kind =
    if l.alive = 0 then ⟨l.runs ++ [⟨kind, .alive⟩], some l.started, false⟩ else l := by
  have hrun := h.isRunning_iff
  rw [Listener.launch]
  by_cases hr : l.isRunning
  · rw [if_pos hr, if_neg (hrun.1 hr)]
  · rw [if_neg hr, if_pos (by simpa [hr] using hrun), started]

theorem fits_proceed (h : l.Sound) (signal : Bool) (i : Nat) :
    ∀ r ∈ ({ l with signal }.proceed i).runs, r.Fits := by
  intro r hr
  obtain ⟨j, hj⟩ := List.mem_iff_getElem?.1 hr
  rw [getElem?_proceed] at hj
  split at hj
  · obtain ⟨s, hs, rfl⟩ := Option.map_eq_some_iff.1 hj
    exact (h.fits s (List.mem_of_getElem? hs)).proceed signal
  · exact h.fits r (List.mem_of_getElem? hj)

theorem proceed (h : l.Sound) (i : Nat) : (l.proceed i).Sound where
  handled j hj := h.handled j (isAlive_of_proceed hj).1
  quiet j hj := h.quiet j (isAlive_of_proceed hj).1
  fits := h.fits_proceed l.signal i

theorem launch (h : l.Sound) (kind : ListenerKind) : (l.launch kind).Sound := by
  by_cases hr : l.isRunning
  · rw [Listener.launch, if_pos hr]
    exact h
  · have hrun : l.isRunning = false := by simpa using hr
    have hnone := alive_eq_zero_iff.1 (not_not.1 (mt h.isRunning_iff.2 hr))
    have hnew : ∀ i, (l.launch kind).isAlive i → i = l.started := fun i hi =>
      ((isAlive_launch hrun kind i).1 hi).resolve_left (hnone i)
    refine ⟨fun i hi => ?_, fun i hi => ?_, fun r hrun => ?_⟩
    · rw [hnew i hi, Listener.launch, if_neg hr]
      rfl
    · rw [Listener.launch, if_neg hr]
    · rw [Listener.launch, if_neg hr] at hrun
      rcases List.mem_append.1 hrun with hold | hlast
      · exact h.fits r hold
      · rw [List.mem_singleton.1 hlast]
        exact fun hover => absurd rfl hover

/-- Once the signal is given and the listener of the handle has run, no listener is alive. -/
theorem alive_halt (h : l.Sound) : l.halt.alive = 0 := by
  rw [alive_eq_zero_iff]
  intro i hi
  rw [Listener.halt] at hi
  cases hhandle : l.handle with
  | none =>
    rw [hhandle] at hi
    have halive : l.isAlive i := hi
    rw [h.handled i halive] at hhandle
    cases hhandle
  | some k =>
    rw [hhandle] at hi
    obtain ⟨halive, hsignal⟩ := isAlive_of_proceed (l := { l with signal := true }) hi
    have hk : some k = some i := hhandle.symm.trans (h.handled i halive)
    cases hsignal (Option.some.inj hk)

theorem halt (h : l.Sound) : l.halt.Sound := by
  have hnone := alive_eq_zero_iff.1 h.alive_halt
  refine ⟨fun i hi => absurd hi (hnone i), fun i hi => absurd hi (hnone i), ?_⟩
  rw [Listener.halt]
  cases l.handle with
  | none => exact h.fits
  | some i => exact h.fits_proceed true i

theorem alive_shutdown (h : l.Sound) : l.shutdown.alive = 0 := by
  have hnone := alive_eq_zero_iff.1 h.alive_halt
  rw [alive_eq_zero_iff]
  intro i hi
  exact hnone i (isAlive_of_foldl_proceed hi)

theorem perform (h : l.Sound) (act : Act) : (l.perform act).Sound := by
  cases act with
  | launch kind => exact h.launch kind
  | halt => exact h.halt
  | proceed i => exact h.proceed i

theorem performAll (h : l.Sound) (acts : List Act) : (l.performAll acts).Sound := by
  induction acts generalizing l with
  | nil => exact h
  | cons act acts ih => exact ih (h.perform act)

theorem started_perform (h : l.Sound) (act : Act) :
    (l.perform act).started = l.started + (l.opens act).toNat := by
  cases act with
  | launch kind =>
    rw [Listener.perform, h.launch_eq, opens]
    split
    · next hnone => simp [started, hnone]
    · next hsome => simp [hsome]
  | halt =>
    rw [Listener.perform, Listener.halt]
    cases l.handle <;> simp [started, Listener.proceed, opens]
  | proceed i => simp [Listener.perform, started, Listener.proceed, opens]

theorem started_performAll (h : l.Sound) (acts : List Act) :
    (l.performAll acts).started = l.started + l.launches acts := by
  induction acts generalizing l with
  | nil => rfl
  | cons act acts ih =>
    calc (l.performAll (act :: acts)).started
        = (l.perform act).started + (l.perform act).launches acts := ih (h.perform act)
      _ = l.started + l.launches (act :: acts) := by rw [h.started_perform, launches, Nat.add_assoc]

/-- A listener that is alive and waits for the signal goes on, whatever happens but that. -/
theorem stays (h : l.Sound) {i : Nat} (hi : l.runs[i]? = some ⟨.untilStopped, .alive⟩) {acts : List Act}
    (hacts : .halt ∉ acts) : (l.performAll acts).runs[i]? = some ⟨.untilStopped, .alive⟩ := by
  induction acts generalizing l with
  | nil => exact hi
  | cons act acts ih =>
    obtain ⟨hact, hrest⟩ := not_or.1 (mt List.mem_cons.2 hacts)
    have halive : l.isAlive i := isAlive_iff.2 ⟨_, hi, rfl⟩
    refine ih (h.perform act) ?_ hrest
    cases act with
    | launch kind =>
      have hrun : ¬ l.alive = 0 := fun hzero => alive_eq_zero_iff.1 hzero i halive
      rw [Listener.perform, h.launch_eq, if_neg hrun, hi]
    | halt => exact absurd rfl hact
    | proceed j =>
      rw [Listener.perform, getElem?_proceed, hi, h.quiet i halive]
      split <;> rfl

end Sound

/-- At most one listener is alive, whatever the order in which calls come and listeners run. A launch starts one
if none is alive and does nothing otherwise, so as many are started as launches found none; a halt leaves none
alive. A signal given before the launch does not end a listener: it goes on until the next halt. Each listener
that was started has ended, has failed or is alive, and only those fail that do so by themselves. The calls that
let every listener run before they return are among these runs. -/
theorem one_listener_at_a_time (acts : List Act) :
    let l := new.performAll acts
    l.alive ≤ 1 ∧
    (∀ kind, l.launch kind =
      if l.alive = 0 then ⟨l.runs ++ [⟨kind, .alive⟩], some l.started, false⟩ else l) ∧
    l.started = new.launches acts ∧
    l.halt.alive = 0 ∧ l.shutdown.alive = 0 ∧
    (l.alive = 0 → ∀ later, .halt ∉ later →
      ((l.launch .untilStopped).performAll later).runs[l.started]? = some ⟨.untilStopped, .alive⟩) ∧
    l.ended + l.failed + l.alive = l.started ∧
    (∀ r ∈ l.runs, ¬ r.fate = .alive → (r.fate = .failed ↔ r.kind = .failing)) ∧
    (∀ kind, (l.launch kind).SettlesTo (l.spawn kind)) ∧ l.halt.SettlesTo l.shutdown := by
  intro l
  have h : l.Sound := sound_new.performAll acts
  have hstarted : l.started = new.launches acts :=
    (sound_new.started_performAll acts).trans (Nat.zero_add _)
  have hstays : l.alive = 0 → ∀ later, .halt ∉ later →
      ((l.launch .untilStopped).performAll later).runs[l.started]? = some ⟨.untilStopped, .alive⟩ := by
    intro hnone later hlater
    refine (h.launch .untilStopped).stays ?_ hlater
    rw [h.launch_eq, if_pos hnone, started]
    exact List.getElem?_concat_length
  exact ⟨h.alive_le_one, h.launch_eq, hstarted, h.alive_halt, h.alive_shutdown, hstays,
    ended_add_failed_add_alive l, h.fits, fun kind => settle_settlesTo _, settle_settlesTo _⟩

/-- After a failure and a halt, a listener that is launched is left alone by another launch. -/
theorem one_listener_at_a_time_of_second_life :
    let l := new.performAll [.launch .failing, .proceed 0, .launch .untilStopped, .halt]
    l.alive = 0 ∧ ((l.launch .untilStopped).performAll [.proceed 2, .launch .returning, .proceed 2]).runs[2]? =
      some ⟨.untilStopped, .alive⟩ := by
  intro l
  have hnone : l.alive = 0 := by decide
  obtain ⟨_, _, _, _, _, hstays, _⟩ :=
    one_listener_at_a_time [.launch .failing, .proceed 0, .launch .untilStopped, .halt]
  exact ⟨hnone, hstays hnone _ (by decide)⟩

end Listener

end Tidings
