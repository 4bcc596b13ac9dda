import Tidings.Proofs.Transaction
/-!
Attempts at a transaction. After a conflict another attempt is made, as long as a pause is left; what comes
out is what the last one committed.
-/
namespace Tidings.Database

/-- One attempt at a transaction: what was said, whether the transaction was rolled back, and the pause
after it. -/
structure Attempt where
  exchanges : List Exchange
  rolledBack : Bool
  pause : Option Nat

namespace Attempt

/-- The session after an attempt, from the one after its last answer. -/
def after (t : Attempt) (s : Session) : Session :=
  let s := if t.rolledBack then s.record .rollback else s
  match t.pause with
  | some ms => s.pause ms
  | none => s

def statements (t : Attempt) : List Statement := t.exchanges.map (·.statement)

/-- An attempt sends the statements of a plan in order, up to the first that fails, and rolls back only
what has begun and failed. -/
structure Follows (plan : List Statement) (t : Attempt) : Prop where
  order : t.statements <+: plan
  stops : ∀ x ∈ t.exchanges.dropLast, x.fault? = none
  goesOn : t.statements = plan ∨ ∃ x ∈ t.exchanges.getLast?, x.fault?.isSome
  rollsBack : t.rolledBack → 1 < t.exchanges.length ∧ ∃ x ∈ t.exchanges.getLast?, x.fault?.isSome

def isCommitted (t : Attempt) : Prop := ∃ x ∈ t.exchanges, x.statement = .commit ∧ x.fault? = none

def isConflict (t : Attempt) : Bool := t.exchanges.any Exchange.isConflict

/-- The identifier of the holder that was deleted in this attempt. -/
def deleted? (t : Attempt) : Option Id := t.exchanges.findSome? Exchange.deleted?

end Attempt

/-- Attempts made one after the other. -/
inductive Conducted : Session → List Attempt → Session → Prop
  | nil (s : Session) : Conducted s [] s
  | cons {s s' s'' : Session} {t : Attempt} {ts : List Attempt} (h : Exchanged s t.exchanges s')
      (hs : Conducted (t.after s') ts s'') : Conducted s (t :: ts) s''

/-- Attempts at a plan with some pauses to make: another one follows after a conflict as long as there is a
pause left, and after nothing else. -/
inductive Tried (plan : List Statement) : List Nat → List Attempt → Prop
  | last {pauses : List Nat} {t : Attempt} (hf : t.Follows plan) (hp : t.pause = none)
      (h : pauses = [] ∨ t.isConflict = false) : Tried plan pauses [t]
  | again {ms : Nat} {pauses : List Nat} {t : Attempt} {ts : List Attempt} (hf : t.Follows plan)
      (hp : t.pause = some ms) (hc : t.isConflict) (h : Tried plan pauses ts) :
      Tried plan (ms :: pauses) (t :: ts)

theorem Course.follows {α : Type} {plan : List Statement} {R : List Exchange → α → Prop} {t : Attempt}
    {r : Except Fault α} (h : Course plan R t.exchanges r)
    (hback : t.rolledBack → 1 < t.exchanges.length ∧ r.toOption = none) : t.Follows plan := by
  obtain ⟨xs, rolledBack, pause⟩ := t
  cases h with
  | whole hplan hgood hr =>
    have hsame : Attempt.statements ⟨xs, rolledBack, pause⟩ = plan := hplan
    refine ⟨?_, fun x hx => hgood x (List.dropLast_subset _ hx), .inl hsame, fun hb => ?_⟩
    · exact ⟨[], by rw [hsame, List.append_nil]⟩
    · cases (hback hb).2
  | @broken ys x fault rest hplan hgood hbad =>
    have hlast : ∃ y ∈ (ys ++ [x]).getLast?, y.fault?.isSome := ⟨x, by simp, by simp [hbad]⟩
    refine ⟨⟨rest, ?_⟩, fun y hy => ?_, .inr hlast, fun hb => ⟨(hback hb).1, hlast⟩⟩
    · simp [Attempt.statements, ← hplan]
    · have hy : y ∈ (ys ++ [x]).dropLast := hy
      rw [List.dropLast_concat] at hy
      exact hgood y hy

/-- Whether a result says that a transaction lost against another one. -/
def isLost {α : Type} : Except Fault α → Bool
  | .ok _ => false
  | .error fault => fault.isConflict

theorem Course.isConflict {α : Type} {plan : List Statement} {R : List Exchange → α → Prop}
    {t : Attempt} {r : Except Fault α} (h : Course plan R t.exchanges r) : t.isConflict = isLost r := by
  obtain ⟨xs, rolledBack, pause⟩ := t
  have hno : ∀ ys : List Exchange, (∀ y ∈ ys, y.fault? = none) → ys.any Exchange.isConflict = false :=
    fun ys hys => List.any_eq_false.2 fun y hy => by simp [Exchange.isConflict_of_good (hys y hy)]
  cases h with
  | whole hplan hgood hr => exact hno xs hgood
  | broken ys rest hplan hgood hbad =>
    simp [Attempt.isConflict, isLost, hno _ hgood, Exchange.isConflict_of_fault hbad]

/-- The commit is the last statement, so it went well just when everything did. -/
theorem Course.ok_iff {plan : List Statement} {t : Attempt} {r : Except Fault (Option Id)}
    (h : Course (plan ++ [.commit]) (fun xs v => xs.findSome? Exchange.deleted? = v) t.exchanges r)
    (hplan : .commit ∉ plan) (replaced : Option Id) :
    r = .ok replaced ↔ t.isCommitted ∧ t.deleted? = replaced := by
  obtain ⟨xs, rolledBack, pause⟩ := t
  cases h with
  | @whole _ a hall hgood hr =>
    have hcommit : Attempt.isCommitted ⟨xs, rolledBack, pause⟩ := by
      have hm : Statement.commit ∈ xs.map (·.statement) := by simp [hall]
      obtain ⟨x, hx, hst⟩ := List.mem_map.1 hm
      exact ⟨x, hx, hst, hgood x hx⟩
    have hdeleted : Attempt.deleted? ⟨xs, rolledBack, pause⟩ = a := hr
    simp [hcommit, hdeleted]
  | @broken ys x fault rest hall hgood hbad =>
    refine iff_of_false (by simp) ?_
    rintro ⟨⟨y, hy, hst, hgoody⟩, _⟩
    rcases List.mem_append.1 hy with hy | hy
    · -- What went well before the failure stands before the commit in the plan.
      have hpre : ys.map (·.statement) ++ (x.statement :: rest).dropLast = plan := by
        have hdrop : (plan ++ [Statement.commit]).dropLast = plan := List.dropLast_concat
        rw [← hdrop, ← hall, List.dropLast_append_of_ne_nil (by simp)]
      refine hplan ?_
      rw [← hpre, ← hst]
      exact List.mem_append_left _ (List.mem_map_of_mem hy)
    · rw [List.mem_singleton.1 hy, hbad] at hgoody
      cases hgoody

namespace Tried
variable {plan : List Statement} {pauses : List Nat} {ts : List Attempt} (h : Tried plan pauses ts)
include h

theorem ne_nil : ts ≠ [] := by
  cases h <;> simp

theorem length_le : ts.length ≤ pauses.length + 1 := by
  induction h with
  | last hf hp hend => simp
  | again hf hp hc h ih => simpa using ih

theorem follows : ∀ t ∈ ts, t.Follows plan := by
  induction h with
  | last hf hp hend => simpa using hf
  | again hf hp hc h ih => exact List.forall_mem_cons.2 ⟨hf, ih⟩

/-- The pauses that were made are the first ones, and none comes after the last attempt. -/
theorem pauses_eq : ts.map (·.pause) = (pauses.take (ts.length - 1)).map some ++ [none] := by
  induction h with
  | last hf hp hend => simp [hp]
  | @again ms pauses t ts hf hp hc h ih =>
    obtain ⟨k, hk⟩ : ∃ k, ts.length = k + 1 := Nat.exists_eq_succ_of_ne_zero (by simpa using h.ne_nil)
    rw [hk] at ih
    simp only [Nat.add_sub_cancel] at ih
    simp [hp, hk, ih]

theorem filterMap_pause : ts.filterMap (·.pause) = pauses.take (ts.length - 1) := by
  have hmap : ts.filterMap (·.pause) = (ts.map (·.pause)).filterMap id := by
    rw [List.filterMap_map]
    rfl
  rw [hmap, h.pauses_eq, List.filterMap_append, List.filterMap_map, Function.id_comp,
    List.filterMap_some]
  exact List.append_nil _

/-- Another attempt follows just when one ends in a conflict and a pause is left. -/
theorem again_iff (i : Nat) (hi : i < ts.length) :
    i + 1 < ts.length ↔ ts[i].isConflict ∧ i < pauses.length := by
  induction h generalizing i with
  | last hf hp hend =>
    have hi0 : i = 0 := by simpa using hi
    subst hi0
    rcases hend with hend | hend <;> simp [hend]
  | @again ms pauses t ts hf hp hc h ih =>
    have hpos : 0 < ts.length := List.length_pos_of_ne_nil h.ne_nil
    cases i with
    | zero => simp [hc, hpos]
    | succ i => simpa using ih i (by simpa using hi)

end Tried

/-- What a session has sent in some attempts, if the database can be reached. -/
theorem Conducted.sent_eq {s s' : Session} {ts : List Attempt} (h : Conducted s ts s')
    (hs : s.link = .up) : s'.sent = s.sent ++ ts.flatMap fun t =>
      t.statements ++ if t.rolledBack then [.rollback] else [] := by
  induction h with
  | nil s => simp
  | @cons s s' s'' t ts h hrest ih =>
    obtain ⟨hlink, hsent⟩ := h.sent_eq hs
    have hafter : (t.after s').link = .up ∧
        (t.after s').sent = s'.sent ++ if t.rolledBack then [.rollback] else [] := by
      unfold Attempt.after
      cases t.pause <;> cases t.rolledBack <;> simp [Session.pause, Session.record, hlink]
    rw [ih hafter.1, hafter.2, hsent, List.flatMap_cons, Attempt.statements]
    simp only [List.append_assoc]

theorem Conducted.pauses_eq {s s' : Session} {ts : List Attempt} (h : Conducted s ts s') :
    s'.pauses = s.pauses ++ ts.filterMap (·.pause) := by
  induction h with
  | nil s => simp
  | @cons s s' s'' t ts h hrest ih =>
    have hafter : (t.after s').pauses = s.pauses ++ t.pause.toList := by
      rw [← h.pauses_eq]
      unfold Attempt.after
      cases t.pause <;> cases t.rolledBack <;> simp [Session.pause, Session.record]
    rw [ih, hafter, List.append_assoc]
    cases hp : t.pause <;> simp [hp]

section Step
variable {σ α : Type} {pause : Nat → σ → σ} {x : Access σ α} {s : σ} (ms : Nat) (more : List Nat)

theorem retry_of_lost (h : isLost (x s).1) :
    retry pause x (ms :: more) s = retry pause x more (pause ms (x s).2) := by
  rcases hx : x s with ⟨r, s'⟩
  rw [hx] at h
  cases r with
  | ok a => cases h
  | error fault =>
    have hc : fault.isConflict := h
    simp only [retry, hx, hc, if_true]

theorem retry_of_not_lost (h : isLost (x s).1 = false) : retry pause x (ms :: more) s = x s := by
  rcases hx : x s with ⟨r, s'⟩
  rw [hx] at h
  cases r with
  | ok a => simp only [retry, hx]
  | error fault =>
    have hc : fault.isConflict = false := h
    simp [retry, hx, hc]

end Step

section Retry
variable {plan : List Statement} {body : Access Session (Option Id)}
  (hbody : Sends plan (fun xs v => xs.findSome? Exchange.deleted? = v) body)
  (hplan : .commit ∉ Statement.begin :: plan)
include hbody hplan

/-- A transaction is an attempt at its plan, whatever pause comes after it, and its result is what the
attempt committed. -/
theorem transaction_attempt (s : Session) : ∃ xs rolledBack s', Exchanged s xs s' ∧ ∀ pause : Option Nat,
    Attempt.after ⟨xs, rolledBack, pause⟩ s' =
      (match pause with
        | some ms => (transaction body s).2.pause ms
        | none => (transaction body s).2) ∧
    Attempt.Follows (.begin :: plan ++ [.commit]) ⟨xs, rolledBack, pause⟩ ∧
    Attempt.isConflict ⟨xs, rolledBack, pause⟩ = isLost (transaction body s).1 ∧
    ∀ replaced, (transaction body s).1 = .ok replaced ↔
      Attempt.isCommitted ⟨xs, rolledBack, pause⟩ ∧ Attempt.deleted? ⟨xs, rolledBack, pause⟩ = replaced := by
  obtain ⟨xs, rolledBack, s', hxs, hs', hcourse, hback⟩ := transaction_course hbody s
  refine ⟨xs, rolledBack, s', hxs, fun pause => ⟨?_, ?_, ?_, ?_⟩⟩
  · rw [hs']
    cases pause <;> rfl
  · exact Course.follows hcourse hback
  · exact Course.isConflict (t := ⟨xs, rolledBack, pause⟩) hcourse
  · exact Course.ok_iff (t := ⟨xs, rolledBack, pause⟩) hcourse hplan

/-- When no other attempt is made, the one that was made is the last. -/
theorem tried_once {pauses : List Nat} {s : Session}
    (hend : pauses = [] ∨ isLost (transaction body s).1 = false) :
    ∃ ts, Conducted s ts (transaction body s).2 ∧ Tried (.begin :: plan ++ [.commit]) pauses ts ∧
      ∀ replaced, (transaction body s).1 = .ok replaced ↔
        ∃ t ∈ ts.getLast?, t.isCommitted ∧ t.deleted? = replaced := by
  obtain ⟨xs, rolledBack, s', hxs, hall⟩ := transaction_attempt hbody hplan s
  obtain ⟨hafter, hfollows, hconflict, hok⟩ := hall none
  refine ⟨[⟨xs, rolledBack, none⟩], ?_, .last hfollows rfl (hend.imp_right hconflict.trans), ?_⟩
  · exact .cons hxs (by rw [hafter]; exact .nil _)
  · intro replaced
    simpa using hok replaced

/-- Retrying makes one attempt after another, and its result is that of the last. -/
theorem retry_tried (pauses : List Nat) (s : Session) :
    ∃ ts, Conducted s ts (retry Session.pause (transaction body) pauses s).2 ∧
      Tried (.begin :: plan ++ [.commit]) pauses ts ∧
      ∀ replaced, (retry Session.pause (transaction body) pauses s).1 = .ok replaced ↔
        ∃ t ∈ ts.getLast?, t.isCommitted ∧ t.deleted? = replaced := by
  induction pauses generalizing s with
  | nil => exact tried_once hbody hplan (.inl rfl)
  | cons ms pauses ih =>
    cases hl : isLost (transaction body s).1 with
    | false =>
      rw [retry_of_not_lost ms pauses hl]
      exact tried_once hbody hplan (.inr hl)
    | true =>
      obtain ⟨xs, rolledBack, s', hxs, hall⟩ := transaction_attempt hbody hplan s
      obtain ⟨hafter, hfollows, hconflict, _⟩ := hall (some ms)
      obtain ⟨ts, hts, htried, hlast⟩ := ih ((transaction body s).2.pause ms)
      rw [retry_of_lost ms pauses hl]
      refine ⟨⟨xs, rolledBack, some ms⟩ :: ts, .cons hxs ?_, .again hfollows rfl ?_ htried, ?_⟩
      · rw [hafter]
        exact hts
      · exact hconflict.trans hl
      · intro replaced
        rw [hlast replaced, List.getLast?_cons_of_ne_nil htried.ne_nil]

end Retry

theorem commit_notMem_insertPlan (a : Address) (n : Notification) :
    .commit ∉ Statement.begin :: insertPlan a n := by
  unfold insertPlan
  cases n.group <;> simp

/-- Storing makes one to three attempts. -/
theorem store_tried {n : Notification} {a : Address} (ha : n.target = some a)
    (hmode : n.mode.isPersisted) (s : Session) :
    ∃ ts, Conducted s ts (store n s).2 ∧ Tried (storePlan a n) [20, 40] ts ∧
      ∀ replaced, (store n s).1 = .ok replaced ↔
        ∃ t ∈ ts.getLast?, t.isCommitted ∧ t.deleted? = replaced := by
  have hstore : store n = retry Session.pause (transaction (insertBody a n)) [20, 40] := by
    simp only [store, ha, hmode, if_true]
    rfl
  rw [hstore]
  exact retry_tried (sends_insertBody a n) (commit_notMem_insertPlan a n) [20, 40] s

end Tidings.Database
