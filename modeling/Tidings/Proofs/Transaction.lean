import Mathlib.Data.List.Basic
import Tidings.Database.Table
/-!
What is said to the database. An operation has a plan of statements, and it goes no further than the first
of them that fails; a transaction puts a beginning and a commit around the plan of its body.
-/
namespace Tidings.Database

/-- A statement and what it was answered. -/
structure Exchange where
  statement : Statement
  answer : Answer

/-- What a statement is answered. Where nothing can be sent, the reason takes the place of an answer. -/
def Session.answerTo (s : Session) (statement : Statement) : Answer × Session :=
  match outage? s.link with
  | some failure => (.failed failure, s)
  | none => (s.record statement).next statement

/-- Why an answer is none that a statement can go on with. -/
def Answer.failure? : Answer → Option Failure
  | .rows _ _ => none
  | .refused state message => some (.server state message)
  | .lost => some .lost
  | .failed failure => some failure

namespace Exchange

/-- The first row of the answer. -/
def row? (x : Exchange) : Option Row :=
  match x.answer with
  | .rows rows _ => rows.head?
  | _ => none

/-- The identifier of the holder that was deleted. -/
def deleted? (x : Exchange) : Option Id :=
  match x.statement with
  | .deleteHolder .. => x.row?.bind fun row => (Row.idOf "0" (row.cell "id")).toOption
  | _ => none

/-- Why the step failed: no success was answered, or the identifier of a deleted holder cannot be read. -/
def fault? (x : Exchange) : Option Fault :=
  match x.answer.failure?, x.statement with
  | some failure, _ => some (.ofDatabase failure)
  | none, .deleteHolder .. =>
    x.row?.bind fun row =>
      match Row.idOf "0" (row.cell "id") with
      | .ok _ => none
      | .error fault => some fault
  | none, _ => none

/-- Whether the database said that the transaction lost against another one. -/
def isConflict (x : Exchange) : Bool :=
  match x.answer.failure? with
  | some (.server (some state) _) => state = "40001" ∨ state = "40P01"
  | _ => false

end Exchange

/-- Statements sent one after the other, and answered. -/
inductive Exchanged : Session → List Exchange → Session → Prop
  | nil (s : Session) : Exchanged s [] s
  | cons (statement : Statement) {s s' : Session} {xs : List Exchange}
      (h : Exchanged (s.answerTo statement).2 xs s') :
      Exchanged s (⟨statement, (s.answerTo statement).1⟩ :: xs) s'

/-- How far an operation gets with the statements it means to send: all are sent and go well, or one fails
and is the last. -/
inductive Course {α : Type} (plan : List Statement) (R : List Exchange → α → Prop) :
    List Exchange → Except Fault α → Prop
  | whole {xs : List Exchange} {a : α} (hplan : xs.map (·.statement) = plan)
      (hgood : ∀ x ∈ xs, x.fault? = none) (hr : R xs a) : Course plan R xs (.ok a)
  | broken (xs : List Exchange) {x : Exchange} {fault : Fault} (rest : List Statement)
      (hplan : xs.map (·.statement) ++ x.statement :: rest = plan)
      (hgood : ∀ y ∈ xs, y.fault? = none) (hbad : x.fault? = some fault) :
      Course plan R (xs ++ [x]) (.error fault)

/-- An operation that sends the statements of a plan; `R` says what it makes of the answers. -/
def Sends {α : Type} (plan : List Statement) (R : List Exchange → α → Prop)
    (c : Access Session α) : Prop :=
  ∀ s, ∃ xs, Exchanged s xs (c s).2 ∧ Course plan R xs (c s).1

theorem Exchanged.append {s s' s'' : Session} {xs ys : List Exchange} (h : Exchanged s xs s')
    (h' : Exchanged s' ys s'') : Exchanged s (xs ++ ys) s'' := by
  induction h with
  | nil s => exact h'
  | cons statement _ ih => exact .cons statement (ih h')

theorem Exchange.fault?_of_failure {x : Exchange} {failure : Failure}
    (h : x.answer.failure? = some failure) : x.fault? = some (.ofDatabase failure) := by
  rw [fault?, h]

theorem Exchange.fault?_of_answered {x : Exchange} (h : x.answer.failure? = none)
    (hst : ∀ a group mode, x.statement ≠ .deleteHolder a group mode) : x.fault? = none := by
  unfold fault?
  rw [h]
  split
  · next heq => cases heq
  · next heq => exact absurd heq (hst _ _ _)
  · rfl

/-- Whether a failure is a conflict is told by its code. -/
theorem isConflict_ofDatabase (failure : Failure) :
    (Fault.ofDatabase failure).isConflict = failure.isConflict := by
  cases failure <;> rfl

theorem isConflict_of_unreadable {row : Row} {fault : Fault}
    (h : Row.idOf "0" (row.cell "id") = .error fault) : fault.isConflict = false := by
  unfold Row.idOf at h
  split at h <;> cases h <;> rfl

theorem Exchange.isConflict_of_fault {x : Exchange} {fault : Fault} (h : x.fault? = some fault) :
    x.isConflict = fault.isConflict := by
  unfold isConflict
  cases hf : x.answer.failure? with
  | some failure =>
    rw [fault?_of_failure hf, Option.some.injEq] at h
    rw [← h, isConflict_ofDatabase]
    cases failure with
    | server state text => cases state <;> simp [Failure.isConflict, Bool.beq_eq_decide_eq]
    | _ => rfl
  | none =>
    unfold fault? at h
    rw [hf] at h
    split at h
    · next heq => cases heq
    · obtain ⟨row, _, hrow⟩ := Option.bind_eq_some_iff.1 h
      cases hid : Row.idOf "0" (row.cell "id") with
      | ok id => simp [hid] at hrow
      | error fault' =>
        simp only [hid, Option.some.injEq] at hrow
        rw [← hrow, isConflict_of_unreadable hid]
    · cases h

theorem Exchange.isConflict_of_good {x : Exchange} (h : x.fault? = none) : x.isConflict = false := by
  unfold isConflict
  cases hf : x.answer.failure? with
  | none => rfl
  | some failure =>
    rw [fault?_of_failure hf] at h
    cases h

/-- A statement is answered with rows, or it fails. -/
theorem send_cases (statement : Statement) (s : Session) :
    (∃ rows affected, (s.answerTo statement).1 = .rows rows affected ∧
      send statement s = (.ok (rows, affected.getD rows.length), (s.answerTo statement).2)) ∨
    ∃ failure, (s.answerTo statement).1.failure? = some failure ∧
      send statement s = (.error (.ofDatabase failure), (s.answerTo statement).2) := by
  unfold send Session.answerTo
  cases Session.outage? s.link with
  | some failure => exact .inr ⟨failure, rfl, rfl⟩
  | none =>
    simp only
    cases ((s.record statement).next statement).1 with
    | rows rows affected => exact .inl ⟨rows, affected, rfl, rfl⟩
    | refused state message => exact .inr ⟨_, rfl, rfl⟩
    | lost => exact .inr ⟨_, rfl, rfl⟩
    | failed failure => exact .inr ⟨_, rfl, rfl⟩

section One
variable {α : Type} {c : Access Session α} {s : Session} {statement : Statement}
  {R : List Exchange → α → Prop}

/-- An operation that sent one statement, and that went well. -/
theorem sent_well {a : α} (hc : c s = (.ok a, (s.answerTo statement).2))
    (h : Exchange.fault? ⟨statement, (s.answerTo statement).1⟩ = none)
    (hr : R [⟨statement, (s.answerTo statement).1⟩] a) :
    ∃ xs, Exchanged s xs (c s).2 ∧ Course [statement] R xs (c s).1 := by
  rw [hc]
  exact ⟨_, .cons statement (.nil _), .whole rfl (by simpa using h) hr⟩

theorem sent_badly {fault : Fault} (hc : c s = (.error fault, (s.answerTo statement).2))
    (h : Exchange.fault? ⟨statement, (s.answerTo statement).1⟩ = some fault) :
    ∃ xs, Exchanged s xs (c s).2 ∧ Course [statement] R xs (c s).1 := by
  rw [hc]
  exact ⟨_, .cons statement (.nil _), .broken [] [] rfl (by simp) h⟩

end One

theorem sends_send (statement : Statement)
    (hst : ∀ a group mode, statement ≠ .deleteHolder a group mode) :
    Sends [statement] (fun xs _ => xs.findSome? Exchange.deleted? = none) (send statement) := by
  intro s
  have hdeleted : ∀ answer, Exchange.deleted? ⟨statement, answer⟩ = none := by
    intro answer
    cases statement <;> first | rfl | exact absurd rfl (hst _ _ _)
  rcases send_cases statement s with ⟨rows, affected, ha, hsend⟩ | ⟨failure, hf, hsend⟩
  · refine sent_well hsend ?_ ?_
    · exact Exchange.fault?_of_answered (congrArg Answer.failure? ha) hst
    · simp [hdeleted]
  · exact sent_badly hsend (Exchange.fault?_of_failure hf)

theorem sends_deleteHolder (a : Address) (group : String) (mode : Option Mode) :
    Sends [.deleteHolder a group mode] (fun xs v => xs.findSome? Exchange.deleted? = v)
      (deleteHolder a group mode) := by
  intro s
  rcases send_cases (.deleteHolder a group mode) s with
    ⟨rows, affected, ha, hsend⟩ | ⟨failure, hf, hsend⟩
  · have hrow : fetchRow (.deleteHolder a group mode) s = (.ok rows.head?, _) :=
      Access.bind_of_ok hsend
    have hdelete : deleteHolder a group mode s = _ := Access.bind_of_ok hrow
    cases hh : rows.head? with
    | none =>
      rw [hh] at hdelete
      refine sent_well hdelete ?_ ?_
      · simp [Exchange.fault?, Answer.failure?, Exchange.row?, ha, hh]
      · simp [Exchange.deleted?, Exchange.row?, ha, hh]
    | some row =>
      rw [hh] at hdelete
      cases hid : Row.idOf "0" (row.cell "id") with
      | ok id =>
        simp only [hid] at hdelete
        refine sent_well hdelete ?_ ?_
        · simp [Exchange.fault?, Answer.failure?, Exchange.row?, ha, hh, hid]
        · simp [Exchange.deleted?, Exchange.row?, ha, hh, hid, Except.toOption]
      | error fault =>
        simp only [hid] at hdelete
        refine sent_badly hdelete ?_
        simp [Exchange.fault?, Answer.failure?, Exchange.row?, ha, hh, hid]
  · have hrow : fetchRow (.deleteHolder a group mode) s = _ := Access.bind_of_error hsend
    exact sent_badly (Access.bind_of_error hrow) (Exchange.fault?_of_failure hf)

/-- One operation after another sends the statements of both. -/
theorem Sends.bind {α β : Type} {p q : List Statement} {R : List Exchange → α → Prop}
    {T : α → List Exchange → β → Prop} {c : Access Session α} {f : α → Access Session β}
    (hc : Sends p R c) (hf : ∀ a, Sends q (T a) (f a)) :
    Sends (p ++ q) (fun zs b => ∃ xs ys a, zs = xs ++ ys ∧ R xs a ∧ T a ys b) (c >>= f) := by
  intro s
  obtain ⟨xs, hxs, hcourse⟩ := hc s
  obtain ⟨r, s', hr⟩ : ∃ r s', c s = (r, s') := ⟨_, _, rfl⟩
  rw [hr] at hxs hcourse
  cases hcourse with
  | broken xs rest hplan hgood hbad =>
    rw [Access.bind_of_error hr]
    refine ⟨_, hxs, .broken xs (rest ++ q) ?_ hgood hbad⟩
    rw [← hplan, List.append_assoc, List.cons_append]
  | @whole xs a hplan hgood hra =>
    rw [Access.bind_of_ok hr]
    obtain ⟨ys, hys, hcourse'⟩ := hf a s'
    refine ⟨xs ++ ys, hxs.append hys, ?_⟩
    generalize (f a s').1 = r' at hcourse'
    cases hcourse' with
    | whole hplan' hgood' hrb =>
      refine .whole ?_ (List.forall_mem_append.2 ⟨hgood, hgood'⟩) ⟨xs, ys, a, rfl, hra, hrb⟩
      rw [List.map_append, hplan, hplan']
    | broken ys rest hplan' hgood' hbad =>
      rw [← List.append_assoc]
      refine .broken (xs ++ ys) rest ?_ (List.forall_mem_append.2 ⟨hgood, hgood'⟩) hbad
      rw [List.map_append, hplan, List.append_assoc, hplan']

theorem Sends.mono {α : Type} {p : List Statement} {R T : List Exchange → α → Prop}
    {c : Access Session α} (hc : Sends p R c) (h : ∀ xs a, R xs a → T xs a) : Sends p T c := by
  intro s
  obtain ⟨xs, hxs, hcourse⟩ := hc s
  refine ⟨xs, hxs, ?_⟩
  generalize (c s).1 = r at hcourse
  cases hcourse with
  | whole hplan hgood hr => exact .whole hplan hgood (h _ _ hr)
  | broken xs rest hplan hgood hbad => exact .broken xs rest hplan hgood hbad

theorem sends_pure {α : Type} (a : α) : Sends [] (fun xs b => xs = [] ∧ b = a) (pure a) :=
  fun s => ⟨[], .nil s, .whole rfl (by simp) ⟨rfl, rfl⟩⟩

/-- A statement of which no row is needed. -/
theorem sends_execute (statement : Statement)
    (hst : ∀ a group mode, statement ≠ .deleteHolder a group mode) :
    Sends [statement] (fun xs _ => xs.findSome? Exchange.deleted? = none) (execute statement) := by
  refine ((sends_send statement hst).bind fun _ => sends_pure ()).mono ?_
  rintro _ _ ⟨_, _, _, rfl, h, rfl, _⟩
  simpa using h

/-- The statements between the beginning and the end of the transaction that stores a notification. -/
def insertPlan (a : Address) (n : Notification) : List Statement :=
  (match n.group with
    | some group => [.lockGroup a group, .deleteHolder a group none]
    | none => []) ++ [.insert a n]

/-- The statements of the transaction that stores a notification. -/
def storePlan (a : Address) (n : Notification) : List Statement :=
  .begin :: insertPlan a n ++ [.commit]

/-- What storing makes of the answers is the identifier of the holder that was deleted. -/
theorem sends_insertBody (a : Address) (n : Notification) :
    Sends (insertPlan a n) (fun xs v => xs.findSome? Exchange.deleted? = v) (insertBody a n) := by
  unfold insertPlan insertBody
  have hinsert := sends_execute (.insert a n) (by simp)
  cases n.group with
  | none =>
    refine ((sends_pure none).bind fun replaced =>
      hinsert.bind fun _ => sends_pure replaced).mono ?_
    rintro _ _ ⟨_, _, _, rfl, ⟨rfl, rfl⟩, _, _, _, rfl, hi, rfl, rfl⟩
    simpa using hi
  | some group =>
    have hlock := sends_execute (.lockGroup a group) (by simp)
    refine (hlock.bind fun _ => (sends_deleteHolder a group none).bind fun replaced =>
      hinsert.bind fun _ => sends_pure replaced).mono ?_
    rintro _ _ ⟨_, _, _, rfl, hl, _, _, _, rfl, hd, _, _, _, rfl, hi, rfl, rfl⟩
    simp [List.findSome?_append, hl, hd, hi]

/-- An answer uses replies up and changes nothing else. -/
theorem Session.next_eq (s : Session) (statement : Statement) :
    ∃ replies, (s.next statement).2 = { s with replies } := by
  unfold next
  split
  · exact ⟨s.replies, rfl⟩
  · next reply rest _ =>
    split <;> split
    · exact ⟨rest, rfl⟩
    · exact ⟨s.replies, rfl⟩
    · exact ⟨s.replies, rfl⟩
    · exact ⟨rest, rfl⟩

theorem Session.answerTo_of_up {s : Session} (hs : s.link = .up) (statement : Statement) :
    ∃ replies, (s.answerTo statement).2 = { s with replies, sent := s.sent ++ [statement] } := by
  have ha : s.answerTo statement = (s.record statement).next statement := by
    rw [answerTo, hs]
    rfl
  rw [ha]
  exact next_eq _ _

theorem Session.pauses_answerTo (s : Session) (statement : Statement) :
    (s.answerTo statement).2.pauses = s.pauses := by
  unfold answerTo
  split
  · rfl
  · obtain ⟨replies, h⟩ := next_eq (s.record statement) statement
    rw [h]
    rfl

theorem Exchanged.sent_eq {s s' : Session} {xs : List Exchange} (h : Exchanged s xs s')
    (hs : s.link = .up) : s'.link = .up ∧ s'.sent = s.sent ++ xs.map (·.statement) := by
  induction h with
  | nil s => simp [hs]
  | @cons statement s s' xs h ih =>
    obtain ⟨replies, heq⟩ := Session.answerTo_of_up hs statement
    rw [heq] at ih
    obtain ⟨hlink, hsent⟩ := ih hs
    refine ⟨hlink, ?_⟩
    rw [hsent, List.append_assoc, List.map_cons, List.singleton_append]

theorem Exchanged.pauses_eq {s s' : Session} {xs : List Exchange} (h : Exchanged s xs s') :
    s'.pauses = s.pauses := by
  induction h with
  | nil s => rfl
  | @cons statement s s' xs h ih => rw [ih, Session.pauses_answerTo]

/-- A transaction is one attempt: it begins, sends the statements of its body, and commits. -/
theorem transaction_course {plan : List Statement} {body : Access Session (Option Id)}
    (hbody : Sends plan (fun xs v => xs.findSome? Exchange.deleted? = v) body) (s : Session) :
    ∃ (xs : List Exchange) (rolledBack : Bool) (s' : Session), Exchanged s xs s' ∧
      (transaction body s).2 = (if rolledBack then s'.record .rollback else s') ∧
      Course (.begin :: plan ++ [.commit]) (fun xs v => xs.findSome? Exchange.deleted? = v) xs
        (transaction body s).1 ∧
      (rolledBack → 1 < xs.length ∧ (transaction body s).1.toOption = none) := by
  have hwhole : Sends (plan ++ [.commit]) (fun xs v => xs.findSome? Exchange.deleted? = v)
      (body >>= fun a => send .commit >>= fun _ => pure a) := by
    have hcommit := sends_send .commit (by simp)
    refine (hbody.bind fun a => hcommit.bind fun _ => sends_pure a).mono ?_
    rintro _ _ ⟨_, _, _, rfl, hd, _, _, _, rfl, hc, rfl, rfl⟩
    simp [List.findSome?_append, hd, hc]
  unfold transaction
  rcases send_cases .begin s with ⟨rows, affected, ha, hsend⟩ | ⟨failure, hf, hsend⟩
  · rw [hsend]
    obtain ⟨xs, hxs, hcourse⟩ := hwhole (s.answerTo .begin).2
    obtain ⟨r, s', hr⟩ : ∃ r s', (body >>= fun a => send .commit >>= fun _ => pure a)
        (s.answerTo .begin).2 = (r, s') := ⟨_, _, rfl⟩
    rw [hr] at hxs hcourse
    simp only [hr]
    have hbegin : Exchange.fault? ⟨.begin, (s.answerTo .begin).1⟩ = none :=
      Exchange.fault?_of_answered (congrArg Answer.failure? ha) (by simp)
    cases hcourse with
    | whole hplan hgood hd =>
      refine ⟨_, false, s', .cons .begin hxs, rfl, .whole ?_ ?_ ?_, by simp⟩
      · rw [List.map_cons, hplan, List.cons_append]
      · exact List.forall_mem_cons.2 ⟨hbegin, hgood⟩
      · exact hd
    | @broken ys x fault rest hplan hgood hbad =>
      refine ⟨_, leavesOpen fault, s', .cons .begin hxs, rfl, ?_, ?_⟩
      · refine .broken (⟨.begin, (s.answerTo .begin).1⟩ :: ys) rest ?_ ?_ hbad
        · rw [List.map_cons, List.cons_append, hplan, List.cons_append]
        · exact List.forall_mem_cons.2 ⟨hbegin, hgood⟩
      · exact fun _ => ⟨by simp, rfl⟩
  · rw [hsend]
    refine ⟨_, false, _, .cons .begin (.nil _), rfl, ?_, by simp⟩
    exact .broken [] (plan ++ [.commit]) rfl (by simp) (Exchange.fault?_of_failure hf)

end Tidings.Database
