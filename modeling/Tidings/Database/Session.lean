import Tidings.Backend
import Tidings.Database.Statement
/-!
A session with the database. What the database will answer is laid down as a script, so that a session is
a value: it holds the answers to come, the statements sent so far and the pauses made between attempts.
-/
namespace Tidings.Database

/-- What the database answers to a statement. -/
inductive Answer where
  /-- Success, with rows; `affected` counts the rows changed where that is another number. -/
  | rows (rows : List Row) (affected : Option Nat)
  | refused (state : Option String) (message : String)
  | lost
  /-- Anything else that can go wrong. -/
  | failed (failure : Failure)

/-- The answer of a statement that has no row to give. -/
def Answer.empty : Answer := .rows [] none

/-- An answer in a script. One that is bound to a statement waits until that is sent. -/
structure Reply where
  on : Option String
  answer : Answer

inductive Link where
  | up
  | down
  | closed
deriving DecidableEq, Repr

structure Session where
  link : Link
  replies : List Reply
  sent : List Statement
  pauses : List Nat

namespace Session

def ofLink (link : Link) : Session := ⟨link, [], [], []⟩

/-- The next answer to a statement. -/
def next (s : Session) (statement : Statement) : Answer × Session :=
  match s.replies with
  | [] => (.empty, s)
  | reply :: rest =>
    match reply.on with
    | some name =>
      if name = statement.text then (reply.answer, { s with replies := rest }) else (.empty, s)
    | none =>
      if statement.isFrame then (.empty, s) else (reply.answer, { s with replies := rest })

def outage? : Link → Option Failure
  | .up => none
  | .down => some (.connection "No such file or directory (os error 2)")
  | .closed => some .poolClosed

def record (s : Session) (statement : Statement) : Session :=
  { s with sent := s.sent ++ [statement] }

def pause (ms : Nat) (s : Session) : Session := { s with pauses := s.pauses ++ [ms] }

def close (s : Session) : Session := { s with link := .closed }

end Session

/-- Sends a statement and gives the rows of its answer and how many rows it changed. -/
def send (statement : Statement) : Access Session (List Row × Nat) := fun s =>
  match Session.outage? s.link with
  | some failure => (.error (.ofDatabase failure), s)
  | none =>
    let (answer, s) := (s.record statement).next statement
    match answer with
    | .rows rows affected => (.ok (rows, affected.getD rows.length), s)
    | .refused state message => (.error (.ofDatabase (.server state message)), s)
    | .lost => (.error (.ofDatabase .lost), s)
    | .failed failure => (.error (.ofDatabase failure), s)

/-- Whether a fault leaves a connection on which a transaction is still open. -/
def leavesOpen (fault : Fault) : Bool :=
  match fault.cause with
  | some (.database failure) => !failure.isOutage
  | _ => true

/-- Runs statements as a transaction: all of them take effect or none. -/
def transaction {α : Type} (body : Access Session α) : Access Session α := fun s =>
  match send .begin s with
  | (.error fault, s) => (.error fault, s)
  | (.ok _, s) =>
    match (body >>= fun a => send .commit >>= fun _ => pure a) s with
    | (.ok a, s) => (.ok a, s)
    | (.error fault, s) =>
      (.error fault, if leavesOpen fault then s.record .rollback else s)

/-- Tries again after each pause as long as the fault is a conflict. -/
def retry {σ α : Type} (pause : Nat → σ → σ) (x : Access σ α) : List Nat → Access σ α
  | [] => x
  | ms :: more => fun s =>
    match x s with
    | (.ok a, s) => (.ok a, s)
    | (.error fault, s) =>
      if fault.isConflict then retry pause x more (pause ms s) else (.error fault, s)

/-- The pauses in milliseconds between the attempts of a transaction, three in all. -/
def retryPauses : List Nat := [20, 40]

def retried {α : Type} (body : Access Session α) : Access Session α :=
  retry Session.pause (transaction body) retryPauses

end Tidings.Database
