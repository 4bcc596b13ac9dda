import Tidings.Database.Session
/-!
The table of notifications: each operation on it as the statements that it takes.
-/
namespace Tidings.Database

def execute (statement : Statement) : Access Session Unit := do
  let _ ← send statement
  pure ()

def fetchRow (statement : Statement) : Access Session (Option Row) := do
  let (rows, _) ← send statement
  pure rows.head?

/-- Deletes the holder of a group and gives its identifier, which is the only column of the answer. -/
def deleteHolder (a : Address) (group : String) (mode : Option Mode) :
    Access Session (Option Id) := do
  let row ← fetchRow (.deleteHolder a group mode)
  match row with
  | none => pure none
  | some row => (Access.ofExcept (Row.idOf "0" (row.cell "id"))) >>= fun id => pure (some id)

/-- The statements that store a notification. -/
def insertBody (a : Address) (n : Notification) : Access Session (Option Id) := do
  let replaced ← match n.group with
    | some group => do
      execute (.lockGroup a group)
      deleteHolder a group none
    | none => pure none
  execute (.insert a n)
  pure replaced

def store (n : Notification) : Access Session (Option Id) :=
  match n.target with
  | none => pure none
  | some a => if n.mode.isPersisted then retried (insertBody a n) else pure none

def remove (id : Id) : Access Session (Option Address) := do
  let row ← fetchRow (.delete id)
  match row with
  | none => pure none
  | some row => Access.ofExcept (row.address.map some)

def removeGroup (a : Address) (group : String) : Access Session (Option Id) :=
  retried do
    execute (.lockGroup a group)
    deleteHolder a group (some .queued)

def get (id : Id) : Access Session (Option Notification) := do
  let row ← fetchRow (.select id)
  match row with
  | none => pure none
  | some row => Access.ofExcept (row.notification.map some)

/-- The mode of a notification, which is the only column of the answer. -/
def mode (id : Id) : Access Session (Option Mode) := do
  let row ← fetchRow (.selectMode id)
  match row with
  | none => pure none
  | some row =>
    match row.cell "mode" with
    | .text name => Access.ofExcept ((Row.modeOf name).map some)
    | .null => Access.fail (Row.unexpectedNull "0")
    | _ => Access.fail (Row.mismatch "0")

def fetchAll (statement : Statement) : Access Session (List Notification) := do
  let (rows, _) ← send statement
  Access.ofExcept (rows.mapM Row.notification)

def queued (a : Address) : Access Session (List Notification) := fetchAll (.selectQueued a)

def since (a : Address) (t : Instant) : Access Session (List Notification) :=
  fetchAll (.selectSince a t)

def purge (queuedBefore timeseriesBefore : Instant) : Access Session Nat := do
  let (_, affected) ← send (.deleteExpired queuedBefore timeseriesBefore)
  pure affected

/-- Makes the table and its indexes, one process at a time. -/
def createSchema : Access Session Unit :=
  transaction do
    execute .lockSchema
    execute .createTable
    execute .createScopeIndex
    execute .dropGroupIndex
    execute .createGroupIndex
    execute .createExpiryIndex

end Tidings.Database
