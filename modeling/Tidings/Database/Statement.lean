import Tidings.Database.Row
/-!
The statements that the service sends to its database, with their texts and parameters.
-/
namespace Tidings.Database

inductive Statement where
  | begin
  | commit
  | rollback
  | lockSchema
  | createTable
  | createScopeIndex
  | dropGroupIndex
  | createGroupIndex
  | createExpiryIndex
  /-- Holds off other writers of a group until the transaction ends. -/
  | lockGroup (a : Address) (group : String)
  /-- Deletes the holder of a group, of any mode or of one. -/
  | deleteHolder (a : Address) (group : String) (mode : Option Mode)
  | insert (a : Address) (n : Notification)
  | delete (id : Id)
  | select (id : Id)
  | selectMode (id : Id)
  | selectQueued (a : Address)
  | selectSince (a : Address) (t : Instant)
  | deleteExpired (queuedBefore timeseriesBefore : Instant)
  | ping
  | notify (channel payload : String)
deriving BEq, Repr

namespace Statement

/-- The columns that a notification is read from. -/
def columns : String := "id, kind, scope, scope_id, group_key, mode, payload, created_at"

/-- The columns that an insertion gives values to, in the order of its parameters. -/
def insertColumns : List String :=
  ["id", "kind", "scope", "scope_id", "group_key", "mode", "payload", "created_at"]

def text : Statement → String
  | .begin => "BEGIN"
  | .commit => "COMMIT"
  | .rollback => "ROLLBACK"
  | .lockSchema => "SELECT pg_advisory_xact_lock(hashtext('pulse_notifications_migrate'))"
  | .createTable => "CREATE TABLE IF NOT EXISTS pulse_notifications ( id UUID PRIMARY KEY, " ++
      "kind TEXT NOT NULL, scope TEXT NOT NULL CHECK (scope IN ('session', 'user')), " ++
      "scope_id TEXT NOT NULL, group_key TEXT, " ++
      "mode TEXT NOT NULL CHECK (mode IN ('queued', 'timeseries')), " ++
      "payload JSONB NOT NULL DEFAULT '\x7b\x7d'::jsonb, created_at TIMESTAMPTZ NOT NULL, " ++
      "notified_at TIMESTAMPTZ NOT NULL DEFAULT CURRENT_TIMESTAMP )"
  | .createScopeIndex => "CREATE INDEX IF NOT EXISTS idx_pulse_notifications_scope " ++
      "ON pulse_notifications (scope, scope_id, mode, created_at)"
  | .dropGroupIndex => "DROP INDEX IF EXISTS idx_pulse_notifications_group"
  | .createGroupIndex => "CREATE UNIQUE INDEX IF NOT EXISTS idx_pulse_notifications_group_key " ++
      "ON pulse_notifications (scope, scope_id, group_key) WHERE group_key IS NOT NULL"
  | .createExpiryIndex => "CREATE INDEX IF NOT EXISTS idx_pulse_notifications_expiry " ++
      "ON pulse_notifications (mode, notified_at)"
  | .lockGroup _ _ => "SELECT pg_advisory_xact_lock(hashtext($1))"
  | .deleteHolder _ _ _ => "DELETE FROM pulse_notifications WHERE scope = $1 AND scope_id = $2 " ++
      "AND group_key = $3 AND ($4::TEXT IS NULL OR mode = $4) RETURNING id"
  | .insert _ _ => "INSERT INTO pulse_notifications (" ++ columns ++ ", notified_at) " ++
      "VALUES ($1, $2, $3, $4, $5, $6, $7, $8, CURRENT_TIMESTAMP)"
  | .delete _ => "DELETE FROM pulse_notifications WHERE id = $1 RETURNING scope, scope_id"
  | .select _ => "SELECT " ++ columns ++ " FROM pulse_notifications WHERE id = $1"
  | .selectMode _ => "SELECT mode FROM pulse_notifications WHERE id = $1"
  | .selectQueued _ => "SELECT " ++ columns ++ " FROM pulse_notifications WHERE scope = $1 " ++
      "AND scope_id = $2 AND mode = 'queued' ORDER BY created_at ASC, notified_at ASC"
  | .selectSince _ _ => "SELECT " ++ columns ++ " FROM pulse_notifications WHERE scope = $1 " ++
      "AND scope_id = $2 AND mode = 'timeseries' AND created_at > $3 " ++
      "ORDER BY created_at ASC, notified_at ASC"
  | .deleteExpired _ _ => "DELETE FROM pulse_notifications " ++
      "WHERE (mode = 'queued' AND notified_at < $1) OR (mode = 'timeseries' AND notified_at < $2)"
  | .ping => "SELECT 1"
  | .notify _ _ => "SELECT pg_notify($1, $2)"

def cellOf : Option String → Cell
  | some s => .text s
  | none => .null

def timeOf (t : Instant) : Cell := .time (microsOf t)

/-- The parameters; statements that frame a transaction have none. -/
def params : Statement → List Cell
  | .lockGroup a group => [.text (a.text ++ ":" ++ group)]
  | .deleteHolder a group mode =>
    [.text a.scope.name, .text a.owner, .text group, cellOf (mode.map Mode.name)]
  | .insert a n => [.id n.id, .text n.kind, .text a.scope.name, .text a.owner, cellOf n.group,
      .text n.mode.name, .json (Json.Value.obj n.payload).text, timeOf n.createdAt]
  | .delete id => [.id id]
  | .select id => [.id id]
  | .selectMode id => [.id id]
  | .selectQueued a => [.text a.scope.name, .text a.owner]
  | .selectSince a t => [.text a.scope.name, .text a.owner, timeOf t]
  | .deleteExpired q t => [timeOf q, timeOf t]
  | .notify channel payload => [.text channel, .text payload]
  | _ => []

/-- Whether the statement begins or ends a transaction. -/
def isFrame : Statement → Bool
  | .begin | .commit | .rollback => true
  | _ => false

/-- The row that an insertion makes, apart from the time of storing. -/
def insertedRow (a : Address) (n : Notification) : Row :=
  insertColumns.zip (params (.insert a n))

end Statement

end Tidings.Database
