/-!
What can go wrong between the service and its database, apart from what the rows say.
-/
namespace Tidings.Database

inductive Failure where
  /-- No row where one was needed. -/
  | noRow
  /-- No connection became free in time. -/
  | poolTimedOut
  | poolClosed
  /-- The connection failed or was lost. -/
  | connection (text : String)
  /-- The server refused a statement; `state` is its five-letter code, if it gave one. -/
  | server (state : Option String) (text : String)
  | protocol (text : String)
  | configuration (text : String)
  | columnNotFound (name : String)
  /-- A column holds what it must not hold. -/
  | column (name : String) (text : String)
  | workerCrashed
deriving DecidableEq, Repr

namespace Failure

def text : Failure → String
  | .noRow => "no rows returned by a query that expected to return at least one row"
  | .poolTimedOut => "pool timed out while waiting for an open connection"
  | .poolClosed => "attempted to acquire a connection on a closed pool"
  | .connection text => "error communicating with database: " ++ text
  | .server _ text => "error returned from database: " ++ text
  | .protocol text => "encountered unexpected or invalid data: " ++ text
  | .configuration text => "error with configuration: " ++ text
  | .columnNotFound name => "no column found for name: " ++ name
  | .column name text => "error occurred while decoding column " ++ name ++ ": " ++ text
  | .workerCrashed => "attempted to communicate with a crashed background worker"

/-- Whether there is no working connection, so that nothing can be said about the statement. -/
def isOutage : Failure → Bool
  | .poolTimedOut | .poolClosed | .connection _ => true
  | _ => false

/-- Whether the statement lost against another transaction and may well succeed when tried again. -/
def isConflict : Failure → Bool
  | .server (some state) _ => state == "40001" || state == "40P01"
  | _ => false

/-- The server's end of the connection went away. -/
def lost : Failure :=
  .connection "expected to read 5 bytes, got 0 bytes at EOF"

end Failure

end Tidings.Database
