import Tidings.Backoff
import Tidings.Fault
import Tidings.Text.Blank
import Tidings.Text.Casing
/-!
Settings of the service and of its server, with their defaults.
-/
namespace Tidings

/-- Where notifications are kept and how events reach other instances: in memory and not at all, in
database rows and through a broker, or in database rows and through the database's own channel. -/
inductive BackendKind where
  | memory
  | redis
  | postgres
deriving DecidableEq, Repr

namespace BackendKind

/-- Rows outlive the process, and old ones are swept out. -/
def isDurable : BackendKind → Bool
  | .memory => false
  | _ => true

def name : BackendKind → String
  | .memory => "memory"
  | .redis => "redis"
  | .postgres => "postgres"

def ofName? (s : String) : Option BackendKind :=
  if s = "memory" then some .memory
  else if s = "redis" then some .redis
  else if s = "postgres" then some .postgres
  else none

def info : BackendKind → String
  | .memory => "In-memory (single instance)"
  | .redis => "PostgreSQL rows + Redis pub/sub"
  | .postgres => "PostgreSQL rows + LISTEN/NOTIFY"

/-- Reads the kind that a setting names, in any case; nothing means memory. -/
def ofSetting (text : String) : Except Fault BackendKind :=
  let name := Text.lower (Text.trim text)
  if name = "" ∨ name = "memory" then .ok .memory
  else if name = "redis" then .ok .redis
  else if name = "postgres" ∨ name = "postgresql" then .ok .postgres
  else .error (.config ("unknown NOTIFICATION_BACKEND '" ++ name ++
    "' (expected memory, redis or postgres)"))

end BackendKind

namespace Defaults

/-- A day. -/
def queuedTtlSecs : Nat := 86400

/-- A week. -/
def timeseriesTtlSecs : Nat := 604800

def timeseriesDisplaySecs : Nat := 8

def cleanupIntervalSecs : Nat := 600

def keepaliveSecs : Nat := 30

def queueCapacity : Nat := 256

/-- How many messages of other instances may wait for a dispatcher. -/
def remoteCapacity : Nat := 1024

def recentCapacity : Nat := 1024

def listenInitialBackoffMs : Nat := 250

def listenMaxBackoffMs : Nat := 30000

/-- The database channel that events are published on. -/
def notifyChannel : String := "pulse_notifications"

/-- The database refuses longer messages on a channel. -/
def notifyMaxBytes : Nat := 7999

def brokerPrefix : String := "pulse:"

def brokerSuffix : String := "notifications"

def serviceName : String := "pulse-notify-server"

def httpPort : Nat := 8081

def bindHost : String := "0.0.0.0"

def databaseMaxConnections : Nat := 10

end Defaults

structure BrokerSettings where
  connectionTimeoutSecs : Nat := 5
  responseTimeoutSecs : Nat := 3
  reconnectionRetries : Nat := 6
  retryExponentBase : Nat := 2
  maxRetryDelayMs : Nat := 10000
  initialConnectionRetries : Nat := 3
  initialRetryDelayMs : Nat := 500
deriving DecidableEq, Repr

/-- The delay before a retry, the first one being retry 0: it grows by a power of the base. Where the power
or the product passes the greatest word, it counts as that. -/
def BrokerSettings.retryDelayMs (s : BrokerSettings) (retry : Nat) : Nat :=
  let greatest := Nat.pow 2 64 - 1
  min (min greatest (s.initialRetryDelayMs * cappedPower greatest s.retryExponentBase retry))
    s.maxRetryDelayMs

structure Settings where
  backend : BackendKind := .memory
  redisUrl : Option String := none
  redisPrefix : String := Defaults.brokerPrefix
  broker : BrokerSettings := {}
  queueCapacity : Nat := Defaults.queueCapacity
  keepaliveSecs : Nat := Defaults.keepaliveSecs
  cleanupIntervalSecs : Nat := Defaults.cleanupIntervalSecs
  queuedTtlSecs : Nat := Defaults.queuedTtlSecs
  timeseriesTtlSecs : Nat := Defaults.timeseriesTtlSecs
  timeseriesDisplaySecs : Nat := Defaults.timeseriesDisplaySecs
  recentCapacity : Nat := Defaults.recentCapacity
  listenMaxBackoffMs : Nat := Defaults.listenMaxBackoffMs
deriving DecidableEq, Repr

/-- The broker channel that events are published on. -/
def Settings.channel (s : Settings) : String := s.redisPrefix ++ Defaults.brokerSuffix

structure ServerSettings where
  httpPort : Nat := Defaults.httpPort
  databaseUrl : Option String := none
  databaseMaxConnections : Nat := Defaults.databaseMaxConnections
  notifications : Settings := {}
deriving DecidableEq, Repr

/-- Why server settings cannot be used. -/
inductive SettingsError where
  | unusable (fault : Fault)
  | databaseMissing (backend : BackendKind)
  | brokerMissing
deriving DecidableEq, Repr

def SettingsError.message : SettingsError → String
  | .unusable fault => fault.display
  | .databaseMissing backend => "NOTIFICATION_BACKEND=" ++ backend.name ++ " requires DATABASE_URL"
  | .brokerMissing => "NOTIFICATION_BACKEND=redis requires NOTIFICATION_REDIS_URL or REDIS_URL"

namespace ServerSettings

/-- What stands in the way of the chosen backend. -/
def problem? (s : ServerSettings) : Option SettingsError :=
  if s.notifications.backend.isDurable ∧ s.databaseUrl.isNone then
    some (.databaseMissing s.notifications.backend)
  else if s.notifications.backend = .redis ∧ s.notifications.redisUrl.isNone then
    some .brokerMissing
  else none

def configured (url : Option String) : String :=
  if url.isSome then "Configured" else "Not configured"

/-- The settings in a few lines, without addresses. -/
def summary (s : ServerSettings) : String :=
  "Pulse Notification Server Configuration:\n- HTTP Port: " ++ toString s.httpPort ++
    "\n- Backend: " ++ s.notifications.backend.name ++
    "\n- Database: " ++ configured s.databaseUrl ++
    "\n- Redis: " ++ configured s.notifications.redisUrl ++
    "\n- Queue Capacity: " ++ toString s.notifications.queueCapacity ++
    "\n- Cleanup Interval: " ++ toString s.notifications.cleanupIntervalSecs ++ "s"

end ServerSettings

end Tidings
