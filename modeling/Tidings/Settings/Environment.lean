import Tidings.Settings
import Tidings.Text.Digits
import Tidings.Text.Utf8
/-!
Settings from environment variables. A number that cannot be read counts as absent, and so does a
variable whose bytes are no text.
-/
namespace Tidings

structure Environment where
  bindings : List (String × List UInt8)
deriving Repr

namespace Environment

def text? (env : Environment) (name : String) : Option String :=
  (env.bindings.lookup name).bind Text.ofUtf8?

def filled? (env : Environment) (name : String) : Option String :=
  (env.text? name).filter (· ≠ "")

/-- A number of so many bits, or the default. -/
def number (env : Environment) (bits : Nat) (name : String) (default : Nat) : Nat :=
  ((env.text? name).bind fun s => Text.bounded? (Nat.pow 2 bits - 1) s.toList).getD default

end Environment

def BrokerSettings.ofEnvironment (env : Environment) : BrokerSettings :=
  let d : BrokerSettings := {}
  { connectionTimeoutSecs := env.number 64 "REDIS_CONNECTION_TIMEOUT_SECS" d.connectionTimeoutSecs
    responseTimeoutSecs := env.number 64 "REDIS_RESPONSE_TIMEOUT_SECS" d.responseTimeoutSecs
    reconnectionRetries := env.number 64 "REDIS_RECONNECTION_RETRIES" d.reconnectionRetries
    retryExponentBase := env.number 64 "REDIS_RETRY_EXPONENT_BASE" d.retryExponentBase
    maxRetryDelayMs := env.number 64 "REDIS_MAX_RETRY_DELAY_MS" d.maxRetryDelayMs
    initialConnectionRetries :=
      env.number 32 "REDIS_INITIAL_CONNECTION_RETRIES" d.initialConnectionRetries
    initialRetryDelayMs := env.number 64 "REDIS_INITIAL_RETRY_DELAY_MS" d.initialRetryDelayMs }

/-- The broker's address: the variable of this service, and only when that is absent the shared one.
Neither may be empty. -/
def redisUrlOf (env : Environment) : Option String :=
  ((env.text? "NOTIFICATION_REDIS_URL") <|> (env.text? "REDIS_URL")).filter (· ≠ "")

def Settings.ofEnvironment (env : Environment) : Except Fault Settings := do
  let backend ← BackendKind.ofSetting ((env.text? "NOTIFICATION_BACKEND").getD "")
  let d : Settings := {}
  let least (n : Nat) : Nat := max 1 n
  return {
    backend
    redisUrl := redisUrlOf env
    redisPrefix := (env.text? "NOTIFICATION_REDIS_PREFIX").getD d.redisPrefix
    broker := BrokerSettings.ofEnvironment env
    queueCapacity := least (env.number 64 "NOTIFICATION_QUEUE_CAPACITY" d.queueCapacity)
    keepaliveSecs := least (env.number 64 "NOTIFICATION_KEEPALIVE_SECS" d.keepaliveSecs)
    cleanupIntervalSecs :=
      least (env.number 64 "NOTIFICATION_CLEANUP_INTERVAL_SECS" d.cleanupIntervalSecs)
    queuedTtlSecs := env.number 64 "NOTIFICATION_QUEUED_TTL_SECS" d.queuedTtlSecs
    timeseriesTtlSecs := env.number 64 "NOTIFICATION_TIMESERIES_TTL_SECS" d.timeseriesTtlSecs
    timeseriesDisplaySecs :=
      env.number 64 "NOTIFICATION_TIMESERIES_DISPLAY_SECS" d.timeseriesDisplaySecs
    recentCapacity := least (env.number 64 "NOTIFICATION_RECENT_EPHEMERAL_CAPACITY" d.recentCapacity)
    listenMaxBackoffMs := env.number 64 "NOTIFICATION_LISTEN_MAX_BACKOFF_MS" d.listenMaxBackoffMs }

def ServerSettings.ofEnvironment (env : Environment) : Except SettingsError ServerSettings := do
  let notifications ← (Settings.ofEnvironment env).mapError .unusable
  let settings : ServerSettings :=
    { httpPort := env.number 16 "HTTP_PORT" Defaults.httpPort
      databaseUrl := env.filled? "DATABASE_URL"
      databaseMaxConnections :=
        env.number 32 "DATABASE_MAX_CONNECTIONS" Defaults.databaseMaxConnections
      notifications }
  match settings.problem? with
  | some problem => throw problem
  | none => return settings

end Tidings
