import Tidings.Json.Shape
import Tidings.Settings
/-!
The JSON forms of settings, classes of faults and answers to clients.
-/
namespace Tidings

open Json

def BackendKind.toJson (k : BackendKind) : Value := .str k.name

def BackendKind.shape : Shape BackendKind := Shape.name BackendKind.ofName?

def FaultClass.toJson (c : FaultClass) : Value := .str c.code

def FaultClass.shape : Shape FaultClass := Shape.name FaultClass.ofCode?

structure FaultBody where
  error : String
deriving DecidableEq, Repr

def FaultBody.toJson (b : FaultBody) : Value := .obj [("error", .str b.error)]

def FaultBody.shape : Shape FaultBody := fun p t => do
  let fields ← Shape.fields ["error"] p t
  let [error] := fields | none
  (required Shape.text p.inner error).map FaultBody.mk

def Json.Shape.word64 : Shape Nat := Shape.word (Nat.pow 2 64 - 1)

def Json.Shape.word32 : Shape Nat := Shape.word (Nat.pow 2 32 - 1)

def BrokerSettings.toJson (s : BrokerSettings) : Value :=
  .obj [("connection_timeout_secs", .nat s.connectionTimeoutSecs),
    ("response_timeout_secs", .nat s.responseTimeoutSecs),
    ("reconnection_retries", .nat s.reconnectionRetries),
    ("retry_exponent_base", .nat s.retryExponentBase),
    ("max_retry_delay_ms", .nat s.maxRetryDelayMs),
    ("initial_connection_retries", .nat s.initialConnectionRetries),
    ("initial_retry_delay_ms", .nat s.initialRetryDelayMs)]

def BrokerSettings.shape : Shape BrokerSettings := fun p t => do
  let fields ← Shape.fields ["connection_timeout_secs", "response_timeout_secs",
    "reconnection_retries", "retry_exponent_base", "max_retry_delay_ms",
    "initial_connection_retries", "initial_retry_delay_ms"] p t
  let [connection, response, reconnection, base, greatest, initial, delay] := fields | none
  some {
    connectionTimeoutSecs := ← required Shape.word64 p.inner connection
    responseTimeoutSecs := ← required Shape.word64 p.inner response
    reconnectionRetries := ← required Shape.word64 p.inner reconnection
    retryExponentBase := ← required Shape.word64 p.inner base
    maxRetryDelayMs := ← required Shape.word64 p.inner greatest
    initialConnectionRetries := ← required Shape.word32 p.inner initial
    initialRetryDelayMs := ← required Shape.word64 p.inner delay }

def Settings.toJson (s : Settings) : Value :=
  .obj [("backend", s.backend.toJson), ("redis_url", Value.ofOption .str s.redisUrl),
    ("redis_prefix", .str s.redisPrefix), ("redis_connection", s.broker.toJson),
    ("queue_capacity", .nat s.queueCapacity), ("keepalive_secs", .nat s.keepaliveSecs),
    ("cleanup_interval_secs", .nat s.cleanupIntervalSecs),
    ("queued_ttl_secs", .nat s.queuedTtlSecs), ("timeseries_ttl_secs", .nat s.timeseriesTtlSecs),
    ("timeseries_display_secs", .nat s.timeseriesDisplaySecs),
    ("recent_ephemeral_capacity", .nat s.recentCapacity),
    ("listen_max_backoff_ms", .nat s.listenMaxBackoffMs)]

def Settings.shape : Shape Settings := fun p t => do
  let fields ← Shape.fields ["backend", "redis_url", "redis_prefix", "redis_connection",
    "queue_capacity", "keepalive_secs", "cleanup_interval_secs", "queued_ttl_secs",
    "timeseries_ttl_secs", "timeseries_display_secs", "recent_ephemeral_capacity",
    "listen_max_backoff_ms"] p t
  let [backend, url, first, broker, queue, keepalive, cleanup, queued, timeseries, display, recent,
    listen] := fields | none
  some {
    backend := ← required BackendKind.shape p.inner backend
    redisUrl := ← optional Shape.text p.inner url
    redisPrefix := ← required Shape.text p.inner first
    broker := ← required BrokerSettings.shape p.inner broker
    queueCapacity := ← required Shape.word64 p.inner queue
    keepaliveSecs := ← required Shape.word64 p.inner keepalive
    cleanupIntervalSecs := ← required Shape.word64 p.inner cleanup
    queuedTtlSecs := ← required Shape.word64 p.inner queued
    timeseriesTtlSecs := ← required Shape.word64 p.inner timeseries
    timeseriesDisplaySecs := ← required Shape.word64 p.inner display
    recentCapacity := ← required Shape.word64 p.inner recent
    listenMaxBackoffMs := ← required Shape.word64 p.inner listen }

end Tidings
