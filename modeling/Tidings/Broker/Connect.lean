import Tidings.Broker.Failure
import Tidings.Settings
/-!
The first connection to the broker. A refused attempt is made again after a delay, a limited number of
times.
-/
namespace Tidings.Broker

/-- The fault of a connection given up after so many attempts. -/
def gaveUp (attempts : Nat) (failure : Failure) : Fault :=
  (Fault.unavailable "redis" ("failed to connect after " ++ toString attempts ++ " attempts: " ++
    failure.text)).withCause (.broker failure)

/-- Something done for a connection. -/
inductive Doing where
  | attempt
  | note (text : String)
  | wait (ms : Nat)
deriving DecidableEq, Repr

/-- What is noted of a refused attempt, with its number from 1 on and that of all attempts. -/
def refusal (number total ms : Nat) (failure : Failure) : String :=
  "Redis connection attempt " ++ toString number ++ "/" ++ toString total ++ " failed, retrying in " ++
    toString ms ++ "ms: " ++ failure.text

def established (retries : Nat) : String :=
  "Redis connection established after " ++ toString retries ++ " retries"

/-- Connects, from attempt `k` on, and tells what is done for it. `outcome k` says what comes of attempt
`k`, the first one being 0. Attempts are counted in words of 32 bits. -/
def connectFrom {σ : Type} (settings : BrokerSettings) (outcome : Nat → Option Failure)
    (tell : Doing → σ → σ) (k : UInt32) (s : σ) : Except Fault Unit × σ :=
  let retries : UInt32 := .ofNat settings.initialConnectionRetries
  let s := tell .attempt s
  match outcome k.toNat with
  | none => (.ok (), if 0 < k then tell (.note (established k.toNat)) s else s)
  | some failure =>
    if k < retries then
      let ms := settings.retryDelayMs k.toNat
      let s := tell (.note (refusal (k + 1).toNat (retries + 1).toNat ms failure)) s
      connectFrom settings outcome tell (k + 1) (tell (.wait ms) s)
    else (.error (gaveUp (retries + 1).toNat failure), s)
termination_by (UInt32.ofNat settings.initialConnectionRetries).toNat - k.toNat
decreasing_by
  have hlt : k.toNat < retries.toNat := UInt32.lt_iff_toNat_lt.1 ‹_›
  have hretries : retries.toNat < 2 ^ 32 := retries.toNat_lt
  rw [UInt32.toNat_add, UInt32.toNat_one, Nat.mod_eq_of_lt (by omega)]
  show retries.toNat - (k.toNat + 1) < retries.toNat - k.toNat
  omega

def connect {σ : Type} (settings : BrokerSettings) (outcome : Nat → Option Failure)
    (tell : Doing → σ → σ) (s : σ) : Except Fault Unit × σ :=
  connectFrom settings outcome tell 0 s

/-- What an address of a broker leads to. -/
inductive Endpoint where
  /-- A socket of this machine. -/
  | socket (path : String)
  | host (name : String)
deriving DecidableEq, Repr

def splitScheme (url : String) : Option (String × List Char) :=
  let (scheme, rest) := url.toList.span (· ≠ ':')
  match rest with
  | ':' :: rest => some (Text.lowerAscii (String.ofList scheme), rest)
  | _ => none

/-- The host in what follows a scheme: after the slashes and the user, up to a colon or the path. -/
def hostOf (rest : List Char) : String :=
  let rest := rest.dropWhile (· = '/')
  let authority := rest.takeWhile fun c => c ≠ '/' && c ≠ '?' && c ≠ '#'
  let host := (authority.reverse.takeWhile (· ≠ '@')).reverse
  String.ofList (host.takeWhile (· ≠ ':'))

def Endpoint.ofUrl? (url : String) : Except Failure Endpoint :=
  match splitScheme url with
  | none => .error (.known "InvalidClientConfig" "Redis URL did not parse" none)
  | some (scheme, rest) =>
    if scheme = "unix" ∨ scheme = "redis+unix" then
      .ok (.socket (String.ofList (rest.dropWhile (· = '/'))))
    else if scheme = "redis" ∨ scheme = "rediss" then
      if hostOf rest = "" then .error (.known "InvalidClientConfig" "Missing hostname" none)
      else .ok (.host (hostOf rest))
    else .error (.known "InvalidClientConfig" "Redis URL did not parse" none)

/-- The fault of settings that name no broker, or name it wrongly. -/
def endpoint (settings : Settings) : Except Fault Endpoint :=
  match settings.redisUrl with
  | none => .error (.config "Redis URL is required for the redis notification backend")
  | some url => (Endpoint.ofUrl? url).mapError fun failure =>
      .config ("Invalid Redis URL: " ++ failure.text)

/-- What becomes of an attempt to use a socket that does not exist. -/
def noSuchFile : Failure := .transport .refused "No such file or directory (os error 2)"

end Tidings.Broker
