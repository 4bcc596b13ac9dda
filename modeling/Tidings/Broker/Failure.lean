/-!
What can go wrong between the service and its message broker.
-/
namespace Tidings.Broker

/-- How the system's refusal to send or receive is classed. -/
inductive Outage where
  | dropped
  | refused
  | timedOut
  | unclassed
deriving DecidableEq, Repr

inductive Failure where
  /-- An error of a known kind, with a fixed description and perhaps a detail. -/
  | known (kind : String) (description : String) (detail : Option String)
  /-- An error line of the broker whose code is not known. -/
  | foreign (code : String) (detail : String)
  | transport (outage : Outage) (text : String)
deriving DecidableEq, Repr

namespace Failure

def text : Failure → String
  | .known kind description none => description ++ "- " ++ kind
  | .known kind description (some detail) => description ++ " - " ++ kind ++ ": " ++ detail
  | .foreign code detail => code ++ ": " ++ detail
  | .transport _ text => text

def isOutage : Failure → Bool
  | .transport .unclassed _ => false
  | .transport _ _ => true
  | _ => false

/-- The codes of the broker's error lines, and the kinds that they stand for. -/
def knownCodes : List (String × String) := [
  ("ERR", "ResponseError"), ("EXECABORT", "ExecAbortError"), ("LOADING", "BusyLoadingError"),
  ("NOSCRIPT", "NoScriptError"), ("MOVED", "Moved"), ("ASK", "Ask"), ("TRYAGAIN", "TryAgain"),
  ("CLUSTERDOWN", "ClusterDown"), ("CROSSSLOT", "CrossSlot"), ("MASTERDOWN", "MasterDown"),
  ("READONLY", "ReadOnly"), ("NOTBUSY", "NotBusy")]

/-- Reads an error line: a code, and after a space the detail. -/
def ofLine (line : String) : Failure :=
  let (code, rest) := line.toList.span (· ≠ ' ')
  let code := String.ofList code
  let detail := match rest with
    | [] => none
    | _ :: detail => some (String.ofList detail)
  match knownCodes.lookup code with
  | some kind => .known kind "An error was signalled by the server" detail
  | none => .foreign code (detail.getD "Unknown extension error encountered")

end Failure

end Tidings.Broker
