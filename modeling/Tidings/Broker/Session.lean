import Tidings.Backend
/-!
A session with the message broker. As with the database, what the broker will answer is laid down as a
script, and the commands sent are kept.
-/
namespace Tidings.Broker

inductive Command where
  | publish (channel payload : String)
  | ping
deriving DecidableEq, Repr

def Command.words : Command → List String
  | .publish channel payload => ["PUBLISH", channel, payload]
  | .ping => ["PING"]

/-- Answers to come, an error line or success, and the commands sent so far. -/
structure Session where
  replies : List (Option String)
  sent : List Command
deriving Repr

def Session.new : Session := ⟨[], []⟩

/-- Sends a command; without an answer in the script it succeeds. -/
def send (command : Command) : Access Session Unit := fun s =>
  let s := { s with sent := s.sent ++ [command] }
  match s.replies with
  | [] => (.ok (), s)
  | reply :: rest =>
    let s := { s with replies := rest }
    match reply with
    | none => (.ok (), s)
    | some line => (.error (.ofBroker (.ofLine line)), s)

end Tidings.Broker
