import Tidings.Event
import Tidings.Json.Value
/-!
The body that a client receives for an event. The payload is spread over the body, and the members
that describe the notification itself take the place of payload members of the same name.
-/
namespace Tidings

/-- The kind that tells a client to take a notification back. No notification may have it. -/
def dismissedKind : String := "dismissed"

/-- Seconds since 1970 as a double: the microseconds are divided first, then added. -/
def Instant.toReal (t : Instant) : Json.Number :=
  match (Binary64.ofRatio? false (t.nanos / 1000) 1000000).bind (Binary64.addWhole? t.seconds) with
  | some x => .real x
  | none => .int t.seconds

/-- The body for a new notification. Clients show one of a time series for `displaySeconds`. -/
def Notification.wire (displaySeconds : Nat) (n : Notification) : Json.Members :=
  let body := n.payload
    |>.insert "type" (.str n.kind)
    |>.insert "id" (.str n.id.text)
    |>.insert "mode" (.str n.mode.name)
    |>.insert "group" (Json.Value.ofOption .str n.group)
    |>.insert "dismissible" (.bool (n.mode.isDismissible && !n.isBroadcast))
    |>.insert "created_at" (.num n.createdAt.toReal)
  if n.mode = .timeseries then body.insert "expires_in" (.nat displaySeconds) else body

def Event.wire (displaySeconds : Nat) : Event → Json.Members
  | .notify n => n.wire displaySeconds
  | .dismissed id _ => Json.Members.ofList [("type", .str dismissedKind), ("id", .str id.text)]

end Tidings
