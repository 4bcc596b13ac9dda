import Tidings.Address
import Tidings.Id
import Tidings.Instant
import Tidings.Json.Value
import Tidings.Mode
/-!
Notifications. A notification never changes; one that takes the place of another has a new identifier.
-/
namespace Tidings

/-- A typed message with a free payload. Without a target it goes to everyone. In one target there is
at most one stored notification of a group. -/
structure Notification where
  id : Id
  kind : String
  target : Option Address
  group : Option String
  mode : Mode
  payload : Json.Members
  createdAt : Instant
deriving BEq, Repr

namespace Notification

/-- A notification that is created now. The time is cut to what a table row can hold. -/
def create (id : Id) (now : Instant) (target : Option Address) (kind : String) (mode : Mode)
    (group : Option String) (payload : Json.Members) : Notification :=
  ⟨id, kind, target, group, mode, payload, now.toMicrosecond⟩

def isBroadcast (n : Notification) : Bool := n.target.isNone

/-- Whether the notification is kept in a store: it has a target and a mode that is stored. -/
def isStored (n : Notification) : Bool := n.target.isSome && n.mode.isPersisted

end Notification

end Tidings
