import Tidings.Notification
/-!
Events. Connected clients hear of a notification when it is made, and again when it is taken back.
-/
namespace Tidings

inductive Event where
  | notify (n : Notification)
  | dismissed (id : Id) (target : Option Address)
deriving BEq, Repr

namespace Event

def id : Event → Id
  | .notify n => n.id
  | .dismissed id _ => id

/-- To whom the event goes; to everyone when there is no target. -/
def target : Event → Option Address
  | .notify n => n.target
  | .dismissed _ target => target

end Event

/-- An event on its way to the other instances, with the instance that it comes from. -/
structure Message where
  origin : Id
  event : Event
deriving BEq, Repr

end Tidings
