import Tidings.Backend
import Tidings.Event.Wire
import Tidings.Recent
import Tidings.Registry
/-!
The notification service. A notification is checked, shown to a hook, stored if it is to be kept, put
into the queues of the clients connected here, and published for the other instances.

Each operation takes the state before and gives its result with the state after; the time and the
identifier of a new notification are arguments.
-/
namespace Tidings

/-- What the hook in front of sending says: it may allow or suppress a notification, or break down. -/
inductive Verdict where
  | allow
  | suppress
  | failed
  | crashed
deriving DecidableEq, Repr

/-- Asked before a notification is sent. -/
structure Hooks where
  beforeSend : Notification → Verdict

def Hooks.none : Hooks := ⟨fun _ => .allow⟩

/-- What does not change while the service runs. -/
structure Service (σ : Type) where
  id : Id
  settings : Settings
  backend : Backend σ
  hooks : Hooks

namespace Service

/-- The state of a running service: that of its backend, the connections, the identifiers of the last
notifications that were not stored, and the events that the hook afterwards has been told of. -/
structure State (σ : Type) where
  store : σ
  registry : Registry
  recent : Recent
  told : List Event

variable {σ : Type}

def initial (settings : Settings) (store : σ) : State σ :=
  ⟨store, Registry.ofCapacity settings.queueCapacity, Recent.ofSize settings.recentCapacity, []⟩

namespace State

def withStore (s : State σ) (store : σ) : State σ := { s with store }

def remember (s : State σ) (id : Id) : State σ := { s with recent := s.recent.remember id }

/-- Tells the hook afterwards. Whatever becomes of it has no effect. -/
def tell (s : State σ) (e : Event) : State σ := { s with told := s.told ++ [e] }

end State

abbrev Action (σ α : Type) := Access (State σ) α

def access {α : Type} (x : Access σ α) : Action σ α := x.within State.store State.withStore

/-- Puts an event into the queues of the clients here, then publishes it. A failure to publish is not
passed on: it only means that other instances miss the event. -/
def emit (service : Service σ) (now : Instant) (e : Event) (s : State σ) : State σ :=
  let s := { s with registry := (s.registry.deliver now e).2 }
  s.withStore (service.backend.publish ⟨service.id, e⟩ s.store).2

/-- What makes a notification unfit to be sent. -/
def problem? (n : Notification) : Option Fault :=
  if n.kind = "" then some (.invalidInput "notification type must not be empty")
  else if n.kind = dismissedKind then
    some (.invalidInput ("notification type '" ++ dismissedKind ++ "' is reserved"))
  else if n.group = some "" then some (.invalidInput "group key must not be empty")
  else none

/-- Stores a notification and emits it, after the withdrawal of the one whose place it takes. -/
def sendStored (service : Service σ) (now : Instant) (a : Address) (n : Notification) :
    Action σ Unit := fun s =>
  match access (service.backend.store now n) s with
  | (.error fault, s) => (.error fault, s)
  | (.ok replaced, s) =>
    let s := match replaced with
      | some old => service.emit now (.dismissed old (some a)) s
      | none => s
    (.ok (), service.emit now (.notify n) s)

def sendUnstored (service : Service σ) (now : Instant) (n : Notification) : Action σ Unit := fun s =>
  (.ok (), service.emit now (.notify n) (s.remember n.id))

/-- Sends a notification the way that its target and mode ask for. -/
def send (service : Service σ) (now : Instant) (n : Notification) : Action σ Unit :=
  match n.target with
  | some a => if n.mode.isPersisted then service.sendStored now a n else service.sendUnstored now n
  | none => service.sendUnstored now n

/-- Checks a notification, asks the hook, and sends it; nothing comes back if the hook suppressed it. A
hook that breaks down does not hold a notification up. -/
def dispatch (service : Service σ) (now : Instant) (n : Notification) :
    Action σ (Option Notification) := fun s =>
  match problem? n with
  | some fault => (.error fault, s)
  | none =>
    if service.hooks.beforeSend n = .suppress then (.ok none, s)
    else
      match service.send now n s with
      | (.error fault, s) => (.error fault, s)
      | (.ok _, s) => (.ok (some n), s.tell (.notify n))

/-- Sends a notification to one session or user. -/
def notify (service : Service σ) (now : Instant) (fresh : Id) (target : Address) (kind : String)
    (mode : Mode) (group : Option String) (payload : Json.Members) :
    Action σ (Option Notification) :=
  if target.owner = "" then
    Access.fail (.invalidInput (target.scope.name ++ " id must not be empty"))
  else service.dispatch now (.create fresh now (some target) kind mode group payload)

/-- Sends a notification to every client connected anywhere. -/
def broadcast (service : Service σ) (now : Instant) (fresh : Id) (kind : String)
    (group : Option String) (payload : Json.Members) : Action σ (Option Notification) :=
  service.dispatch now (.create fresh now none kind .ephemeral group payload)

/-- Emits the withdrawal of a notification, and tells the hook afterwards. -/
def emitDismissed (service : Service σ) (now : Instant) (id : Id) (a : Address) (s : State σ) :
    State σ :=
  (service.emit now (.dismissed id (some a)) s).tell (.dismissed id (some a))

/-- Dismisses a queued notification. One of another mode cannot be dismissed, also when it was never
stored but is still remembered. -/
def dismiss (service : Service σ) (now : Instant) (id : Id) : Action σ Unit := fun s =>
  if s.recent.contains id then (.error .notDismissible, s)
  else
    match access (service.backend.mode id) s with
    | (.error fault, s) => (.error fault, s)
    | (.ok none, s) => (.error (.notFound "notification"), s)
    | (.ok (some mode), s) =>
      if mode.isDismissible then
        match access (service.backend.remove id) s with
        | (.error fault, s) => (.error fault, s)
        | (.ok none, s) => (.error (.notFound "notification"), s)
        | (.ok (some a), s) => (.ok (), service.emitDismissed now id a s)
      else (.error .notDismissible, s)

/-- Dismisses the queued holder of a group, if there is one. -/
def dismissGroup (service : Service σ) (now : Instant) (a : Address) (group : String) :
    Action σ (Option Id) := fun s =>
  match access (service.backend.removeGroup a group) s with
  | (.error fault, s) => (.error fault, s)
  | (.ok none, s) => (.ok none, s)
  | (.ok (some id), s) => (.ok (some id), service.emitDismissed now id a s)

def queued (service : Service σ) (a : Address) : Action σ (List Notification) :=
  access (service.backend.queued a)

def since (service : Service σ) (a : Address) (t : Instant) : Action σ (List Notification) :=
  access (service.backend.since a t)

def mode (service : Service σ) (id : Id) : Action σ (Option Mode) :=
  access (service.backend.mode id)

/-- Takes a message of another instance: what was not stored there is remembered here too, and the event
goes to the clients connected here. A message of this instance comes back and is left alone. -/
def receiveRemote (service : Service σ) (now : Instant) (m : Message) (s : State σ) : State σ :=
  if m.origin = service.id then s
  else
    let s := match m.event with
      | .notify n => if n.isStored then s else s.remember n.id
      | .dismissed _ _ => s
    { s with registry := (s.registry.deliver now m.event).2 }

end Service

end Tidings
