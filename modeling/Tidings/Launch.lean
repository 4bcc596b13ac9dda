import Tidings.Broker.Connect
import Tidings.Node
/-!
From settings to a running node: which backend is made, and what can keep it from being made.
-/
namespace Tidings

namespace Database

/-- Whether a text begins with the name of a scheme and a colon. -/
def hasScheme (url : String) : Bool :=
  match Text.cut ':' url.toList with
  | (c :: scheme, some _) => c.isAlpha && scheme.all fun c => c.isAlphanum || c ∈ ['+', '-', '.']
  | _ => false

/-- The fault of a database that is not named as it should be. -/
def urlFault? (settings : ServerSettings) : Option Fault :=
  match settings.databaseUrl with
  | none => some (.config ("DATABASE_URL is required for the " ++
      settings.notifications.backend.name ++ " notification backend"))
  | some url =>
    if hasScheme url then none
    else some (.ofDatabase (.configuration "relative URL without a base"))

end Database

/-- Makes the tables and, where there is a broker, connects to it; `attempt` says what comes of each
attempt to connect. -/
def World.prepare (settings : ServerSettings) (attempt : Nat → Option Broker.Failure) (w : World) :
    Except Fault World :=
  if settings.notifications.backend.isDurable then
    match Database.urlFault? settings with
    | some fault => .error fault
    | none =>
      match Database.createSchema w.database with
      | (.error fault, _) => .error fault
      | (.ok _, database) =>
        let w := w.setDatabase { database with sent := [] }
        if settings.notifications.backend = .redis then
          match Broker.endpoint settings.notifications with
          | .error fault => .error fault
          | .ok _ =>
            match (Broker.connect settings.notifications.broker attempt (fun _ s => s) ()).1 with
            | .error fault => .error fault
            | .ok _ => .ok w
        else .ok w
  else .ok w

def World.empty (link : Database.Link) : World :=
  ⟨Memory.empty, Database.Session.ofLink link, Broker.Session.new⟩

/-- A node that is ready to start. -/
def Node.ofSettings (id : Id) (hooks : Hooks) (settings : Settings) (w : World) (clock : Int) : Node :=
  let service : Service World :=
    { id, settings, backend := World.backend settings settings.backend, hooks }
  Node.new service w clock

/-- A node whose backend could be made, started. -/
def Node.launch (id : Id) (settings : ServerSettings) (w : World) (clock : Int) :
    Except Fault Node :=
  match w.prepare settings fun _ => none with
  | .error fault => .error fault
  | .ok w => .ok (Node.ofSettings id Hooks.none settings.notifications w clock).start.settle

/-- Ends every stream, so that the server need not wait for its clients. -/
def Node.endStreams (n : Node) : Node := (n.withRegistry Registry.closeAll).2

end Tidings
