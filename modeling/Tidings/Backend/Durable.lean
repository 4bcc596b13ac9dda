import Tidings.Broker.Session
import Tidings.Database.Table
import Tidings.Envelope
/-!
The backends with a database. Both keep notifications as rows; one publishes events through the database
itself, the other through a broker.
-/
namespace Tidings.Backend

/-- The row operations, with a way to publish and one to check more than the database. -/
def ofRows {σ : Type} (kind : BackendKind) (part : σ → Database.Session)
    (replace : σ → Database.Session → σ) (publish : Message → Access σ Unit)
    (check : Access σ Unit) : Backend σ where
  kind
  store _ n := (Database.store n).within part replace
  remove id := (Database.remove id).within part replace
  removeGroup a group := (Database.removeGroup a group).within part replace
  get id := (Database.get id).within part replace
  mode id := (Database.mode id).within part replace
  queued a := (Database.queued a).within part replace
  since a t := (Database.since a t).within part replace
  publish
  purge q t := (Database.purge q t).within part replace
  health := do
    (Database.execute .ping).within part replace
    check

def publishRow (m : Message) : Access Database.Session Unit := do
  let payload ← Access.ofExcept (Envelope.encode m)
  Database.execute (.notify Defaults.notifyChannel payload)

def postgres : Backend Database.Session :=
  ofRows .postgres id (fun _ s => s) publishRow (Access.ok ())

/-- A database for the rows and a broker for the events. -/
structure Peers where
  database : Database.Session
  broker : Broker.Session

def toBroker (command : Broker.Command) : Access Peers Unit :=
  (Broker.send command).within Peers.broker fun p b => { p with broker := b }

/-- Rows in the database, events over a channel of the broker. -/
def redis (channel : String) : Backend Peers :=
  ofRows .redis Peers.database (fun p d => { p with database := d })
    (fun m => toBroker (.publish channel m.toJson.text)) (toBroker .ping)

/-- The message that an envelope stands for. One by reference needs the row; without it there is no
message. -/
def resolve (e : Envelope) : Database.Session → Option Message × Database.Session
  | s =>
    match e with
    | .inline m => (some m, s)
    | .stored origin id =>
      match Database.get id s with
      | (.ok (some n), s) => (some ⟨origin, .notify n⟩, s)
      | (_, s) => (none, s)

end Tidings.Backend
