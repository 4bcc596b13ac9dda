import Tidings.Event
import Tidings.Instant.Rfc3339
import Tidings.Json.Shape
/-!
The JSON forms of addresses, notifications, events and messages: what is written (`toJson`) and what is
read (`shape`).
-/
namespace Tidings

open Json

def Scope.toJson (s : Scope) : Value := .str s.name

def Scope.shape : Shape Scope := Shape.name Scope.ofName?

def Mode.toJson (m : Mode) : Value := .str m.name

def Mode.shape : Shape Mode := Shape.name Mode.ofName?

def Id.toJson (id : Id) : Value := .str id.text

def Id.shape : Shape Id := fun p t => (Shape.text p t).bind Id.ofText?

def Instant.toJson (t : Instant) : Value := .str t.text

def Instant.shape : Shape Instant := fun p t => (Shape.text p t).bind Instant.ofText?

def Address.toJson (a : Address) : Value :=
  .obj [("scope", a.scope.toJson), ("scope_id", .str a.owner)]

def Address.shape : Shape Address := fun p t => do
  let fields ← Shape.fields ["scope", "scope_id"] p t
  let [scope, owner] := fields | none
  let scope ← required Scope.shape p.inner scope
  let owner ← required Shape.text p.inner owner
  some ⟨scope, owner⟩

def Notification.toJson (n : Notification) : Value :=
  .obj [("id", n.id.toJson), ("type", .str n.kind), ("target", Value.ofOption Address.toJson n.target),
    ("group", Value.ofOption .str n.group), ("mode", n.mode.toJson), ("payload", .obj n.payload),
    ("created_at", n.createdAt.toJson)]

def Notification.shape : Shape Notification := fun p t => do
  let fields ← Shape.fields ["id", "type", "target", "group", "mode", "payload", "created_at"] p t
  let [id, kind, target, group, mode, payload, createdAt] := fields | none
  let id ← required Id.shape p.inner id
  let kind ← required Shape.text p.inner kind
  let target ← optional Address.shape p.inner target
  let group ← optional Shape.text p.inner group
  let mode ← required Mode.shape p.inner mode
  let payload ← required Shape.members p.inner payload
  let createdAt ← required Instant.shape p.inner createdAt
  some ⟨id, kind, target, group, mode, payload, createdAt⟩

def Event.toJson : Event → Value
  | .notify n => .obj [("event", .str "notify"), ("notification", n.toJson)]
  | .dismissed id target =>
    .obj [("event", .str "dismissed"), ("id", id.toJson),
      ("target", Value.ofOption Address.toJson target)]

inductive EventTag where
  | notify
  | dismissed

def Event.shape : Shape Event := fun p t => do
  let (tag, rest) ← Shape.tagged "event" [("notify", EventTag.notify), ("dismissed", .dismissed)] p t
  let p := { p with copied := true }
  match tag with
  | .notify =>
    let fields ← Shape.fields ["notification"] p rest
    let [n] := fields | none
    (required Notification.shape p.inner n).map .notify
  | .dismissed =>
    let fields ← Shape.fields ["id", "target"] p rest
    let [id, target] := fields | none
    let id ← required Id.shape p.inner id
    let target ← optional Address.shape p.inner target
    some (.dismissed id target)

def Message.toJson (m : Message) : Value :=
  .obj [("origin", m.origin.toJson), ("event", m.event.toJson)]

def Message.shape : Shape Message := fun p t => do
  let fields ← Shape.fields ["origin", "event"] p t
  let [origin, event] := fields | none
  let origin ← required Id.shape p.inner origin
  let event ← required Event.shape p.inner event
  some ⟨origin, event⟩

end Tidings
