import Tidings.Codec
import Tidings.Fault
import Tidings.Json.Printer
import Tidings.Settings
/-!
What travels over the database's channel. A message goes as it is; one that is too long goes as the
identifier of its notification if that is stored, so that receivers can read the row.
-/
namespace Tidings

open Json

inductive Envelope where
  | inline (m : Message)
  | stored (origin : Id) (id : Id)
deriving BEq, Repr

namespace Envelope

def toJson : Envelope → Value
  | .inline m => .obj [("envelope", .str "inline"), ("message", m.toJson)]
  | .stored origin id =>
    .obj [("envelope", .str "stored"), ("origin", origin.toJson), ("id", id.toJson)]

inductive Tag where
  | inline
  | stored

def shape : Shape Envelope := fun p t => do
  let (tag, rest) ← Shape.tagged "envelope" [("inline", Tag.inline), ("stored", .stored)] p t
  let p := { p with copied := true }
  match tag with
  | .inline =>
    let fields ← Shape.fields ["message"] p rest
    let [m] := fields | none
    (required Message.shape p.inner m).map .inline
  | .stored =>
    let fields ← Shape.fields ["origin", "id"] p rest
    let [origin, id] := fields | none
    let origin ← required Id.shape p.inner origin
    let id ← required Id.shape p.inner id
    some (.stored origin id)

def text (e : Envelope) : String := e.toJson.text

/-- Puts a message into a text that the channel takes. -/
def encode (m : Message) : Except Fault String :=
  let inlined := (Envelope.inline m).text
  if inlined.utf8ByteSize ≤ Defaults.notifyMaxBytes then .ok inlined
  else
    match m.event with
    | .notify n =>
      if n.isStored then .ok (Envelope.stored m.origin n.id).text else .error (tooLong inlined)
    | .dismissed _ _ => .error (tooLong inlined)
where
  tooLong (inlined : String) : Fault :=
    .externalService "postgres" ("NOTIFY payload of " ++ toString inlined.utf8ByteSize ++
      " bytes exceeds the " ++ toString Defaults.notifyMaxBytes ++ " byte limit")

def ofText? (s : String) : Option Envelope := shape.read? s

end Envelope

end Tidings
