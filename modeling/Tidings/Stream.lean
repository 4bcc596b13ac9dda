import Tidings.Service
/-!
Streams. A client that opens a stream is first shown what is stored for it, then told that this was all,
and then shown what happens. The connection is registered before the store is read, so nothing falls in
between; what both the store and the queue have is shown once.
-/
namespace Tidings

inductive Frame where
  | message (e : Event)
  /-- The end of what was stored. -/
  | sync
deriving BEq, Repr

/-- A stream: its connection, the stored notifications still to be shown, whether the end of these was
told, and the identifiers whose first notice in the queue is left out. -/
structure Stream where
  connection : ConnectionId
  replay : List Notification
  synced : Bool
  shown : List Id
deriving Repr

/-- Keeps the first notification of each identifier that has not been seen before. -/
def distinctFrom : List Id → List Notification → List Notification
  | _, [] => []
  | seen, n :: rest =>
    if n.id ∈ seen then distinctFrom seen rest else n :: distinctFrom (n.id :: seen) rest

/-- Without repeated identifiers, in the order of creation. -/
def replayOrder (ns : List Notification) : List Notification :=
  (distinctFrom [] ns).mergeSort fun x y => x.createdAt ≤ y.createdAt

namespace Stream
variable {σ : Type}

/-- What is stored for an address: the queued notifications, and with a point in time also those of a
time series created after it. -/
def loadOne (service : Service σ) (since : Option Instant) (a : Address) :
    Service.Action σ (List Notification) := do
  let queued ← service.queued a
  match since with
  | none => pure queued
  | some t => do
    let later ← service.since a t
    pure (queued ++ later)

/-- What is stored for some addresses, one after the other. -/
def load (service : Service σ) (since : Option Instant) :
    List Address → Service.Action σ (List Notification)
  | [] => pure []
  | a :: rest => do
    let first ← loadOne service since a
    let more ← load service since rest
    pure (first ++ more)

/-- Opens a stream. If the store cannot be read the connection is given up. -/
def start (service : Service σ) (now : Instant) (addresses : List Address)
    (since : Option Instant) : Service.Action σ Stream := fun s =>
  let (id, registry) := s.registry.register now addresses
  match load service since addresses { s with registry } with
  | (.error fault, s) => (.error fault, { s with registry := s.registry.drop id })
  | (.ok found, s) =>
    let replay := replayOrder found
    (.ok ⟨id, replay, false, replay.map (·.id)⟩, s)

inductive Step where
  | frame (f : Frame)
  | silent
  | waiting
  | ended
deriving BEq, Repr

/-- Takes one step. Of each notification shown before, the first notice in the queue is left out; lost
entries are passed over in silence. -/
def step (t : Stream) (q : Queue Event) : Step × Stream × Queue Event :=
  match t.replay with
  | n :: rest => (.frame (.message (.notify n)), { t with replay := rest }, q)
  | [] =>
    if t.synced then
      match q.receive with
      | (.item e, q) =>
        match e with
        | .notify n =>
          if n.id ∈ t.shown then (.silent, { t with shown := t.shown.filter (· ≠ n.id) }, q)
          else (.frame (.message e), t, q)
        | .dismissed _ _ => (.frame (.message e), t, q)
      | (.lagged _, q) => (.silent, t, q)
      | (.closed, q) => (.ended, t, q)
      | (.nothing, q) => (.waiting, t, q)
    else (.frame .sync, { t with synced := true }, q)

/-- The steps that a stream can take at most before it waits or ends. -/
def backlog (t : Stream) (q : Queue Event) : Nat :=
  t.replay.length + q.backlog + 2

/-- Takes steps until there are enough frames or no more can be had; says whether the stream ended. -/
def readSteps : Nat → Nat → Stream → Queue Event → (List Frame × Bool) × Stream × Queue Event
  | 0, _, t, q => (([], false), t, q)
  | _, 0, t, q => (([], false), t, q)
  | steps + 1, limit + 1, t, q =>
    match t.step q with
    | (.frame f, t, q) =>
      let ((frames, ended), rest) := readSteps steps limit t q
      ((f :: frames, ended), rest)
    | (.silent, t, q) => readSteps steps (limit + 1) t q
    | (.waiting, t, q) => (([], false), t, q)
    | (.ended, t, q) => (([], true), t, q)

/-- The frames that a stream has now, at most so many of them if there is a limit. -/
def read (t : Stream) (limit : Option Nat) (r : Registry) : (List Frame × Bool) × Stream × Registry :=
  let q := (r.queues.get? t.connection).getD ((Queue.ofSize r.capacity).close)
  let most := t.backlog q
  let (result, t, q) := readSteps most (limit.getD most) t q
  (result, t, { r with queues := r.queues.insert t.connection q })

end Stream

end Tidings
