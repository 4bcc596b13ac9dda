import Tidings.Dict
import Tidings.Event
import Tidings.Queue
/-!
The connections of one instance. A connection belongs to some addresses and has a queue of its own; an
index says which connections belong to an address. A connection that is taken off the register can still
be read until its queue is empty.
-/
namespace Tidings

/-- The number of a connection, counted from the first one. -/
abbrev ConnectionId := Nat

structure Connection where
  addresses : List Address
  createdAt : Instant
  lastSeen : Instant
deriving Repr

structure Registry where
  capacity : Nat
  next : ConnectionId
  connections : Dict ConnectionId Connection
  byAddress : Dict Address (List ConnectionId)
  queues : Dict ConnectionId (Queue Event)

namespace Registry

def ofCapacity (capacity : Nat) : Registry :=
  ⟨capacity, 0, Dict.empty, Dict.empty, Dict.empty⟩

def members (r : Registry) (a : Address) : List ConnectionId := (r.byAddress.get? a).getD []

/-- Puts a connection into the index under an address. -/
def enlist (id : ConnectionId) (index : Dict Address (List ConnectionId)) (a : Address) :
    Dict Address (List ConnectionId) :=
  let ids := (index.get? a).getD []
  if id ∈ ids then index else index.insert a (ids ++ [id])

/-- Takes a connection out of the index under an address; an address without connections is dropped. -/
def delist (id : ConnectionId) (index : Dict Address (List ConnectionId)) (a : Address) :
    Dict Address (List ConnectionId) :=
  match index.get? a with
  | none => index
  | some ids =>
    let rest := ids.filter (· ≠ id)
    if rest = [] then index.erase a else index.insert a rest

/-- Registers a connection for some addresses. -/
def register (r : Registry) (now : Instant) (addresses : List Address) : ConnectionId × Registry :=
  (r.next,
    { r with
      next := r.next + 1
      connections := r.connections.insert r.next ⟨addresses, now, now⟩
      byAddress := addresses.foldl (enlist r.next) r.byAddress
      queues := r.queues.insert r.next (Queue.ofSize r.capacity) })

/-- Takes a connection off the register. What is in its queue can still be read. -/
def unregister (r : Registry) (id : ConnectionId) : Registry :=
  match r.connections.get? id with
  | none => r
  | some c =>
    { r with
      connections := r.connections.erase id
      byAddress := c.addresses.foldl (delist id) r.byAddress
      queues := match r.queues.get? id with
        | none => r.queues
        | some q => r.queues.insert id q.close }

/-- The reader of a connection goes away. -/
def drop (r : Registry) (id : ConnectionId) : Registry :=
  let r := r.unregister id
  { r with queues := r.queues.erase id }

/-- Takes every connection off the register and says how many there were. -/
def closeAll (r : Registry) : Nat × Registry :=
  (r.connections.size, r.connections.keys.foldl unregister r)

/-- Who gets an event: the connections of its target, or all of them. -/
def recipients (r : Registry) (e : Event) : List ConnectionId :=
  match e.target with
  | some a => r.members a
  | none => r.connections.keys

def send (now : Instant) (e : Event) (state : Nat × Registry) (id : ConnectionId) : Nat × Registry :=
  let (count, r) := state
  match r.connections.get? id, r.queues.get? id with
  | some c, some q =>
    (count + 1,
      { r with
        connections := r.connections.insert id { c with lastSeen := now }
        queues := r.queues.insert id (q.push e) })
  | _, _ => (count, r)

/-- Puts an event into the queue of every recipient and says how many got it. -/
def deliver (r : Registry) (now : Instant) (e : Event) : Nat × Registry :=
  (r.recipients e).foldl (send now e) (0, r)

def receive (r : Registry) (id : ConnectionId) : Received Event × Registry :=
  match r.queues.get? id with
  | none => (.closed, r)
  | some q =>
    let (received, q) := q.receive
    (received, { r with queues := r.queues.insert id q })

def drain (r : Registry) (id : ConnectionId) : List (Received Event) × Registry :=
  match r.queues.get? id with
  | none => ([.closed], r)
  | some q =>
    let (received, q) := q.drain
    (received, { r with queues := r.queues.insert id q })

def size (r : Registry) : Nat := r.connections.size

end Registry

end Tidings
