import Tidings.Dict
import Tidings.Notification
/-!
Notifications kept in memory. One map holds the notifications of each address in the order in which they
were stored, another says to which address an identifier belongs.
-/
namespace Tidings

structure Stored where
  notification : Notification
  storedAt : Instant
deriving BEq, Repr

/-- Whether a notification was stored before the cutoff of its mode. -/
def Stored.isExpired (queuedBefore timeseriesBefore : Instant) (s : Stored) : Bool :=
  match s.notification.mode with
  | .queued => s.storedAt < queuedBefore
  | .timeseries => s.storedAt < timeseriesBefore
  | .ephemeral => true

structure Memory where
  byAddress : Dict Address (List Stored)
  index : Dict Id Address

namespace Memory

def empty : Memory := ⟨Dict.empty, Dict.empty⟩

def size (m : Memory) : Nat := m.index.size

/-- What is stored under an address, oldest first. -/
def entries (m : Memory) (a : Address) : List Stored := (m.byAddress.get? a).getD []

/-- Takes the first entry with an identifier out of a list. -/
def takeOut (id : Id) : List Stored → Option (Notification × List Stored)
  | [] => none
  | s :: rest =>
    if s.notification.id = id then some (s.notification, rest)
    else (takeOut id rest).map fun (n, more) => (n, s :: more)

/-- Removes a notification. An address without notifications is forgotten. -/
def remove (m : Memory) (id : Id) : Option Notification × Memory :=
  match m.index.get? id with
  | none => (none, m)
  | some a =>
    let m := { m with index := m.index.erase id }
    match (m.byAddress.get? a).bind (takeOut id) with
    | none => (none, m)
    | some (n, []) => (some n, { m with byAddress := m.byAddress.erase a })
    | some (n, rest) => (some n, { m with byAddress := m.byAddress.insert a rest })

/-- The notification that holds a group, of any mode or of one. -/
def groupHolder (m : Memory) (a : Address) (group : String) (mode : Option Mode) : Option Id :=
  ((m.entries a).find? fun s =>
    (mode.all fun wanted => s.notification.mode = wanted) && s.notification.group = some group).map
    (·.notification.id)

/-- Removes a notification if there is one, and gives its identifier. -/
def removeHolder (m : Memory) (holder : Option Id) : Option Id × Memory :=
  match holder with
  | none => (none, m)
  | some id =>
    let (removed, m) := m.remove id
    (removed.map (·.id), m)

/-- Stores a notification in place of the holder of its group, and gives the holder's identifier. What
has no address or is not kept leaves everything as it is. -/
def store (m : Memory) (now : Instant) (n : Notification) : Option Id × Memory :=
  match n.target with
  | none => (none, m)
  | some a =>
    if n.mode.isPersisted then
      let (replaced, m) := m.removeHolder (n.group.bind fun group => m.groupHolder a group none)
      (replaced,
        { byAddress := m.byAddress.insert a (m.entries a ++ [⟨n, now⟩])
          index := m.index.insert n.id a })
    else (none, m)

/-- Removes the queued holder of a group. -/
def removeGroup (m : Memory) (a : Address) (group : String) : Option Id × Memory :=
  m.removeHolder (m.groupHolder a group (some .queued))

def get (m : Memory) (id : Id) : Option Notification :=
  (m.index.get? id).bind fun a =>
    ((m.entries a).find? fun s => s.notification.id = id).map (·.notification)

/-- The notifications of an address that satisfy a condition, in the order of their creation. -/
def select (m : Memory) (a : Address) (keep : Notification → Bool) : List Notification :=
  (((m.entries a).map (·.notification)).filter keep).mergeSort fun x y => x.createdAt ≤ y.createdAt

def queued (m : Memory) (a : Address) : List Notification :=
  m.select a fun n => n.mode = .queued

def since (m : Memory) (a : Address) (t : Instant) : List Notification :=
  m.select a fun n => n.mode = .timeseries && t < n.createdAt

def expired (m : Memory) (queuedBefore timeseriesBefore : Instant) : List Id :=
  (m.byAddress.values.flatten.filter (Stored.isExpired queuedBefore timeseriesBefore)).map
    (·.notification.id)

def purge (m : Memory) (queuedBefore timeseriesBefore : Instant) : Nat × Memory :=
  let ids := m.expired queuedBefore timeseriesBefore
  (ids.length, ids.foldl (fun m id => (m.remove id).2) m)

end Memory

end Tidings
