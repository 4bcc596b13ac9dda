/-!
Background listeners, one at a time. Each listener that was started has a life of its own; a handle says which
was started last, and one signal tells all of them to stop. Starting a listener while the last one is alive
does nothing.
-/
namespace Tidings

/-- A listener may run until it is told to stop, return by itself or fail. -/
inductive ListenerKind where
  | untilStopped
  | returning
  | failing
deriving DecidableEq, Repr

/-- What has become of a listener that was started. -/
inductive ListenerFate where
  | alive
  | ended
  | failed
deriving DecidableEq, Repr

structure ListenerRun where
  kind : ListenerKind
  fate : ListenerFate
deriving DecidableEq, Repr

/-- A listener runs as far as it can under a signal. What is over stays so. -/
def ListenerRun.proceed (signal : Bool) (r : ListenerRun) : ListenerRun :=
  match r.fate, r.kind with
  | .alive, .untilStopped => if signal then { r with fate := .ended } else r
  | .alive, .returning => { r with fate := .ended }
  | .alive, .failing => { r with fate := .failed }
  | _, _ => r

structure Listener where
  /-- All listeners that were started, the oldest first. -/
  runs : List ListenerRun
  /-- The listener started last, unless it has been waited for. -/
  handle : Option Nat
  /-- Whether listeners are told to stop. -/
  signal : Bool
deriving DecidableEq, Repr

namespace Listener

def new : Listener := ⟨[], none, false⟩

def started (l : Listener) : Nat := l.runs.length

def alive (l : Listener) : Nat := l.runs.countP fun r => r.fate = .alive

def ended (l : Listener) : Nat := l.runs.countP fun r => r.fate = .ended

def failed (l : Listener) : Nat := l.runs.countP fun r => r.fate = .failed

/-- Whether there is such a listener and it is not over. -/
def isAlive (l : Listener) (i : Nat) : Bool := l.runs[i]?.any fun r => r.fate = .alive

/-- Whether the listener that the handle belongs to is not over. -/
def isRunning (l : Listener) : Bool := l.handle.any l.isAlive

/-- One listener runs as far as it can. -/
def proceed (l : Listener) (i : Nat) : Listener :=
  { l with runs := l.runs.modify i (ListenerRun.proceed l.signal) }

/-- Starts a listener unless one is running. A signal that was given before does not count for it. -/
def launch (l : Listener) (kind : ListenerKind) : Listener :=
  if l.isRunning then l
  else { runs := l.runs ++ [⟨kind, .alive⟩], handle := some l.runs.length, signal := false }

/-- Gives the signal to stop, and waits for the listener of the handle, which runs meanwhile. -/
def halt (l : Listener) : Listener :=
  let l := { l with signal := true }
  match l.handle with
  | none => l
  | some i => { l.proceed i with handle := none }

/-- Lets every listener run as far as it can. -/
def settle (l : Listener) : Listener := (List.range l.runs.length).foldl proceed l

def spawn (l : Listener) (kind : ListenerKind) : Listener := (l.launch kind).settle

def shutdown (l : Listener) : Listener := l.halt.settle

end Listener

end Tidings
