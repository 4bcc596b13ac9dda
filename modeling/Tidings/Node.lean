import Tidings.Backend.Durable
import Tidings.Backend.InMemory
import Tidings.Expiry
import Tidings.Http.Routes
import Tidings.Task
/-!
A node: one running service with its clocks and its background tasks. A task sweeps out what has expired,
one listens to the other instances, and one hands on what they say. What takes time, a start and the tasks
that hand on messages, is cut into steps between which anything else may happen; the operations do several
steps at once, and when a node has settled every task has run as far as it can.
-/
namespace Tidings

/-- What a service may have around it, whichever backend it uses. -/
structure World where
  memory : Memory
  database : Database.Session
  broker : Broker.Session

namespace World

def setMemory (w : World) (memory : Memory) : World := { w with memory }

def setDatabase (w : World) (database : Database.Session) : World := { w with database }

def setPeers (w : World) (p : Backend.Peers) : World :=
  { w with database := p.database, broker := p.broker }

def backend (settings : Settings) : BackendKind → Backend World
  | .memory => Backend.inMemory.within memory setMemory
  | .postgres => Backend.postgres.within database setDatabase
  | .redis =>
    (Backend.redis settings.channel).within (fun w => ⟨w.database, w.broker⟩) setPeers

end World

/-- The connection on which a listener hears from the other instances. -/
inductive Line where
  | off
  | subscribed
  /-- The next attempt is due at a time of the timer. -/
  | waiting (due : Nat)
deriving DecidableEq, Repr

/-- How far a start of the service has come. -/
inductive StartPhase where
  /-- It has a receiver. -/
  | subscribed
  /-- The backend runs. -/
  | listening
  /-- The tasks that were there have been told to end. -/
  | told
deriving DecidableEq, Repr

/-- A start that is under way, with the receiver for the task that it will start. -/
structure Startup where
  receiver : Queue Message
  phase : StartPhase

structure Node where
  service : Service World
  state : Service.State World
  /-- Nanoseconds of the wall clock since 1970. -/
  clock : Int
  /-- Milliseconds of the timer. -/
  timer : Nat
  /-- The starts that are under way, the oldest first. -/
  startups : List Startup
  /-- The tasks that hand on what other instances say, each with its receiver. -/
  dispatchers : Tasks (Queue Message)
  line : Line
  backoff : Backoff
  /-- While set, subscribing fails. -/
  refusing : Bool
  /-- The sweeps that the service started. -/
  cleanup : Tasks Ticker
  /-- Sweeps that were started apart from the service. -/
  scheduler : Tasks Ticker

namespace Node

/-- The delays of a listener that has just started. -/
def listenBackoff (settings : Settings) : Backoff :=
  Backoff.ofBounds Defaults.listenInitialBackoffMs settings.listenMaxBackoffMs

def new (service : Service World) (world : World) (clock : Int) : Node where
  service
  state := Service.initial service.settings world
  clock
  timer := 0
  startups := []
  dispatchers := []
  line := .off
  backoff := listenBackoff service.settings
  refusing := false
  cleanup := []
  scheduler := []

def now (n : Node) : Instant := (Instant.ofNanos? n.clock).getD Instant.epoch

def kind (n : Node) : BackendKind := n.service.backend.kind

def perform {α : Type} (x : Service.Action World α) (n : Node) : Except Fault α × Node :=
  let (result, state) := x n.state
  (result, { n with state })

def access {α : Type} (x : Access World α) : Node → Except Fault α × Node :=
  perform (Service.access x)

def withRegistry {α : Type} (f : Registry → α × Registry) (n : Node) : α × Node :=
  let (a, registry) := f n.state.registry
  (a, { n with state := { n.state with registry } })

/-- Moves the timer by the pauses that were made in the database's session. -/
def settlePauses (n : Node) : Node :=
  let database := n.state.store.database
  { n with
    timer := database.pauses.foldl (· + ·) n.timer
    state := n.state.withStore (n.state.store.setDatabase { database with pauses := [] }) }

def sweep (n : Node) (now : Instant) : Except Fault Nat × Node :=
  n.access (n.service.backend.sweep n.service.settings now)

/-- Whether a listener can subscribe now. -/
def canSubscribe (n : Node) : Bool :=
  !n.refusing && (n.kind = .redis || n.state.store.database.link = .up)

def retryLater (n : Node) : Node :=
  let (delay, backoff) := n.backoff.next
  { n with line := .waiting (n.timer + delay), backoff }

def trySubscribe (n : Node) : Node :=
  if n.canSubscribe then { n with line := .subscribed, backoff := n.backoff.reset }
  else n.retryLater

/-- A listener starts, unless one is running. -/
def startListener (n : Node) : Node :=
  if n.line = .off then
    trySubscribe { n with backoff := listenBackoff n.service.settings }
  else n

/-- A ticker for sweeps; an interval of nothing makes no ticker. -/
def ticker (n : Node) : Option Ticker :=
  if n.service.settings.cleanupIntervalSecs = 0 then none
  else some (Ticker.start (1000 * n.service.settings.cleanupIntervalSecs) n.timer)

def startScheduler (n : Node) : Node :=
  match n.ticker with
  | none => n
  | some t => { n with scheduler := n.scheduler.start t }

def stopScheduler (n : Node) : Node := { n with scheduler := n.scheduler.tellAll }

def runTicker (t : Task Ticker) (n : Node) : Task Ticker × Node :=
  if t.work.isDue n.timer then ({ t with work := t.work.tick n.timer }, (n.sweep n.now).2)
  else (t, n)

/-- Runs the sweeps that are due, one after the other. -/
def runTickers : Tasks Ticker → Node → Tasks Ticker × Node
  | [], n => ([], n)
  | t :: ts, n =>
    let (t, n) := runTicker t n
    let (ts, n) := runTickers ts n
    (t :: ts, n)

/-- A listener that has waited long enough tries again. -/
def runListener (n : Node) : Node :=
  match n.line with
  | .waiting due => if due ≤ n.timer then n.trySubscribe else n
  | _ => n

/-- Runs what is due, once each. -/
def runDue (n : Node) : Node :=
  let (cleanup, n) := runTickers n.cleanup n
  let n := { n with cleanup }
  let (scheduler, n) := runTickers n.scheduler n
  runListener { n with scheduler }

/-- Sweeps run as far as they can, and so does the listener. -/
def work (n : Node) : Node :=
  let n := { n with cleanup := n.cleanup.settle, scheduler := n.scheduler.settle }
  (runDue n.settlePauses).settlePauses

/-- All whom messages of other instances come to: the tasks that hand them on, also those that were told to
end and are still there, and the starts that are under way. -/
def receivers (n : Node) : List (Queue Message) :=
  n.dispatchers.map Task.work ++ n.startups.map Startup.receiver

/-- A message comes, to each receiver. -/
def arrive (n : Node) (m : Message) : Node :=
  { n with
    dispatchers := n.dispatchers.map fun t => { t with work := t.work.push m }
    startups := n.startups.map fun s => { s with receiver := s.receiver.push m } }

/-- A task reads its receiver once and hands on the message that it finds. One that was told to end may
still do so. -/
def take (n : Node) (i : Nat) : Node :=
  match n.dispatchers[i]? with
  | none => n
  | some t =>
    let (received, receiver) := t.work.receive
    let n := { n with dispatchers := n.dispatchers.set i { t with work := receiver } }
    match received with
    | .item m => { n with state := n.service.receiveRemote n.now m n.state }
    | _ => n

/-- A task that was told to end is gone, with what its receiver holds. -/
def leave (n : Node) (i : Nat) : Node :=
  if n.dispatchers[i]?.any Task.told then { n with dispatchers := n.dispatchers.eraseIdx i } else n

/-- A task hands on all that its receiver holds. -/
def takeAll (n : Node) (i : Nat) : Node :=
  match n.dispatchers[i]? with
  | none => n
  | some t => (List.replicate t.work.backlog i).foldl take n

def handOnAll (n : Node) : Node := (List.range n.dispatchers.length).foldl takeAll n

/-- Messages come all at once, and then every task hands on what its receiver still holds. -/
def handOn (n : Node) (ms : List Message) : Node := (ms.foldl arrive n).handOnAll

/-- Lets every task run as far as it can; those that were told to end are gone. -/
def settle (n : Node) : Node := { n with dispatchers := n.dispatchers.settle }.handOnAll.work

/-- Both clocks go on by so many milliseconds. -/
def advance (n : Node) (ms : Nat) : Node :=
  { n with clock := n.clock + 1000000 * ms, timer := n.timer + ms }

/-- A start begins: messages come to it from now on. -/
def beginStart (n : Node) : Node :=
  { n with startups := n.startups ++ [⟨Queue.ofSize Defaults.remoteCapacity, .subscribed⟩] }

/-- A start goes on. It starts the backend, whose listener goes on if it runs already: no second one is
started. Then it tells the tasks that are there to end, and last it starts its own. -/
def proceedStart (n : Node) (i : Nat) : Node :=
  match n.startups[i]? with
  | none => n
  | some ⟨receiver, .subscribed⟩ =>
    let n := if n.kind.isDurable then n.startListener else n
    { n with startups := n.startups.set i ⟨receiver, .listening⟩ }
  | some ⟨receiver, .listening⟩ =>
    { n with
      startups := n.startups.set i ⟨receiver, .told⟩
      dispatchers := n.dispatchers.tellAll
      cleanup := n.cleanup.tellAll }
  | some ⟨receiver, .told⟩ =>
    let cleanup := match n.ticker with
      | some t => if n.kind.isDurable then n.cleanup.start t else n.cleanup
      | none => n.cleanup
    { n with
      startups := n.startups.eraseIdx i
      dispatchers := n.dispatchers.start receiver
      cleanup }

/-- Starts the service, with nothing in between. -/
def start (n : Node) : Node :=
  (List.replicate 3 n.startups.length).foldl proceedStart n.beginStart

/-- Stops the service: its streams end, its tasks end, and its database connections are closed. -/
def stop (n : Node) : Node :=
  let n := (n.withRegistry Registry.closeAll).2
  let n := { n with dispatchers := n.dispatchers.tellAll, cleanup := n.cleanup.tellAll }
  if n.kind.isDurable then
    { n with
      line := .off
      state := n.state.withStore (n.state.store.setDatabase n.state.store.database.close) }
  else n

/-- The message that a text on the subscription stands for; a reference is looked up in the database. -/
def heard (n : Node) (text : String) : Option Message × Node :=
  if n.kind = .redis then (Message.shape.read? text, n)
  else
    match Envelope.ofText? text with
    | some e =>
      let (m, database) := Backend.resolve e n.state.store.database
      (m, { n with state := n.state.withStore (n.state.store.setDatabase database) })
    | none => (none, n)

/-- A text arrives on the subscription. -/
def hear (n : Node) (text : String) : Node :=
  match n.heard text with
  | (some m, n) => n.arrive m
  | (none, n) => n

/-- Bytes arrive on the subscription; says how many subscriptions there were. A broker's payload that is
no text is passed over, one from the database brings the listener down. -/
def push (n : Node) (payload : List UInt8) : Nat × Node :=
  if n.line = .subscribed then
    match Text.ofUtf8? payload with
    | some text => (1, n.hear text)
    | none => (1, if n.kind = .redis then n else { n with line := .off })
  else (0, n)

/-- Every subscription loses its connection; says how many there were. -/
def cutLine (n : Node) : Nat × Node :=
  if n.line = .subscribed then (1, n.retryLater) else (0, n)

def handle (n : Node) (request : Http.Request) : Http.Response × Node :=
  let (response, state) := Http.handle n.service n.now n.timer request n.state
  (response, { n with state })

def openStream (n : Node) (addresses : List Address) (since : Option Instant) :
    Except Fault Stream × Node :=
  n.perform (Stream.start n.service n.now addresses since)

def readStream (n : Node) (t : Stream) (limit : Option Nat) : (List Frame × Bool) × Stream × Node :=
  let (result, t, registry) := t.read limit n.state.registry
  (result, t, { n with state := { n.state with registry } })

/-- Reads what there is of the body of a stream response. -/
def readEvents (n : Node) (e : Http.EventStream) :
    (List String × Bool) × Http.EventStream × Node :=
  let (result, e, registry) := e.read n.service.settings n.timer n.state.registry
  (result, e, { n with state := { n.state with registry } })

/-- Hands the peers their answers for what comes next. -/
def script (n : Node) (database : List Database.Reply) (broker : List (Option String)) : Node :=
  let w := n.state.store
  let database := { w.database with replies := database, sent := [] }
  let broker := { w.broker with replies := broker, sent := [] }
  { n with state := n.state.withStore { w with database, broker } }

end Node

end Tidings
