import Tidings.Http.EventStream
import Tidings.Http.Identity
import Tidings.Http.Since
import Tidings.Instant.Rfc3339
/-!
Requests and their answers: a stream of notifications, the dismissal of one notification or of a group,
and the health of the service.
-/
namespace Tidings.Http

structure Request where
  method : String
  uri : String
  headers : List Header

/-- The answer to a request. `stream` is there while the body is still being written. -/
structure Response where
  status : Nat
  contentType : Option String
  body : List String
  stream : Option EventStream

/-- What a path leads to; parameters are as they stand in the path. -/
inductive Route where
  | stream
  | group (parameter : String)
  | notification (parameter : String)
  | health
  | unknown
deriving DecidableEq, Repr

/-- An address that names a scheme and a host, without both. -/
def withoutHost (uri : List Char) : List Char :=
  match Text.cut ':' uri with
  | (scheme, some ('/' :: '/' :: rest)) =>
    if scheme ≠ [] ∧ '/' ∉ scheme then rest.dropWhile (· ≠ '/') else uri
  | _ => uri

/-- The path and the query of an address; what follows a number sign does not count. -/
def splitUri (uri : String) : List Char × List Char :=
  let (uri, _) := Text.cut '#' uri.toList
  let (path, query) := Text.cut '?' uri
  (withoutHost path, query.getD [])

/-- The route of a path. A fixed part goes before a parameter, and a parameter is one part of the path
that is not empty. -/
def Route.ofPath (path : List Char) : Route :=
  match (Text.splitAll '/' path).map String.ofList with
  | ["", "health"] => .health
  | ["", "notifications", "stream"] => .stream
  | ["", "notifications", raw] => if raw = "" then .unknown else .notification raw
  | ["", "notifications", "group", raw] => if raw = "" then .unknown else .group raw
  | _ => .unknown

def queryPairs (query : List Char) : List (String × String) :=
  ((Text.splitAll '&' query).filter (· ≠ [])).map fun part =>
    let (name, value) := Text.cut '=' part
    (Text.unescapeForm (String.ofList name), Text.unescapeForm (String.ofList (value.getD [])))

namespace Response

def empty (status : Nat) : Response := ⟨status, none, [], none⟩

/-- A plain text from before the request came to the service. -/
def refused (message : String) : Response :=
  ⟨400, some "text/plain; charset=utf-8", [message], none⟩

def json (status : Nat) (body : Json.Value) : Response :=
  ⟨status, some "application/json", [body.text], none⟩

def ofFault (fault : Fault) : Response := json fault.status fault.body

def withoutBody (r : Response) : Response := { r with body := [], stream := none }

end Response

variable {σ : Type}

/-- An operation that answers a request. It does not fail: a fault is an answer too. -/
abbrev Handler (σ : Type) := Service.State σ → Response × Service.State σ

def answer {α : Type} (x : Service.Action σ α) (f : α → Response) : Handler σ := fun s =>
  match x s with
  | (.ok a, s) => (f a, s)
  | (.error fault, s) => (.ofFault fault, s)

def parameter (name : String) (raw : String) : Except Response String :=
  match Text.unescape? raw with
  | some s => .ok s
  | none => .error (.refused ("Invalid URL: Invalid UTF-8 in `" ++ name ++ "`"))

/-- The time that a query asks for. One that cannot be read is as if it were not there. -/
def queriedSince (query : List Char) : Except Response (Option Instant) :=
  match (queryPairs query).filter fun p => p.1 = "since" with
  | [] => .ok none
  | [(_, text)] => .ok (since? text)
  | _ => .error (.refused "Failed to deserialize query string: duplicate field `since`")

def openStream (service : Service σ) (now : Instant) (timer : Nat) (headers : List Header)
    (query : List Char) : Handler σ := fun s =>
  match Identity.ofHeaders headers with
  | .error fault => (.ofFault fault, s)
  | .ok caller =>
    match queriedSince query with
    | .error response => (response, s)
    | .ok since =>
      answer (Stream.start service now caller.addresses since)
        (fun stream => ⟨200, some "text/event-stream", [],
          some (EventStream.start service.settings timer stream)⟩) s

/-- Dismisses the notification of an identifier; one that is no identifier is not known. -/
def dismissOne (service : Service σ) (now : Instant) (raw : String) : Handler σ := fun s =>
  match parameter "id" raw with
  | .error response => (response, s)
  | .ok text =>
    match Id.ofText? text with
    | none => (.ofFault (.notFound "notification"), s)
    | some id => answer (service.dismiss now id) (fun _ => .empty 204) s

/-- Dismisses a group at each address in turn, up to the first fault. -/
def dismissAt (service : Service σ) (now : Instant) (group : String) :
    List Address → Service.Action σ Unit
  | [] => pure ()
  | a :: rest => do
    let _ ← service.dismissGroup now a group
    dismissAt service now group rest

/-- Dismisses a group of the caller's session and then of its user. -/
def dismissMany (service : Service σ) (now : Instant) (headers : List Header) (raw : String) :
    Handler σ := fun s =>
  match Identity.ofHeaders headers with
  | .error fault => (.ofFault fault, s)
  | .ok caller =>
    match parameter "group" raw with
    | .error response => (response, s)
    | .ok group =>
      answer (dismissAt service now group caller.addresses) (fun _ => .empty 204) s

def reportHealth (service : Service σ) (now : Instant) : Handler σ := fun s =>
  let (check, s) := Service.access service.backend.health s
  let (status, word, error) := match check with
    | .ok _ => (200, "healthy", [])
    | .error fault => (503, "degraded", [("backend_error", Json.Value.str fault.display)])
  let members : Json.Members :=
    [("status", .str word), ("backend", .str service.backend.kind.name),
      ("backend_info", .str service.backend.kind.info),
      ("backend_healthy", .bool (status = 200))] ++ error ++
    [("active_connections", .nat s.registry.size), ("instance_id", .str service.id.text),
      ("timestamp", .str now.offsetText)]
  (.json status (.obj members), s)

/-- The connection of an answer that is not sent is given up. -/
def abandon (r : Response) (s : Service.State σ) : Response × Service.State σ :=
  match r.stream with
  | none => (r.withoutBody, s)
  | some e => (r.withoutBody, { s with registry := s.registry.drop e.stream.connection })

/-- Runs a handler for GET, or for HEAD without the body. -/
def readOnly (method : String) (handler : Handler σ) : Handler σ := fun s =>
  if method = "GET" then handler s
  else if method = "HEAD" then
    let (response, s) := handler s
    abandon response s
  else (.empty 405, s)

def onlyFor (allowed method : String) (handler : Handler σ) : Handler σ := fun s =>
  if method = allowed then handler s else (.empty 405, s)

def handle (service : Service σ) (now : Instant) (timer : Nat) (request : Request) : Handler σ :=
  let (path, query) := splitUri request.uri
  match Route.ofPath path with
  | .stream => readOnly request.method (openStream service now timer request.headers query)
  | .group raw => onlyFor "DELETE" request.method (dismissMany service now request.headers raw)
  | .notification raw => onlyFor "DELETE" request.method (dismissOne service now raw)
  | .health => readOnly request.method (reportHealth service now)
  | .unknown => fun s => (.empty 404, s)

end Tidings.Http
