import Tidings.Broker.Failure
import Tidings.Database.Failure
import Tidings.Id
import Tidings.Json.Value
/-!
Faults. Everything that fails in the service fails with a class, which decides the answer to the client,
and a message; the failure underneath is kept with it.
-/
namespace Tidings

inductive FaultClass where
  | authRequired
  | invalidInput
  | notFound
  | notDismissible
  | unavailable
  | externalService
  | config
  | database
  | serialization
  | internal
deriving DecidableEq, Repr

namespace FaultClass

def all : List FaultClass :=
  [.authRequired, .invalidInput, .notFound, .notDismissible, .unavailable, .externalService, .config,
    .database, .serialization, .internal]

def code : FaultClass → String
  | .authRequired => "AUTH_REQUIRED"
  | .invalidInput => "INVALID_INPUT"
  | .notFound => "RESOURCE_NOT_FOUND"
  | .notDismissible => "NOT_DISMISSIBLE"
  | .unavailable => "EXTERNAL_SERVICE_UNAVAILABLE"
  | .externalService => "EXTERNAL_SERVICE_ERROR"
  | .config => "CONFIG_ERROR"
  | .database => "DATABASE_ERROR"
  | .serialization => "SERIALIZATION_ERROR"
  | .internal => "INTERNAL_ERROR"

def ofCode? (code : String) : Option FaultClass :=
  all.find? fun c => c.code == code

theorem ofCode?_code (c : FaultClass) : ofCode? c.code = some c := by
  cases c <;> rfl

def status : FaultClass → Nat
  | .invalidInput => 400
  | .authRequired => 401
  | .notFound => 404
  | .notDismissible => 409
  | .externalService => 502
  | .unavailable => 503
  | .config | .database | .serialization | .internal => 500

def description : FaultClass → String
  | .authRequired => "A session identifier is required"
  | .invalidInput => "The provided input is invalid"
  | .notFound => "The requested resource was not found"
  | .notDismissible => "The notification cannot be dismissed"
  | .unavailable => "An external service is currently unavailable"
  | .externalService => "An external service encountered an error"
  | .config => "Configuration error encountered"
  | .database => "Database operation failed"
  | .serialization => "Data serialization/deserialization failed"
  | .internal => "An internal server error occurred"

end FaultClass

inductive Cause where
  | database (failure : Database.Failure)
  | broker (failure : Broker.Failure)
  | other (text : String)
deriving DecidableEq, Repr

def Cause.text : Cause → String
  | .database failure => failure.text
  | .broker failure => failure.text
  | .other text => text

structure Fault where
  kind : FaultClass
  message : String
  cause : Option Cause
deriving DecidableEq, Repr

namespace Fault

def plain (kind : FaultClass) (message : String) : Fault := ⟨kind, message, none⟩

def withCause (fault : Fault) (cause : Cause) : Fault := { fault with cause := some cause }

def authRequired (message : String) : Fault := plain .authRequired message

def invalidInput (message : String) : Fault := plain .invalidInput message

def notFound (what : String) : Fault := plain .notFound (what ++ " not found")

def notDismissible : Fault := plain .notDismissible "notification is not dismissible"

def internal (message : String) : Fault := plain .internal message

def database (message : String) : Fault := plain .database message

def config (message : String) : Fault := plain .config message

def serialization (message : String) : Fault := plain .serialization message

def externalService (service message : String) : Fault :=
  plain .externalService (service ++ ": " ++ message)

def unavailable (service message : String) : Fault :=
  plain .unavailable (service ++ ": " ++ message)

/-- The fault of a failed database access: an outage may pass, anything else is an error. -/
def ofDatabase (failure : Database.Failure) : Fault :=
  if failure = .noRow then notFound "Row"
  else if failure.isOutage then
    (unavailable "database" failure.text).withCause (.database failure)
  else (database failure.text).withCause (.database failure)

/-- The fault of a failed exchange with the broker. -/
def ofBroker (failure : Broker.Failure) : Fault :=
  if failure.isOutage then (unavailable "redis" failure.text).withCause (.broker failure)
  else (externalService "redis" failure.text).withCause (.broker failure)

/-- The fault of an error with contexts around it, the outermost first. -/
def ofChain (contexts : List String) : Fault :=
  internal (": ".intercalate contexts)

def display (fault : Fault) : String :=
  fault.kind.description ++ ": " ++ fault.message

def status (fault : Fault) : Nat := fault.kind.status

/-- What a client is told. -/
def body (fault : Fault) : Json.Value :=
  .obj [("error", .str fault.message)]

def isConflict (fault : Fault) : Bool :=
  match fault.cause with
  | some (.database failure) => failure.isConflict
  | _ => false

end Fault

end Tidings
