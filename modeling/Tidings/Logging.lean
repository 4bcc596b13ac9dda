import Tidings.Settings.Environment
/-!
How the server logs: which lines are kept, how they look, and under what name.
-/
namespace Tidings

inductive LogFormat where
  | json
  | pretty
  | compact
deriving DecidableEq, Repr

def LogFormat.ofText? (s : String) : Option LogFormat :=
  let name := Text.lowerAscii (Text.trim s)
  if name = "json" then some .json
  else if name = "pretty" then some .pretty
  else if name = "compact" then some .compact
  else none

structure Logging where
  filter : String
  format : LogFormat
  serviceName : String
  environment : String
deriving DecidableEq, Repr

namespace Logging

/-- Chatty parts are held back, whatever the operator's filter says about the rest. -/
def quiet : String := "hyper=warn,sqlx::query=warn,sqlx=info,redis=info,tower_http=info"

/-- The operator's directives come last, so that they win for the same part. -/
def directives (l : Logging) : String := quiet ++ "," ++ l.filter

/-- In production lines are JSON unless the format is set. -/
def ofEnvironment (env : Environment) : Logging :=
  let environment := (env.text? "ENVIRONMENT").getD "development"
  { filter := ((env.text? "RUST_LOG").filter fun s => Text.trim s ≠ "").getD "info"
    format := ((env.text? "LOG_FORMAT").bind LogFormat.ofText?).getD
      (if environment = "production" then .json else .pretty)
    serviceName := (env.text? "SERVICE_NAME").getD Defaults.serviceName
    environment }

end Logging

end Tidings
