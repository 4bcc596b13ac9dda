import Tidings.Json.Printer
import Tidings.Stream
/-!
The body of a stream response. Each frame is one event with a name and one line of data; a comment keeps
the connection alive when nothing else was written for a while.
-/
namespace Tidings.Http

/-- One event: its name, its data, and an empty line. -/
def eventChunk (name : String) (data : String) : String :=
  "event: " ++ name ++ "\ndata: " ++ data ++ "\n\n"

/-- What is written for a frame. -/
def frameChunk (displaySeconds : Nat) : Frame → String
  | .message e => eventChunk "message" (Json.Value.obj (e.wire displaySeconds)).text
  | .sync => eventChunk "sync" ""

/-- A comment without text. -/
def keepaliveChunk : String := ":\n\n"

/-- A stream that is being sent, and when the next comment is due, in milliseconds of a timer. -/
structure EventStream where
  stream : Stream
  due : Nat
deriving Repr

namespace EventStream

def start (settings : Settings) (timer : Nat) (stream : Stream) : EventStream :=
  ⟨stream, timer + 1000 * settings.keepaliveSecs⟩

/-- What there is to be written now, and whether the stream ended. A comment is due only when there was
nothing to be written for the whole interval. -/
def read (settings : Settings) (timer : Nat) (e : EventStream) (r : Registry) :
    (List String × Bool) × EventStream × Registry :=
  let ((frames, ended), stream, r) := e.stream.read none r
  let chunks := frames.map (frameChunk settings.timeseriesDisplaySecs)
  let next := timer + 1000 * settings.keepaliveSecs
  if ended then ((chunks, true), { e with stream }, r)
  else if chunks ≠ [] then ((chunks, false), ⟨stream, next⟩, r)
  else if e.due ≤ timer then (([keepaliveChunk], false), ⟨stream, next⟩, r)
  else (([], false), { e with stream }, r)

end EventStream

end Tidings.Http
