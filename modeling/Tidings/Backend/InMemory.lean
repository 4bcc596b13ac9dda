import Tidings.Backend
import Tidings.Memory
/-!
The backend without a database. Nothing fails, and nothing reaches other instances.
-/
namespace Tidings.Backend

def inMemory : Backend Memory where
  kind := .memory
  store now n := Access.always fun m => m.store now n
  remove id := Access.always fun m =>
    let (removed, m) := m.remove id
    (removed.bind (·.target), m)
  removeGroup a group := Access.always fun m => m.removeGroup a group
  get id := Access.always fun m => (m.get id, m)
  mode id := Access.always fun m => ((m.get id).map (·.mode), m)
  queued a := Access.always fun m => (m.queued a, m)
  since a t := Access.always fun m => (m.since a t, m)
  publish _ := Access.ok ()
  purge q t := Access.always fun m => m.purge q t
  health := Access.ok ()

end Tidings.Backend
