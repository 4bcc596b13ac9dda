/-!
Background tasks of one kind. That a task is told to end and that it ends are two steps: it is there
until it runs again.
-/
namespace Tidings

/-- A task with what it works on, and whether it has been told to end. -/
structure Task (α : Type) where
  work : α
  told : Bool
deriving DecidableEq, Repr

/-- The tasks that have not ended yet, the oldest first. -/
abbrev Tasks (α : Type) := List (Task α)

namespace Tasks
variable {α : Type}

def tellAll (ts : Tasks α) : Tasks α := ts.map fun t => { t with told := true }

def start (ts : Tasks α) (work : α) : Tasks α := ts ++ [⟨work, false⟩]

/-- Tells the tasks that are there to end and starts a new one. -/
def renew (ts : Tasks α) (work : α) : Tasks α := ts.tellAll.start work

/-- Lets every task run: those that were told to end are gone. -/
def settle (ts : Tasks α) : Tasks α := ts.filter fun t => !t.told

@[simp] theorem settle_tellAll (ts : Tasks α) : ts.tellAll.settle = [] := by
  simp [settle, tellAll]

@[simp] theorem settle_start (ts : Tasks α) (work : α) :
    (ts.start work).settle = ts.settle.start work := by
  simp [settle, start]

end Tasks

end Tidings
