/-!
Addresses. A notification is addressed to one session, to every session of one user, or to nobody in
particular; the last kind has no address.
-/
namespace Tidings

inductive Scope where
  | session
  | user
deriving DecidableEq, Repr

namespace Scope

def name : Scope → String
  | .session => "session"
  | .user => "user"

def ofName? (s : String) : Option Scope :=
  if s = "session" then some .session
  else if s = "user" then some .user
  else none

theorem ofName?_name (s : Scope) : ofName? s.name = some s := by
  cases s <;> rfl

theorem ofName?_eq_some_iff {s : String} {a : Scope} : ofName? s = some a ↔ s = a.name := by
  constructor
  · intro h
    unfold ofName? at h
    split at h
    · next e => cases h; exact e
    · split at h
      · next e => cases h; exact e
      · cases h
  · rintro rfl; exact ofName?_name a

/-- What is said of a name that is none of the scopes. -/
def unknown (name : String) : String :=
  "unknown notification scope '" ++ name ++ "'"

end Scope

/-- One session, or one user. -/
structure Address where
  scope : Scope
  owner : String
deriving DecidableEq, Repr

def Address.text (a : Address) : String :=
  a.scope.name ++ ":" ++ a.owner

end Tidings
