/-!
Modes. The mode of a notification says whether it is stored, whether it may be dismissed, and whether it
is shown again to a client that comes back.
-/
namespace Tidings

/-- A queued notification is stored until it is dismissed or too old, one of a time series until it is
too old, and an ephemeral one not at all. -/
inductive Mode where
  | queued
  | timeseries
  | ephemeral
deriving DecidableEq, Repr

namespace Mode

def name : Mode → String
  | .queued => "queued"
  | .timeseries => "timeseries"
  | .ephemeral => "ephemeral"

def ofName? (s : String) : Option Mode :=
  if s = "queued" then some .queued
  else if s = "timeseries" then some .timeseries
  else if s = "ephemeral" then some .ephemeral
  else none

theorem ofName?_name (m : Mode) : ofName? m.name = some m := by
  cases m <;> rfl

theorem ofName?_eq_some_iff {s : String} {m : Mode} : ofName? s = some m ↔ s = m.name := by
  constructor
  · intro h
    unfold ofName? at h
    split at h
    · next e => cases h; exact e
    · split at h
      · next e => cases h; exact e
      · split at h
        · next e => cases h; exact e
        · cases h
  · rintro rfl; exact ofName?_name m

def unknown (name : String) : String :=
  "unknown delivery mode '" ++ name ++ "'"

def isPersisted : Mode → Bool
  | .ephemeral => false
  | _ => true

def isDismissible : Mode → Bool
  | .queued => true
  | _ => false

end Mode

end Tidings
