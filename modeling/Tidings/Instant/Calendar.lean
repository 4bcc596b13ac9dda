/-!
The calendar. Days are counted from 1970-01-01. A year is taken to begin in March, so that the leap
day is its last one, and 400 years make a cycle of 146097 days.
-/
namespace Tidings

/-- A day of the Gregorian calendar, also before its introduction. -/
structure Date where
  year : Int
  month : Nat
  day : Nat
deriving DecidableEq, Repr

namespace Date

def isLeapYear (year : Int) : Bool :=
  year % 4 = 0 && (year % 100 ≠ 0 || year % 400 = 0)

def daysInMonth (year : Int) : Nat → Nat
  | 2 => if isLeapYear year then 29 else 28
  | 4 | 6 | 9 | 11 => 30
  | _ => 31

def IsValid (d : Date) : Prop :=
  1 ≤ d.month ∧ d.month ≤ 12 ∧ 1 ≤ d.day ∧ d.day ≤ daysInMonth d.year d.month

instance (d : Date) : Decidable d.IsValid :=
  inferInstanceAs (Decidable (1 ≤ d.month ∧ _))

/-- The date so many days after 1970-01-01. -/
def ofDays (days : Int) : Date :=
  let shifted := days + 719468
  let cycle := shifted / 146097
  let ofCycle := shifted % 146097
  let yearOfCycle := (ofCycle - ofCycle / 1460 + ofCycle / 36524 - ofCycle / 146096) / 365
  let ofYear := ofCycle - (365 * yearOfCycle + yearOfCycle / 4 - yearOfCycle / 100)
  let march := (5 * ofYear + 2) / 153
  let month := if march < 10 then march + 3 else march - 9
  ⟨yearOfCycle + 400 * cycle + (if month ≤ 2 then 1 else 0), month.toNat,
    (ofYear - (153 * march + 2) / 5 + 1).toNat⟩

/-- Days from 1970-01-01 to a date. -/
def toDays (d : Date) : Int :=
  let year := if d.month ≤ 2 then d.year - 1 else d.year
  let cycle := year / 400
  let yearOfCycle := year % 400
  let march : Int := if d.month > 2 then d.month - 3 else d.month + 9
  let ofYear := (153 * march + 2) / 5 + d.day - 1
  146097 * cycle + 365 * yearOfCycle + yearOfCycle / 4 - yearOfCycle / 100 + ofYear - 719468

end Date

end Tidings
