import Tidings.Instant
import Tidings.Text.Blank
import Tidings.Text.Digits
import Tidings.Text.Split
/-!
The time from which on a client wants to see a time series: seconds since 1970, perhaps with a fraction.
-/
namespace Tidings.Http

/-- A fraction in nanoseconds; places after the ninth do not count. -/
def nanosOf (digits : List Char) : Nat :=
  Text.decimalValue ((digits ++ List.replicate 9 '0').take 9)

/-- Reads digits, and after a point more digits or none. White space around them does not count. -/
def since? (text : String) : Option Instant :=
  let (whole, fraction) := Text.cut '.' (Text.trim text).toList
  let fraction := fraction.getD []
  if whole ≠ [] ∧ whole.all Char.isDigit ∧ fraction.all Char.isDigit then
    Instant.ofParts? (Text.decimalValue whole) (nanosOf fraction)
  else none

end Tidings.Http
