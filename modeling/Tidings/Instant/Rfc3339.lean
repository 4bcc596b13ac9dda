import Tidings.Instant
import Tidings.Instant.Calendar
import Tidings.Text.Blank
import Tidings.Text.Digits
/-!
The text of a point in time, as RFC 3339 has it. Writing uses the fewest of 0, 3, 6 or 9 places that
lose nothing. Reading allows white space in front of each number and mark, one digit where two are
usual, a space or a small letter between date and time, and any offset.
-/
namespace Tidings

/-- How the offset zero is written. -/
inductive Zone where
  | letter
  | numbers

def Zone.text : Zone → List Char
  | .letter => ['Z']
  | .numbers => ['+', '0', '0', ':', '0', '0']

namespace Instant

/-- Four digits for the years 0 to 9999, a sign in front of all others. -/
def yearText (year : Int) : List Char :=
  if 0 ≤ year ∧ year ≤ 9999 then Text.padded 10 4 year.toNat
  else (if year < 0 then '-' else '+') :: Text.paddedAtLeast 4 year.natAbs

/-- The fraction of a second, in as many places as it needs. -/
def fractionText (nanos : Nat) : List Char :=
  if nanos = 0 then []
  else if nanos % 1000000 = 0 then '.' :: Text.padded 10 3 (nanos / 1000000)
  else if nanos % 1000 = 0 then '.' :: Text.padded 10 6 (nanos / 1000)
  else '.' :: Text.padded 10 9 nanos

def two (n : Nat) : List Char := Text.padded 10 2 n

def chars (zone : Zone) (t : Instant) : List Char :=
  let date := Date.ofDays (t.seconds / 86400)
  let ofDay := (t.seconds % 86400).toNat
  let (second, nanos) := t.clockSecond
  yearText date.year ++ '-' :: (two date.month ++ '-' :: (two date.day ++ 'T' ::
    (two (ofDay / 3600) ++ ':' :: (two (ofDay / 60 % 60) ++ ':' :: (two second ++
      (fractionText nanos ++ zone.text))))))

def text (t : Instant) : String :=
  String.ofList (t.chars .letter)

/-- The text with the offset in numbers. -/
def offsetText (t : Instant) : String :=
  String.ofList (t.chars .numbers)

/-- A number of one or two digits, white space before it. -/
def readTwo? (cs : List Char) : Option (Nat × List Char) :=
  Text.number? 2 (Text.trimStart cs)

/-- A year: up to four digits, or any number of them after a sign. -/
def readYear? (cs : List Char) : Option (Int × List Char) :=
  match Text.trimStart cs with
  | '-' :: rest => (Text.number? rest.length rest).map fun (n, more) => (-(n : Int), more)
  | '+' :: rest => (Text.number? rest.length rest).map fun (n, more) => ((n : Int), more)
  | rest => (Text.number? 4 rest).map fun (n, more) => ((n : Int), more)

/-- A mark between numbers, white space before it. -/
def readMark? (mark : Char) (cs : List Char) : Option (List Char) :=
  match Text.trimStart cs with
  | c :: rest => if c = mark then some rest else none
  | [] => none

/-- A fraction in nanoseconds; places after the ninth do not count. -/
def readFraction? : List Char → Option (Nat × List Char)
  | '.' :: rest =>
    match Text.takeDigits 9 rest with
    | ([], _) => none
    | (digits, more) =>
      some (Text.decimalValue digits * Nat.pow 10 (9 - digits.length), more.dropWhile Char.isDigit)
  | cs => some (0, cs)

def readPair? : List Char → Option (Nat × List Char)
  | a :: b :: rest =>
    if a.isDigit ∧ b.isDigit then some (Text.decimalValue [a, b], rest) else none
  | _ => none

/-- Hours and minutes after the sign of an offset, in seconds. -/
def readHoursMinutes? (cs : List Char) : Option (Int × List Char) := do
  let (hours, cs) ← readPair? cs
  let (minutes, cs) ← readPair? (cs.dropWhile fun c => c = ':' || Text.isBlank c)
  if minutes < 60 ∧ hours < 24 then some (3600 * hours + 60 * minutes, cs) else none

/-- An offset in seconds. -/
def readOffset? (cs : List Char) : Option (Int × List Char) :=
  if (cs.take 3).map Char.toLower = ['u', 't', 'c'] then some (0, cs.drop 3)
  else
    match cs with
    | 'Z' :: rest => some (0, rest)
    | 'z' :: rest => some (0, rest)
    | '+' :: rest => readHoursMinutes? rest
    | '-' :: rest => (readHoursMinutes? rest).map fun (n, more) => (-n, more)
    | '−' :: rest => (readHoursMinutes? rest).map fun (n, more) => (-n, more)
    | _ => none

/-- The point in time at a date and time of day with an offset. The second 60 is a leap second. -/
def ofClock? (date : Date) (hour minute second nanos : Nat) (offset : Int) : Option Instant :=
  if date.IsValid ∧ -262143 ≤ date.year ∧ date.year ≤ 262142 ∧ hour < 24 ∧ minute < 60 ∧
      second ≤ 60 then
    let (second, nanos) := if second = 60 then (59, nanos + billion) else (second, nanos)
    ofParts? (date.toDays * 86400 + hour * 3600 + minute * 60 + second - offset) nanos
  else none

def ofChars? (cs : List Char) : Option Instant := do
  let (year, cs) ← readYear? cs
  let cs ← readMark? '-' cs
  let (month, cs) ← readTwo? cs
  let cs ← readMark? '-' cs
  let (day, cs) ← readTwo? cs
  let cs ← match cs with
    | c :: rest => if c = 'T' ∨ c = 't' ∨ c = ' ' then some rest else none
    | [] => none
  let (hour, cs) ← readTwo? cs
  let cs ← readMark? ':' cs
  let (minute, cs) ← readTwo? cs
  let cs ← readMark? ':' cs
  let (second, cs) ← readTwo? cs
  let (nanos, cs) ← readFraction? cs
  let (offset, cs) ← readOffset? (Text.trimStart cs)
  guard (Text.trimStart cs).isEmpty
  ofClock? ⟨year, month, day⟩ hour minute second nanos offset

def ofText? (s : String) : Option Instant :=
  ofChars? s.toList

end Instant

end Tidings
