/-!
Digits. A number is written either with as few digits as it needs (`Nat.toDigits`) or with a fixed
number of places (`padded`), and read back digit by digit.
-/
namespace Tidings.Text

/-- The last `places` digits of `n` in `base`, most significant first. -/
def padded (base : Nat) : Nat → Nat → List Char
  | 0, _ => []
  | places + 1, n => padded base places (n / base) ++ [Nat.digitChar (n % base)]

theorem length_padded (base places n : Nat) : (padded base places n).length = places := by
  induction places generalizing n with
  | zero => rfl
  | succ p ih => simp [padded, ih]

/-- A number with at least `places` digits, zeros in front. -/
def paddedAtLeast (places n : Nat) : List Char :=
  let digits := Nat.toDigits 10 n
  List.replicate (places - digits.length) '0' ++ digits

/-- The value of a hexadecimal digit; letters count in either case. -/
def hexValue? (c : Char) : Option Nat :=
  if '0' ≤ c ∧ c ≤ '9' then some (c.toNat - 48)
  else if 'a' ≤ c ∧ c ≤ 'f' then some (c.toNat - 87)
  else if 'A' ≤ c ∧ c ≤ 'F' then some (c.toNat - 55)
  else none

/-- Reads digits of base 16 onto a number read so far. -/
def hexNumber? : Nat → List Char → Option Nat
  | n, [] => some n
  | n, c :: cs => (hexValue? c).bind fun d => hexNumber? (16 * n + d) cs

/-- The number that a row of decimal digits stands for. -/
def decimalValue (digits : List Char) : Nat :=
  Nat.ofDigitChars 10 digits 0

/-- The leading decimal digits, at most `limit` of them, and what follows. -/
def takeDigits : Nat → List Char → List Char × List Char
  | 0, cs => ([], cs)
  | _ + 1, [] => ([], [])
  | limit + 1, c :: cs =>
    if c.isDigit then
      let (digits, rest) := takeDigits limit cs
      (c :: digits, rest)
    else ([], c :: cs)

/-- One to `limit` leading digits as a number, and what follows. -/
def number? (limit : Nat) (cs : List Char) : Option (Nat × List Char) :=
  match takeDigits limit cs with
  | ([], _) => none
  | (digits, rest) => some (decimalValue digits, rest)

/-- A whole number as settings give it: decimal digits after at most one plus sign, not above `most`. -/
def bounded? (most : Nat) (cs : List Char) : Option Nat :=
  let digits := match cs with
    | '+' :: rest => rest
    | _ => cs
  if digits ≠ [] ∧ digits.all Char.isDigit ∧ decimalValue digits ≤ most then
    some (decimalValue digits)
  else none

end Tidings.Text
