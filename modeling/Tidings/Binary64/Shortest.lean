import Tidings.Binary64
/-!
The shortest decimal text of a double. Among the decimals that round to the double, those with the
fewest digits are taken, and of them the nearest; an exact tie goes to the even last digit.
-/
namespace Tidings.Binary64

/-- A decimal: the digits `d₁d₂…` stand for `d₁.d₂… * 10 ^ exponent`. -/
structure Decimal where
  digits : Nat
  exponent : Int
deriving DecidableEq, Repr

/-- The greatest `k` with `10 ^ k ≤ num / den`, for a positive fraction. -/
def decimalExponent (num den : Nat) : Int :=
  if den ≤ num then ((Nat.toDigits 10 (num / den)).length : Int) - 1
  else -((Nat.toDigits 10 ((den + num - 1) / num - 1)).length : Int)

/-- The ends of the interval of fractions that round to `x`, over one denominator: below, `x`, above. -/
def interval (x : Binary64) : (Nat × Nat × Nat) × Nat :=
  let (n, d) := x.ratio
  let unit := if x.exponent ≥ 0 then Nat.pow 2 x.exponent.toNat else 1
  let below := if x.mantissa = Nat.pow 2 52 ∧ x.exponent > leastExponent then unit else 2 * unit
  ((4 * n - below, 4 * n, 4 * n + 2 * unit), 4 * d)

/-- Whether `num / den` rounds to `x`; the ends count when the mantissa is even. -/
def roundsTo (x : Binary64) (num den : Nat) : Bool :=
  let ((low, _, high), d) := x.interval
  if x.mantissa % 2 = 0 then low * den ≤ num * d && num * d ≤ high * den
  else low * den < num * d && num * d < high * den

/-- The neighbours of `x` among the decimals with `places` digits, in units of the last place. -/
def gridUnit (x : Binary64) (places : Nat) : Nat × Nat :=
  let (n, d) := x.ratio
  let k := decimalExponent n d - (places - 1)
  if k ≥ 0 then (Nat.pow 10 k.toNat, 1) else (1, Nat.pow 10 (-k).toNat)

/-- The decimal with `places` digits that reads back as `x`, if there is one, the nearest first. -/
def withPlaces? (x : Binary64) (places : Nat) : Option Nat :=
  let (n, d) := x.ratio
  let (u, v) := x.gridUnit places
  let below := (n * v) / (d * u)
  let above := below + 1
  let okBelow := x.roundsTo (below * u) v
  let okAbove := x.roundsTo (above * u) v
  let rest := 2 * ((n * v) % (d * u))
  if okBelow && okAbove then
    if rest < d * u then some below
    else if rest > d * u then some above
    else some (if below % 2 = 0 then below else above)
  else if okBelow then some below
  else if okAbove then some above
  else none

/-- Tries one digit more at a time; seventeen always read back. -/
def shortestFrom (x : Binary64) : Nat → Nat → Option (Nat × Nat)
  | 0, _ => none
  | tries + 1, places =>
    match x.withPlaces? places with
    | some digits => some (digits, places)
    | none => shortestFrom x tries (places + 1)

/-- Trailing zeros carry nothing. -/
def withoutZeros : Nat → Nat → Nat
  | 0, n => n
  | steps + 1, n => if n % 10 = 0 ∧ n ≠ 0 then withoutZeros steps (n / 10) else n

/-- The shortest decimal of a double that is not zero. -/
def shortest (x : Binary64) : Decimal :=
  let (n, d) := x.ratio
  let k := decimalExponent n d
  match shortestFrom x 17 1 with
  | none => ⟨0, 0⟩
  | some (digits, places) =>
    let carried := if Nat.pow 10 places ≤ digits then 1 else 0
    ⟨withoutZeros 20 digits, k + carried⟩

/-- How a double is written: positional between the two bounds on the decimal exponent, with at least
one digit after the point, and with a signed exponent outside them. -/
structure Style where
  positionalFrom : Int
  positionalBelow : Int

namespace Style

/-- Positional from `0.00001` up to sixteen digits before the point. -/
def compact : Style := ⟨-5, 16⟩

/-- Positional for every double: no decimal exponent lies outside these bounds. -/
def plain : Style := ⟨-400, 400⟩

end Style

def positional (digits : List Char) (exponent : Int) : List Char :=
  if exponent < 0 then
    ['0', '.'] ++ List.replicate (-exponent - 1).toNat '0' ++ digits
  else
    let whole := exponent.toNat + 1
    if digits.length ≤ whole then
      digits ++ List.replicate (whole - digits.length) '0' ++ ['.', '0']
    else digits.take whole ++ ['.'] ++ digits.drop whole

def scientific (digits : List Char) (exponent : Int) : List Char :=
  let mark := if exponent < 0 then ['e', '-'] else ['e', '+']
  let lead := match digits with
    | [] => []
    | [d] => [d]
    | d :: rest => d :: '.' :: rest
  lead ++ mark ++ Nat.toDigits 10 exponent.natAbs

def renderIn (style : Style) (x : Binary64) : List Char :=
  let sign := if x.negative then ['-'] else []
  if x.mantissa = 0 then sign ++ ['0', '.', '0']
  else
    let s := x.shortest
    let digits := Nat.toDigits 10 s.digits
    sign ++
      if style.positionalFrom ≤ s.exponent ∧ s.exponent < style.positionalBelow then
        positional digits s.exponent
      else scientific digits s.exponent

def render (x : Binary64) : List Char := x.renderIn .compact

end Tidings.Binary64
