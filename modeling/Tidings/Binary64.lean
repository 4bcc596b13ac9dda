/-!
Double precision numbers as exact dyadic fractions. Every operation is done on whole numbers: the
exact quotient is formed and then rounded once, a half going to the even neighbour.
-/
namespace Tidings

/-- A finite double: `mantissa * 2 ^ exponent` with a sign. The mantissa has at most 53 bits and the
exponent is at least -1074; unless it is -1074 the mantissa has exactly 53 bits. -/
structure Binary64 where
  negative : Bool
  mantissa : Nat
  exponent : Int
deriving DecidableEq, Repr

namespace Binary64

def leastExponent : Int := -1074

def greatestExponent : Int := 971

def zero (negative : Bool) : Binary64 := ⟨negative, 0, leastExponent⟩

/-- The magnitude as a fraction of whole numbers. -/
def ratio (x : Binary64) : Nat × Nat :=
  if x.exponent ≥ 0 then (x.mantissa * Nat.pow 2 x.exponent.toNat, 1)
  else (x.mantissa, Nat.pow 2 (-x.exponent).toNat)

/-- `num / den` rounded to a whole number, a half to the even side. -/
def roundQuotient (num den : Nat) : Nat :=
  let q := num / den
  let r := num % den
  if 2 * r < den then q
  else if 2 * r > den then q + 1
  else q + q % 2

/-- The fraction `num / den` divided by `2 ^ e`. -/
def shifted (num den : Nat) (e : Int) : Nat × Nat :=
  if e ≥ 0 then (num, den * Nat.pow 2 e.toNat) else (num * Nat.pow 2 (-e).toNat, den)

/-- The exponent at which `num / den` has 53 bits before the point, or the least one. -/
def scaleOf (num den : Nat) : Int :=
  let e : Int := Nat.log2 num - Nat.log2 den - 52
  let (n, d) := shifted num den e
  max leastExponent (if n / d < Nat.pow 2 52 then e - 1 else e)

/-- The double nearest to `num / den`; none when that is beyond the greatest double. -/
def ofRatio? (negative : Bool) (num den : Nat) : Option Binary64 :=
  if num = 0 then some (zero negative)
  else
    let e := scaleOf num den
    let (n, d) := shifted num den e
    let m := roundQuotient n d
    let (m, e) := if m = Nat.pow 2 53 then (Nat.pow 2 52, e + 1) else (m, e)
    if e > greatestExponent then none else some ⟨negative, m, e⟩

def ofNat? (n : Nat) : Option Binary64 :=
  ofRatio? false n 1

/-- The magnitudes multiplied, with the sign of the first. -/
def scaleUp? (x y : Binary64) : Option Binary64 :=
  ofRatio? x.negative (x.ratio.1 * y.ratio.1) (x.ratio.2 * y.ratio.2)

/-- The magnitudes divided, with the sign of the first. -/
def scaleDown? (x y : Binary64) : Option Binary64 :=
  ofRatio? x.negative (x.ratio.1 * y.ratio.2) (x.ratio.2 * y.ratio.1)

def powerOfTen? (k : Nat) : Option Binary64 :=
  ofNat? (Nat.pow 10 k)

/-- Divides by `10 ^ 308` while more than 308 places remain, then by the rest. A 64-bit significand is
zero after two such divisions, so three steps are enough. -/
def dropPlaces? : Nat → Binary64 → Nat → Option Binary64
  | 0, x, _ => some (zero x.negative)
  | steps + 1, x, places =>
    if x.mantissa = 0 then some x
    else if places ≤ 308 then (powerOfTen? places).bind x.scaleDown?
    else ((powerOfTen? 308).bind x.scaleDown?).bind fun y => dropPlaces? steps y (places - 308)

/-- A decimal significand below `2 ^ 64` with a power of ten: the significand is rounded to a double
first and the product or quotient with the power after it, so the last bit may differ from that of
the nearest double. None beyond the greatest double. -/
def ofDecimal? (negative : Bool) (significand : Nat) (exponent : Int) : Option Binary64 :=
  (ofRatio? negative significand 1).bind fun x =>
    if exponent < 0 then dropPlaces? 4 x (-exponent).toNat
    else if exponent ≤ 308 then (powerOfTen? exponent.toNat).bind x.scaleUp?
    else if x.mantissa = 0 then some x
    else none

/-- The double nearest to `whole + x`, for a whole number that a double can hold. -/
def addWhole? (whole : Int) (x : Binary64) : Option Binary64 :=
  let (n, d) := x.ratio
  let sum : Int := whole * d + (if x.negative then -(n : Int) else n)
  ofRatio? (sum < 0) sum.natAbs d

end Binary64

end Tidings
