import Tidings.Json.Value
import Tidings.Text.Digits
/-!
The tokens of a JSON text. Reading goes one character at a time: a state says what the token that is
being read has so far, and `Scan.step` takes one character more.

A string or number that is well formed may still denote nothing: a half of a surrogate pair on its
own, or a number beyond the greatest double. Such a token is kept without a value, because a reader
that skips it has no cause to complain.
-/
namespace Tidings.Json

inductive Token where
  | beginArr
  | endArr
  | beginObj
  | endObj
  | comma
  | colon
  | null
  | bool (b : Bool)
  | num (n : Option Number)
  | str (s : Option String)
deriving DecidableEq, Repr

def greatestWord : Nat := Nat.pow 2 64 - 1

/-- A decimal significand that is still below `2 ^ 64`, the power of ten that goes with it, and whether
digits have been dropped since the last point. -/
structure Significand where
  value : Nat
  exponent : Int
  full : Bool

/-- A digit before the point: once the significand is full, it only counts a power of ten. -/
def Significand.whole (s : Significand) (c : Char) : Significand :=
  let next := 10 * s.value + (c.toNat - 48)
  if ¬ s.full ∧ next ≤ greatestWord then { s with value := next }
  else { s with exponent := s.exponent + 1, full := true }

/-- A digit after the point: once the significand is full, it is dropped. -/
def Significand.fraction (s : Significand) (c : Char) : Significand :=
  let next := 10 * s.value + (c.toNat - 48)
  if ¬ s.full ∧ next ≤ greatestWord then { s with value := next, exponent := s.exponent - 1 }
  else { s with full := true }

structure Numeral where
  negative : Bool
  whole : List Char
  fraction : List Char
  exponent : Option (Bool × List Char)

/-- Splits the text of a number; none when it is not one. -/
def Numeral.ofText? (text : List Char) : Option Numeral := do
  let (negative, cs) := match text with
    | '-' :: rest => (true, rest)
    | _ => (false, text)
  let (whole, cs) := cs.span Char.isDigit
  guard (whole ≠ [] ∧ (whole.head? = some '0' → whole.length = 1))
  let (fraction, cs) ← match cs with
    | '.' :: rest =>
      let (digits, rest) := rest.span Char.isDigit
      if digits = [] then none else some (digits, rest)
    | _ => some ([], cs)
  let exponent ← match cs with
    | [] => some none
    | e :: rest =>
      if e = 'e' ∨ e = 'E' then
        let (down, digits) := match rest with
          | '+' :: rest => (false, rest)
          | '-' :: rest => (true, rest)
          | _ => (false, rest)
        if digits ≠ [] ∧ digits.all Char.isDigit then some (some (down, digits)) else none
      else none
  some ⟨negative, whole, fraction, exponent⟩

/-- The number with a significand and a power of ten. An exponent beyond 32 bits is out of range when
it points up, and gives zero when it points down. -/
def Numeral.real? (n : Numeral) : Option Binary64 :=
  let s := n.whole.foldl Significand.whole ⟨0, 0, false⟩
  let s := n.fraction.foldl Significand.fraction { s with full := false }
  match n.exponent with
  | none => Binary64.ofDecimal? n.negative s.value s.exponent
  | some (down, digits) =>
    let e := Text.decimalValue digits
    if Nat.pow 2 31 ≤ e then
      if s.value ≠ 0 ∧ ¬ down then none else some (Binary64.zero n.negative)
    else Binary64.ofDecimal? n.negative s.value (s.exponent + (if down then -(e : Int) else e))

/-- The number of a text: whole when it is written so and fits 64 bits, else a double. A negative zero
is a double. -/
def Numeral.number? (n : Numeral) : Option Number :=
  let value := Text.decimalValue n.whole
  let plain := n.fraction.isEmpty && n.exponent.isNone
  if plain && !n.negative && value ≤ greatestWord then some (.int value)
  else if plain && n.negative && 0 < value && value ≤ Nat.pow 2 63 then some (.int (-value))
  else n.real?.map .real

/-- What the token that is being read has so far; texts are held last character first. A string that
ends in the first half of a surrogate pair keeps that half until its partner comes. -/
inductive Partial where
  | none
  | word (text : List Char)
  | number (text : List Char)
  | string (text : Option (List Char))
  | paired (text : Option (List Char)) (high : Nat)
  | escaped (text : Option (List Char)) (high : Option Nat)
  | unicode (text : Option (List Char)) (high : Option Nat) (digits : Nat) (value : Nat)

/-- The tokens read so far, the last one first, and the token that is being read. -/
structure Scan where
  tokens : List Token
  state : Partial

def Scan.start : Scan := ⟨[], .none⟩

def isNumberChar (c : Char) : Bool :=
  c.isDigit || c = '-' || c = '+' || c = '.' || c = 'e' || c = 'E'

def wordToken? (word : List Char) : Option Token :=
  if word = ['n', 'u', 'l', 'l'] then some .null
  else if word = ['t', 'r', 'u', 'e'] then some (.bool true)
  else if word = ['f', 'a', 'l', 's', 'e'] then some (.bool false)
  else none

/-- The character that may start a token, or a space between tokens. -/
def Scan.begin? (tokens : List Token) (c : Char) : Option Scan :=
  if c = ' ' ∨ c = '\n' ∨ c = '\t' ∨ c = '\r' then some ⟨tokens, .none⟩
  else if c = '[' then some ⟨.beginArr :: tokens, .none⟩
  else if c = ']' then some ⟨.endArr :: tokens, .none⟩
  else if c = '{' then some ⟨.beginObj :: tokens, .none⟩
  else if c = '}' then some ⟨.endObj :: tokens, .none⟩
  else if c = ',' then some ⟨.comma :: tokens, .none⟩
  else if c = ':' then some ⟨.colon :: tokens, .none⟩
  else if c = '"' then some ⟨tokens, .string (some [])⟩
  else if c = '-' ∨ c.isDigit then some ⟨tokens, .number [c]⟩
  else if c.isLower then some ⟨tokens, .word [c]⟩
  else none

def Scan.flush? : Scan → Option (List Token)
  | ⟨tokens, .none⟩ => some tokens
  | ⟨tokens, .word text⟩ => (wordToken? text.reverse).map (· :: tokens)
  | ⟨tokens, .number text⟩ =>
    (Numeral.ofText? text.reverse).map fun n => .num n.number? :: tokens
  | _ => none

def push (text : Option (List Char)) (c : Char) : Option (List Char) :=
  text.map (c :: ·)

def simpleEscape? (c : Char) : Option Char :=
  if c = '"' ∨ c = '\\' ∨ c = '/' then some c
  else if c = 'b' then some '\x08'
  else if c = 'f' then some '\x0c'
  else if c = 'n' then some '\n'
  else if c = 'r' then some '\r'
  else if c = 't' then some '\t'
  else none

def isHighSurrogate (n : Nat) : Bool := 0xD800 ≤ n && n < 0xDC00

def isLowSurrogate (n : Nat) : Bool := 0xDC00 ≤ n && n < 0xE000

/-- A finished `\u` escape, perhaps the second half of a pair. A half without its partner leaves the
string without a value. -/
def endUnicode (text : Option (List Char)) (high : Option Nat) (n : Nat) : Partial :=
  match high with
  | some h =>
    if isLowSurrogate n then
      .string (push text (Char.ofNat (0x10000 + (h - 0xD800) * 0x400 + (n - 0xDC00))))
    else .string none
  | none =>
    if isHighSurrogate n then .paired text n
    else if isLowSurrogate n then .string none
    else .string (push text (Char.ofNat n))

/-- A plain character inside a string. -/
def Scan.inString? (tokens : List Token) (text : Option (List Char)) (c : Char) : Option Scan :=
  if c = '"' then some ⟨.str (text.map fun t => String.ofList t.reverse) :: tokens, .none⟩
  else if c = '\\' then some ⟨tokens, .escaped text none⟩
  else if c.toNat < 32 then none
  else some ⟨tokens, .string (push text c)⟩

def Scan.step? (s : Scan) (c : Char) : Option Scan :=
  match s.state with
  | .none => Scan.begin? s.tokens c
  | .word text =>
    if c.isLower then some ⟨s.tokens, .word (c :: text)⟩
    else s.flush?.bind (Scan.begin? · c)
  | .number text =>
    if isNumberChar c then some ⟨s.tokens, .number (c :: text)⟩
    else s.flush?.bind (Scan.begin? · c)
  | .string text => Scan.inString? s.tokens text c
  | .paired text high =>
    if c = '\\' then some ⟨s.tokens, .escaped text (some high)⟩
    else Scan.inString? s.tokens none c
  | .escaped text high =>
    if c = 'u' then some ⟨s.tokens, .unicode text high 0 0⟩
    else (simpleEscape? c).map fun e =>
      ⟨s.tokens, .string (if high.isSome then none else push text e)⟩
  | .unicode text high digits value =>
    (Text.hexValue? c).map fun d =>
      if digits = 3 then ⟨s.tokens, endUnicode text high (16 * value + d)⟩
      else ⟨s.tokens, .unicode text high (digits + 1) (16 * value + d)⟩

def tokens? (text : List Char) : Option (List Token) :=
  ((text.foldlM Scan.step? Scan.start).bind Scan.flush?).map List.reverse

end Tidings.Json
