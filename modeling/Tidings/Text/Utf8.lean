/-!
UTF-8. Bytes are read into characters and malformed parts; a malformed part is the longest run of
bytes that begins a character but does not complete it, or one byte that begins none.
-/
namespace Tidings.Text

/-- A character that has begun: how many bytes it still needs, the range of the next one, and the
value so far. -/
structure Pending where
  needed : Nat
  low : Nat
  high : Nat
  value : Nat

/-- What a byte says where a character may begin. -/
inductive Lead where
  | char (c : Char)
  | more (p : Pending)
  | malformed

def Lead.ofByte (byte : UInt8) : Lead :=
  let b := byte.toNat
  if b < 0x80 then .char (Char.ofNat b)
  else if b < 0xC2 then .malformed
  else if b < 0xE0 then .more ⟨1, 0x80, 0xBF, b - 0xC0⟩
  else if b < 0xF0 then
    .more ⟨2, if b = 0xE0 then 0xA0 else 0x80, if b = 0xED then 0x9F else 0xBF, b - 0xE0⟩
  else if b < 0xF5 then
    .more ⟨3, if b = 0xF0 then 0x90 else 0x80, if b = 0xF4 then 0x8F else 0xBF, b - 0xF0⟩
  else .malformed

/-- The characters that bytes stand for, `none` in the place of each malformed part. -/
def utf8Parts : Option Pending → List UInt8 → List (Option Char)
  | none, [] => []
  | some _, [] => [none]
  | none, b :: bs =>
    match Lead.ofByte b with
    | .char c => some c :: utf8Parts none bs
    | .more p => utf8Parts (some p) bs
    | .malformed => none :: utf8Parts none bs
  | some p, b :: bs =>
    if p.low ≤ b.toNat ∧ b.toNat ≤ p.high then
      let value := 64 * p.value + (b.toNat - 0x80)
      if p.needed ≤ 1 then some (Char.ofNat value) :: utf8Parts none bs
      else utf8Parts (some ⟨p.needed - 1, 0x80, 0xBF, value⟩) bs
    else
      none :: match Lead.ofByte b with
        | .char c => some c :: utf8Parts none bs
        | .more p => utf8Parts (some p) bs
        | .malformed => none :: utf8Parts none bs

def ofUtf8? (bytes : List UInt8) : Option String :=
  ((utf8Parts none bytes).mapM id).map String.ofList

/-- The text of any bytes, with the replacement character for malformed parts. -/
def ofUtf8Lossy (bytes : List UInt8) : String :=
  String.ofList ((utf8Parts none bytes).map (·.getD (Char.ofNat 0xFFFD)))

def toUtf8 (s : String) : List UInt8 :=
  s.toList.flatMap String.utf8EncodeChar

end Tidings.Text
