import Tidings.Text.Digits
import Tidings.Text.Utf8
/-!
Percent escapes in addresses, cookies and query strings. An escape that is not `%` with two
hexadecimal digits stays as it is.
-/
namespace Tidings.Text

def hexByte? (b : UInt8) : Option Nat :=
  hexValue? (Char.ofNat b.toNat)

/-- Replaces each escape by its byte. -/
def percentDecode : List UInt8 → List UInt8
  | 37 :: a :: b :: bs =>
    match hexByte? a, hexByte? b with
    | some h, some l => UInt8.ofNat (16 * h + l) :: percentDecode bs
    | _, _ => 37 :: percentDecode (a :: b :: bs)
  | b :: bs => b :: percentDecode bs
  | [] => []

/-- The text that an escaped text stands for, if its bytes are well formed. -/
def unescape? (s : String) : Option String :=
  ofUtf8? (percentDecode (toUtf8 s))

/-- The text that a part of a query string stands for: a plus sign is a space. -/
def unescapeForm (s : String) : String :=
  ofUtf8Lossy (percentDecode ((toUtf8 s).map fun b => if b = 43 then 32 else b))

end Tidings.Text
