import Tidings.Text.Digits
/-!
Identifiers of 128 bits. They are written as 32 lower case hexadecimal digits in five groups; reading
also takes the digits without hyphens, the groups in braces, and the groups after `urn:uuid:`.
-/
namespace Tidings

/-- The identifier of a notification or of a running service. -/
structure Id where
  bits : BitVec 128
deriving DecidableEq, Repr, Inhabited

namespace Id

def digits (id : Id) : List Char :=
  Text.padded 16 32 id.bits.toNat

/-- Puts hyphens after the digits 8, 12, 16 and 20. -/
def hyphenate (ds : List Char) : List Char :=
  ds.take 8 ++ '-' :: ((ds.drop 8).take 4 ++ '-' :: ((ds.drop 12).take 4 ++ '-' ::
    ((ds.drop 16).take 4 ++ '-' :: ds.drop 20)))

def text (id : Id) : String :=
  String.ofList (hyphenate id.digits)

/-- Reads 32 digits in either case. -/
def ofDigits? (ds : List Char) : Option Id :=
  if ds.length = 32 then (Text.hexNumber? 0 ds).map fun n => ⟨BitVec.ofNat 128 n⟩ else none

/-- Takes the four hyphens out of 36 characters; none when they stand elsewhere. -/
def withoutHyphens? (cs : List Char) : Option (List Char) :=
  if cs[8]? = some '-' ∧ cs[13]? = some '-' ∧ cs[18]? = some '-' ∧ cs[23]? = some '-' then
    some (cs.take 8 ++ ((cs.drop 9).take 4 ++ ((cs.drop 14).take 4 ++
      ((cs.drop 19).take 4 ++ cs.drop 24))))
  else none

def ofHyphenated? (cs : List Char) : Option Id :=
  if cs.length = 36 then (withoutHyphens? cs).bind ofDigits? else none

/-- What stands in front of the groups in the longest form, in either case. -/
def urnMark : List Char := "urn:uuid:".toList

/-- Reads any of the four written forms, told apart by their lengths. -/
def ofChars? (cs : List Char) : Option Id :=
  match cs.length with
  | 32 => ofDigits? cs
  | 36 => ofHyphenated? cs
  | 38 =>
    if cs.head? = some '{' ∧ cs.getLast? = some '}' then ofHyphenated? (cs.drop 1).dropLast
    else none
  | 45 =>
    if (cs.take 9).map Char.toLower = urnMark then ofHyphenated? (cs.drop 9) else none
  | _ => none

def ofText? (s : String) : Option Id :=
  ofChars? s.toList

end Id

end Tidings
