import Tidings.Id
import Tidings.Proofs.Scanning
/-!
The text of an identifier is read as that identifier.
-/
namespace Tidings

namespace Text

theorem hexNumber?_append (n : Nat) (cs ds : List Char) :
    hexNumber? n (cs ++ ds) = (hexNumber? n cs).bind fun m => hexNumber? m ds := by
  induction cs generalizing n with
  | nil => rfl
  | cons c cs ih =>
    rw [List.cons_append, hexNumber?, hexNumber?, Option.bind_assoc]
    exact congrArg _ (funext fun d => ih _)

/-- Padded digits are read as the number that they show, after what was read before. -/
theorem hexNumber?_padded (n places m : Nat) :
    hexNumber? n (padded 16 places m) = some (16 ^ places * n + m % 16 ^ places) := by
  induction places generalizing m with
  | zero => simp [padded, hexNumber?, Nat.mod_one]
  | succ places ih =>
    have hdigit : hexValue? (Nat.digitChar (m % 16)) = some (m % 16) :=
      hexValue?_digitChar (Nat.mod_lt _ (by decide))
    have hmod : m % 16 ^ (places + 1) = 16 * (m / 16 % 16 ^ places) + m % 16 := by
      rw [Nat.pow_succ', Nat.mod_mul]
      omega
    rw [padded, hexNumber?_append, ih, Option.bind_some, hexNumber?, hdigit, Option.bind_some, hexNumber?,
      hmod, Nat.pow_succ']
    refine congrArg some ?_
    rw [Nat.mul_add, ← Nat.mul_assoc]
    omega

end Text

namespace Id

theorem withoutHyphens?_groups {a b c d e : List Char} (ha : a.length = 8) (hb : b.length = 4)
    (hc : c.length = 4) (hd : d.length = 4) :
    withoutHyphens? (a ++ '-' :: (b ++ '-' :: (c ++ '-' :: (d ++ '-' :: e)))) =
      some (a ++ (b ++ (c ++ (d ++ e)))) := by
  have hpast {k : Nat} (xs : List Char) (h : xs.length ≤ k) : xs.drop k = [] := List.drop_eq_nil_of_le h
  simp [withoutHyphens?, List.getElem?_append, List.drop_append, ha, hb, hc, hd,
    hpast a (k := 9), hpast a (k := 14), hpast a (k := 19), hpast a (k := 24), hpast b (k := 5),
    hpast b (k := 10), hpast b (k := 15), hpast c (k := 5), hpast c (k := 10), hpast d (k := 5)]

theorem length_hyphenate {ds : List Char} (h : ds.length = 32) : (hyphenate ds).length = 36 := by
  simp [hyphenate, h]

theorem ofHyphenated?_hyphenate {ds : List Char} (h : ds.length = 32) :
    ofHyphenated? (hyphenate ds) = ofDigits? ds := by
  have hgroups : ds.take 8 ++ ((ds.drop 8).take 4 ++ ((ds.drop 12).take 4 ++
      ((ds.drop 16).take 4 ++ ds.drop 20))) = ds := by
    have hnext (k : Nat) : (ds.drop k).take 4 ++ ds.drop (k + 4) = ds.drop k := by
      rw [← List.drop_drop]
      exact List.take_append_drop 4 (ds.drop k)
    rw [hnext 16, hnext 12, hnext 8, List.take_append_drop]
  have hwithout : withoutHyphens? (hyphenate ds) = some ds := by
    rw [hyphenate, withoutHyphens?_groups (by simp [h]) (by simp [h]) (by simp [h]) (by simp [h]), hgroups]
  rw [ofHyphenated?, if_pos (length_hyphenate h), hwithout, Option.bind_some]

theorem length_digits (id : Id) : id.digits.length = 32 := Text.length_padded 16 32 _

theorem length_text (id : Id) : id.text.length = 36 := by
  rw [text, String.length_ofList, length_hyphenate id.length_digits]

theorem ofText?_text (id : Id) : ofText? id.text = some id := by
  have hlength := id.length_digits
  have hlt : id.bits.toNat < 16 ^ 32 := id.bits.isLt
  have hdigits : ofDigits? id.digits = some id := by
    rw [ofDigits?, if_pos hlength, digits, Text.hexNumber?_padded, Nat.mul_zero, Nat.zero_add,
      Nat.mod_eq_of_lt hlt]
    simp
  rw [ofText?, text, String.toList_ofList, ofChars?, length_hyphenate hlength]
  exact (ofHyphenated?_hyphenate hlength).trans hdigits

end Id

end Tidings
