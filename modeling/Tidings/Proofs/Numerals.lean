import Mathlib
import Tidings.Json.Printer
import Tidings.Json.Token
/-!
The texts of numbers. A whole number of 64 bits is read as itself, and every number is written in the
characters of which a reader makes a number.
-/
namespace Tidings

/-- Only zero begins with a zero. -/
theorem Text.head?_toDigits {n : Nat} (h : 0 < n) : (Nat.toDigits 10 n).head? ≠ some '0' := by
  induction n using Nat.strongRecOn with
  | ind n ih =>
    by_cases hn : n < 10
    · have hall : ∀ n < 10, 0 < n → Nat.digitChar n ≠ '0' := by decide
      rw [Nat.toDigits_of_lt_base hn]
      simpa using hall n hn h
    · have hpos : 0 < n / 10 := Nat.div_pos (Nat.le_of_not_lt hn) (by decide)
      rw [Nat.toDigits_of_base_le (by decide) (Nat.le_of_not_lt hn),
        List.head?_append, Option.or_of_isSome (by simp)]
      exact ih (n / 10) (Nat.div_lt_self h (by decide)) hpos

namespace Json

section Reading

/-- The parts of a whole number that is written with its digits alone, or with a sign in front. -/
theorem ofText?_digits {ds : List Char} (h : ∀ c ∈ ds, c.isDigit) (hne : ds ≠ [])
    (hzero : ds.head? = some '0' → ds.length = 1) :
    Numeral.ofText? ds = some ⟨false, ds, [], none⟩ ∧
      Numeral.ofText? ('-' :: ds) = some ⟨true, ds, [], none⟩ := by
  have hspan : ds.span Char.isDigit = (ds, []) := by
    rw [List.span_eq_takeWhile_dropWhile, List.takeWhile_eq_self_iff.2 h, List.dropWhile_eq_nil_iff.2 h]
  have hguard : (guard (ds ≠ [] ∧ (ds.head? = some '0' → ds.length = 1)) : Option Unit) = some () :=
    if_pos ⟨hne, hzero⟩
  constructor
  · have hsign : ∀ rest, ds ≠ '-' :: rest := by
      rintro rest rfl
      exact absurd (h '-' List.mem_cons_self) (by decide)
    unfold Numeral.ofText?
    split
    next negative cs hparts =>
      have hsame : false = negative ∧ ds = cs := by simpa [hsign] using hparts
      obtain ⟨rfl, rfl⟩ := hsame
      simp only [hspan]
      rw [hguard]
      rfl
  · unfold Numeral.ofText?
    simp only [hspan]
    rw [hguard]
    rfl

theorem number?_digits {ds : List Char} (h : Text.decimalValue ds ≤ greatestWord) :
    Numeral.number? ⟨false, ds, [], none⟩ = some (.int (Text.decimalValue ds)) := by
  simp [Numeral.number?, h]

theorem number?_signed {ds : List Char} (hpos : 0 < Text.decimalValue ds)
    (h : Text.decimalValue ds ≤ Nat.pow 2 63) :
    Numeral.number? ⟨true, ds, [], none⟩ = some (.int (-Text.decimalValue ds)) := by
  simp [Numeral.number?, hpos, h]

/-- Whether a whole number fits 64 bits, with or without sign. -/
def IsWord (i : Int) : Prop := -2 ^ 63 ≤ i ∧ i < 2 ^ 64

theorem ofText?_render {i : Int} (h : IsWord i) :
    ∃ n, Numeral.ofText? (Number.int i).render = some n ∧ n.number? = some (.int i) := by
  let ds := Nat.toDigits 10 i.natAbs
  have hdigits : ∀ c ∈ ds, c.isDigit := fun c hc =>
    Nat.isDigit_of_mem_toDigits (by decide) (by decide) hc
  have hzero : ds.head? = some '0' → ds.length = 1 := by
    intro hz
    have hnone : i.natAbs = 0 := by
      by_contra hne
      exact Text.head?_toDigits (Nat.pos_of_ne_zero hne) hz
    simp [ds, hnone]
  have hvalue : Text.decimalValue ds = i.natAbs := Nat.ofDigitChars_ten_toDigits
  obtain ⟨hplain, hsigned⟩ := ofText?_digits hdigits Nat.toDigits_ne_nil hzero
  obtain ⟨hlow, hhigh⟩ := h
  rw [Number.render]
  split
  · next hneg =>
    have hle : Text.decimalValue ds ≤ Nat.pow 2 63 := by
      rw [hvalue]
      show i.natAbs ≤ 2 ^ 63
      omega
    have hpos : 0 < Text.decimalValue ds := by omega
    have hback : -(Text.decimalValue ds : Int) = i := by omega
    exact ⟨_, hsigned, by rw [number?_signed hpos hle, hback]⟩
  · next hneg =>
    have hle : Text.decimalValue ds ≤ greatestWord := by
      rw [hvalue]
      show i.natAbs ≤ 2 ^ 64 - 1
      omega
    have hback : (Text.decimalValue ds : Int) = i := by omega
    exact ⟨_, hplain, by rw [number?_digits hle, hback]⟩

/-- A number that is read back from its text. Of the doubles not all are, as a reader rounds twice. -/
def Number.IsLegible (n : Number) : Prop :=
  (Numeral.ofText? n.render).bind Numeral.number? = some n

instance (n : Number) : Decidable n.IsLegible := inferInstanceAs (Decidable (_ = _))

theorem Number.isLegible_int {i : Int} (h : IsWord i) : (Number.int i).IsLegible := by
  obtain ⟨n, hn, hvalue⟩ := ofText?_render h
  rw [IsLegible, hn, Option.bind_some, hvalue]

end Reading

section Writing

theorem isNumberChar_of_isDigit {c : Char} (h : c.isDigit) : isNumberChar c := by
  simp [isNumberChar, h]

/-- A text of digits, signs, points and marks of an exponent that begins with a minus sign or a digit. -/
structure IsNumberText (cs : List Char) : Prop where
  chars : ∀ c ∈ cs, isNumberChar c
  head : ∃ c ∈ cs.head?, c = '-' ∨ c.isDigit

theorem IsNumberText.append {cs ds : List Char} (h : IsNumberText cs) (hds : ∀ c ∈ ds, isNumberChar c) :
    IsNumberText (cs ++ ds) := by
  obtain ⟨c, hc, hfirst⟩ := h.head
  refine ⟨?_, c, ?_, hfirst⟩
  · exact List.forall_mem_append.2 ⟨h.chars, hds⟩
  · rw [List.head?_append, hc]
    rfl

theorem IsNumberText.signed {cs : List Char} (h : IsNumberText cs) : IsNumberText ('-' :: cs) :=
  ⟨List.forall_mem_cons.2 ⟨by decide, h.chars⟩, '-', rfl, .inl rfl⟩

theorem isNumberText_digits {ds : List Char} (h : ∀ c ∈ ds, c.isDigit) (hne : ds ≠ []) : IsNumberText ds := by
  obtain ⟨d, rest, rfl⟩ := List.exists_cons_of_ne_nil hne
  exact ⟨fun c hc => isNumberChar_of_isDigit (h c hc), d, rfl, .inr (h d List.mem_cons_self)⟩

theorem isDigit_of_mem_zeros {c : Char} {n : Nat} (h : c ∈ List.replicate n '0') : isNumberChar c := by
  rw [List.eq_of_mem_replicate h]
  rfl

theorem isNumberText_positional {ds : List Char} (h : ∀ c ∈ ds, c.isDigit) (hne : ds ≠ []) (e : Int) :
    IsNumberText (Binary64.positional ds e) := by
  have hds : ∀ c ∈ ds, isNumberChar c := fun c hc => isNumberChar_of_isDigit (h c hc)
  have hzero : IsNumberText ['0', '.'] := ⟨by simp [isNumberChar], '0', rfl, .inr rfl⟩
  unfold Binary64.positional
  split
  · exact (hzero.append fun c hc => isDigit_of_mem_zeros hc).append hds
  dsimp only
  split
  · refine ((isNumberText_digits h hne).append fun c hc => isDigit_of_mem_zeros hc).append (by simp [isNumberChar])
  · have hfront : IsNumberText (ds.take (e.toNat + 1)) :=
      isNumberText_digits (fun c hc => h c (List.mem_of_mem_take hc)) (by simp [hne])
    exact (hfront.append (by simp [isNumberChar])).append fun c hc => hds c (List.mem_of_mem_drop hc)

theorem isNumberText_scientific {ds : List Char} (h : ∀ c ∈ ds, c.isDigit) (hne : ds ≠ []) (e : Int) :
    IsNumberText (Binary64.scientific ds e) := by
  have hmark : ∀ c ∈ (if e < 0 then ['e', '-'] else ['e', '+']), isNumberChar c := by
    split <;> simp [isNumberChar]
  have hexponent : ∀ c ∈ Nat.toDigits 10 e.natAbs, isNumberChar c := fun c hc =>
    isNumberChar_of_isDigit (Nat.isDigit_of_mem_toDigits (by decide) (by decide) hc)
  unfold Binary64.scientific
  refine IsNumberText.append (IsNumberText.append ?_ hmark) hexponent
  match ds with
  | [] => exact absurd rfl hne
  | [d] => exact isNumberText_digits h hne
  | d :: d' :: rest =>
    obtain ⟨hd, hrest⟩ := List.forall_mem_cons.1 h
    have hfront : IsNumberText [d] := isNumberText_digits (List.forall_mem_singleton.2 hd) (by simp)
    exact hfront.append (List.forall_mem_cons.2 ⟨by decide, fun c hc => isNumberChar_of_isDigit (hrest c hc)⟩)

/-- A number is written as such a text. -/
theorem isNumberText_render (n : Number) : IsNumberText n.render := by
  have hdigits (n : Nat) : ∀ c ∈ Nat.toDigits 10 n, c.isDigit := fun c hc =>
    Nat.isDigit_of_mem_toDigits (by decide) (by decide) hc
  have hwhole (n : Nat) : IsNumberText (Nat.toDigits 10 n) :=
    isNumberText_digits (hdigits n) Nat.toDigits_ne_nil
  cases n with
  | int i =>
    rw [Number.render]
    split
    · exact (hwhole _).signed
    · exact hwhole _
  | real x =>
    have hsign {cs : List Char} (h : IsNumberText cs) : IsNumberText ((if x.negative then ['-'] else []) ++ cs) := by
      split
      · exact h.signed
      · exact h
    rw [Number.render, Binary64.render, Binary64.renderIn]
    dsimp only
    split
    · exact hsign ⟨by simp [isNumberChar], '0', rfl, .inr rfl⟩
    · refine hsign ?_
      split
      · exact isNumberText_positional (hdigits _) Nat.toDigits_ne_nil _
      · exact isNumberText_scientific (hdigits _) Nat.toDigits_ne_nil _

end Writing

end Json

end Tidings
