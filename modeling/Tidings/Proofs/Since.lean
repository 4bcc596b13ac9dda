import Mathlib.Algebra.Order.Floor.Semifield
import Mathlib.Data.List.TakeWhile
import Mathlib.Data.Rat.Floor
import Mathlib.Tactic.NormNum
import Tidings.Http.Since
/-!
The times that a client can ask for. Seconds are written in decimal digits, with more digits after a point for
a fraction and white space around. What is written so is read to the nanosecond below, and nothing else is
read.
-/
namespace Tidings

namespace Text

/-- What is left of a text without the white space at its ends. -/
structure IsTrimmed (cs core : List Char) : Prop where
  around : ∃ before after, cs = before ++ (core ++ after) ∧ (∀ c ∈ before, isBlank c) ∧ ∀ c ∈ after, isBlank c
  head : ∀ c ∈ core.head?, ¬ isBlank c
  last : ∀ c ∈ core.getLast?, ¬ isBlank c

theorem dropWhile_isBlank {cs : List Char} (h : ∀ c ∈ cs.head?, ¬ isBlank c) : cs.dropWhile isBlank = cs := by
  cases cs with
  | nil => rfl
  | cons c cs => simp [h c rfl]

theorem head_dropWhile_isBlank (cs : List Char) : ∀ c ∈ (cs.dropWhile isBlank).head?, ¬ isBlank c := by
  intro c hc
  have hnot := List.head?_dropWhile_not isBlank cs
  rw [hc] at hnot
  simpa using hnot

theorem isTrimmed_iff {s : String} {core : List Char} : IsTrimmed s.toList core ↔ (trim s).toList = core := by
  rw [trim, String.toList_ofList, trimEnd, trimStart]
  constructor
  · rintro ⟨⟨before, after, hs, hbefore, hafter⟩, hhead, hlast⟩
    have hend : ((core ++ after).reverse.dropWhile isBlank).reverse = core := by
      rw [List.reverse_append, List.dropWhile_append_of_pos fun c hc => hafter c (List.mem_reverse.1 hc),
        dropWhile_isBlank fun c hc => hlast c (by rwa [List.head?_reverse] at hc), List.reverse_reverse]
    rw [hs, List.dropWhile_append_of_pos hbefore]
    cases core with
    | nil =>
      have hall : after.dropWhile isBlank = [] := List.dropWhile_eq_nil_iff.2 hafter
      rw [List.nil_append, hall]
      rfl
    | cons c core =>
      have hall : ((c :: core) ++ after).dropWhile isBlank = (c :: core) ++ after := dropWhile_isBlank hhead
      rw [hall, hend]
  · rintro rfl
    let rest := s.toList.dropWhile isBlank
    have hrest : rest = (rest.reverse.dropWhile isBlank).reverse ++ (rest.reverse.takeWhile isBlank).reverse := by
      rw [← List.reverse_append, List.takeWhile_append_dropWhile, List.reverse_reverse]
    refine ⟨⟨s.toList.takeWhile isBlank, (rest.reverse.takeWhile isBlank).reverse, ?_, ?_, ?_⟩, ?_, ?_⟩
    · rw [← hrest, List.takeWhile_append_dropWhile]
    · exact fun c hc => List.mem_takeWhile_imp hc
    · exact fun c hc => List.mem_takeWhile_imp (List.mem_reverse.1 hc)
    · intro c hc
      refine head_dropWhile_isBlank s.toList c ?_
      show c ∈ rest.head?
      rw [hrest, List.head?_append, Option.mem_def.1 hc]
      rfl
    · intro c hc
      rw [List.getLast?_reverse] at hc
      exact head_dropWhile_isBlank rest.reverse c hc

theorem decimalValue_append (cs ds : List Char) :
    decimalValue (cs ++ ds) = 10 ^ ds.length * decimalValue cs + decimalValue ds := by
  rw [decimalValue, Nat.ofDigitChars_append, Nat.ofDigitChars_eq_ofDigitChars_zero]
  rfl

theorem decimalValue_lt {ds : List Char} (h : ∀ c ∈ ds, c.isDigit) : decimalValue ds < 10 ^ ds.length := by
  induction ds with
  | nil => exact Nat.one_pos
  | cons d ds ih =>
    obtain ⟨hd, hds⟩ := List.forall_mem_cons.1 h
    have hdigit : decimalValue [d] ≤ 9 := by
      have hnine : d.toNat ≤ 57 := (Char.isDigit_iff_toNat.1 hd).2
      show 10 * 0 + (d.toNat - 48) ≤ 9
      omega
    have hsplit : decimalValue (d :: ds) = 10 ^ ds.length * decimalValue [d] + decimalValue ds :=
      decimalValue_append [d] ds
    have hle := Nat.mul_le_mul_left (10 ^ ds.length) hdigit
    have hlt := ih hds
    rw [List.length_cons, Nat.pow_succ]
    omega

end Text

namespace Http

/-- Digits, or digits and a point with more digits or none after it. -/
inductive IsDecimal : List Char → List Char → List Char → Prop where
  | whole {ds : List Char} (hne : ds ≠ []) (hds : ∀ c ∈ ds, c.isDigit) : IsDecimal ds ds []
  | pointed {ds fs : List Char} (hne : ds ≠ []) (hds : ∀ c ∈ ds, c.isDigit) (hfs : ∀ c ∈ fs, c.isDigit) :
    IsDecimal (ds ++ '.' :: fs) ds fs

/-- A text is a decimal with these digits before and after the point, between white space. -/
def Writes (text : String) (ds fs : List Char) : Prop :=
  ∃ core, Text.IsTrimmed text.toList core ∧ IsDecimal core ds fs

/-- The fraction that digits after a point stand for. -/
def fractionOf (fs : List Char) : ℚ := Text.decimalValue fs / 10 ^ fs.length

theorem not_mem_of_isDigit {ds : List Char} (h : ∀ c ∈ ds, c.isDigit) : '.' ∉ ds := fun hm => by
  have hdot := h '.' hm
  contradiction

theorem isDecimal_iff {cs ds fs : List Char} : IsDecimal cs ds fs ↔ (Text.cut '.' cs).1 = ds ∧
    (Text.cut '.' cs).2.getD [] = fs ∧ ds ≠ [] ∧ (∀ c ∈ ds, c.isDigit) ∧ ∀ c ∈ fs, c.isDigit := by
  constructor
  · intro h
    cases h with
    | whole hne hds =>
      rw [Text.cut_of_not_mem (not_mem_of_isDigit hds)]
      exact ⟨rfl, rfl, hne, hds, by simp⟩
    | pointed hne hds hfs =>
      rw [Text.cut_append (not_mem_of_isDigit hds)]
      exact ⟨rfl, rfl, hne, hds, hfs⟩
  · rintro ⟨hcut, rfl, hne, hds, hfs⟩
    cases hafter : (Text.cut '.' cs).2 with
    | none =>
      obtain ⟨rfl, _⟩ := Text.cut_eq_none (Prod.ext hcut hafter)
      exact .whole hne hds
    | some after =>
      obtain ⟨rfl, _⟩ := Text.cut_eq_some (Prod.ext hcut hafter)
      rw [hafter] at hfs
      exact .pointed hne hds hfs

theorem nanosOf_eq_div {fs : List Char} (h : ∀ c ∈ fs, c.isDigit) :
    nanosOf fs = Text.decimalValue fs * 10 ^ 9 / 10 ^ fs.length := by
  rcases Nat.le_total fs.length 9 with hle | hle
  · obtain ⟨k, hk⟩ := Nat.exists_eq_add_of_le hle
    have hpadded : (fs ++ List.replicate 9 '0').take 9 = fs ++ List.replicate k '0' := by
      rw [List.take_append, List.take_of_length_le hle, List.take_replicate]
      congr
      omega
    have hzeros : Text.decimalValue (List.replicate k '0') = 0 := Nat.ofDigitChars_replicate_zero
    rw [nanosOf, hpadded, Text.decimalValue_append, hzeros, hk, Nat.pow_add, List.length_replicate,
      ← Nat.mul_assoc, Nat.mul_right_comm, Nat.mul_div_cancel _ (Nat.pow_pos (by decide))]
    rw [Nat.add_zero, Nat.mul_comm]
  · obtain ⟨k, hk⟩ := Nat.exists_eq_add_of_le hle
    have hlength : (fs.drop 9).length = k := by rw [List.length_drop]; omega
    have hrest : Text.decimalValue (fs.drop 9) < 10 ^ k := by
      rw [← hlength]
      exact Text.decimalValue_lt fun c hc => h c (List.mem_of_mem_drop hc)
    have hsplit : Text.decimalValue fs =
        10 ^ k * Text.decimalValue (fs.take 9) + Text.decimalValue (fs.drop 9) := by
      rw [← hlength, ← Text.decimalValue_append, List.take_append_drop]
    rw [nanosOf, List.take_append_of_le_length hle, hsplit, hk, Nat.pow_add, Nat.mul_comm (10 ^ 9) (10 ^ k),
      Nat.mul_div_mul_right _ _ (by decide), Nat.mul_add_div (Nat.pow_pos (by decide)),
      Nat.div_eq_of_lt hrest, Nat.add_zero]

theorem nanosOf_eq_floor {fs : List Char} (h : ∀ c ∈ fs, c.isDigit) : nanosOf fs = ⌊fractionOf fs * 10 ^ 9⌋₊ := by
  have hdiv : fractionOf fs * 10 ^ 9 = ((Text.decimalValue fs * 10 ^ 9 : ℕ) : ℚ) / ((10 ^ fs.length : ℕ) : ℚ) := by
    rw [fractionOf, div_mul_eq_mul_div]
    push_cast
    rfl
  rw [nanosOf_eq_div h, hdiv, Nat.floor_div_eq_div]

theorem nanosOf_lt {fs : List Char} (h : ∀ c ∈ fs, c.isDigit) : nanosOf fs < billion := by
  rw [nanosOf_eq_div h, Nat.div_lt_iff_lt_mul (Nat.pow_pos (by decide)), Nat.mul_comm billion]
  exact Nat.mul_lt_mul_of_pos_right (Text.decimalValue_lt h) (by decide)

theorem Writes.digits {text : String} {ds fs : List Char} (h : Writes text ds fs) :
    (∀ c ∈ ds, c.isDigit) ∧ ∀ c ∈ fs, c.isDigit := by
  obtain ⟨core, _, hcore⟩ := h
  exact (isDecimal_iff.1 hcore).2.2.2

theorem Writes.unique {text : String} {ds ds' fs fs' : List Char} (h : Writes text ds fs)
    (h' : Writes text ds' fs') : ds = ds' ∧ fs = fs' := by
  obtain ⟨core, htrim, hcore⟩ := h
  obtain ⟨core', htrim', hcore'⟩ := h'
  obtain rfl : core = core' := (Text.isTrimmed_iff.1 htrim).symm.trans (Text.isTrimmed_iff.1 htrim')
  obtain ⟨hds, hfs, _⟩ := isDecimal_iff.1 hcore
  obtain ⟨hds', hfs', _⟩ := isDecimal_iff.1 hcore'
  exact ⟨hds.symm.trans hds', hfs.symm.trans hfs'⟩

theorem since?_eq_some_iff {text : String} {t : Instant} : since? text = some t ↔
    ∃ ds fs, Writes text ds fs ∧ t.seconds = Text.decimalValue ds ∧ t.nanos = nanosOf fs := by
  constructor
  · intro h
    simp only [since?, Option.ite_none_right_eq_some] at h
    obtain ⟨⟨hne, hds, hfs⟩, hparts⟩ := h
    obtain ⟨hseconds, hnanos⟩ := Instant.ofParts?_eq_some_iff.1 hparts
    refine ⟨_, _, ⟨_, Text.isTrimmed_iff.2 rfl, isDecimal_iff.2 ⟨rfl, rfl, hne, ?_, ?_⟩⟩, hseconds, hnanos⟩
    · exact List.all_eq_true.1 hds
    · exact List.all_eq_true.1 hfs
  · rintro ⟨ds, fs, ⟨core, htrim, hcore⟩, ht⟩
    obtain rfl := Text.isTrimmed_iff.1 htrim
    obtain ⟨rfl, rfl, hne, hds, hfs⟩ := isDecimal_iff.1 hcore
    simp only [since?, Option.ite_none_right_eq_some]
    exact ⟨⟨hne, List.all_eq_true.2 hds, List.all_eq_true.2 hfs⟩, Instant.ofParts?_eq_some_iff.2 ht⟩

/-- The point in time that these digits are read as, where they are not too many seconds. -/
def writtenTime (ds fs : List Char) (hrange : Text.decimalValue ds ≤ 8210266876799)
    (hfs : ∀ c ∈ fs, c.isDigit) : Instant where
  seconds := Text.decimalValue ds
  nanos := nanosOf fs
  in_range := by
    unfold earliestSecond latestSecond
    omega
  nanos_lt := Nat.lt_of_lt_of_le (nanosOf_lt hfs) (by decide)
  leap := fun h => absurd (nanosOf_lt hfs) (Nat.not_lt.2 h)

theorem exists_since?_iff {text : String} : (∃ t, since? text = some t) ↔
    ∃ ds fs, Writes text ds fs ∧ Text.decimalValue ds ≤ 8210266876799 := by
  constructor
  · rintro ⟨t, h⟩
    obtain ⟨ds, fs, hwrites, hseconds, _⟩ := since?_eq_some_iff.1 h
    have hrange : t.seconds ≤ 8210266876799 := t.in_range.2
    exact ⟨ds, fs, hwrites, by omega⟩
  · rintro ⟨ds, fs, hwrites, hrange⟩
    exact ⟨writtenTime ds fs hrange hwrites.digits.2, since?_eq_some_iff.2 ⟨ds, fs, hwrites, rfl, rfl⟩⟩

theorem fractionOf_lt {fs : List Char} (h : ∀ c ∈ fs, c.isDigit) : fractionOf fs < 1 := by
  rw [fractionOf, div_lt_one (by positivity)]
  exact_mod_cast Text.decimalValue_lt h

theorem fractionOf_nonneg (fs : List Char) : 0 ≤ fractionOf fs :=
  div_nonneg (Nat.cast_nonneg _) (by positivity)

/-- Times are ordered as the numbers that stand for them. -/
theorem since?_mono {text text' : String} {ds ds' fs fs' : List Char} {t t' : Instant}
    (h : Writes text ds fs) (h' : Writes text' ds' fs') (ht : since? text = some t) (ht' : since? text' = some t')
    (hle : (Text.decimalValue ds : ℚ) + fractionOf fs ≤ Text.decimalValue ds' + fractionOf fs') : t ≤ t' := by
  obtain ⟨_, _, hread, hseconds, hnanos⟩ := since?_eq_some_iff.1 ht
  obtain ⟨rfl, rfl⟩ := h.unique hread
  obtain ⟨_, _, hread', hseconds', hnanos'⟩ := since?_eq_some_iff.1 ht'
  obtain ⟨rfl, rfl⟩ := h'.unique hread'
  have hnonneg := fractionOf_nonneg fs
  have hlt := fractionOf_lt h'.digits.2
  have hwhole : Text.decimalValue ds < Text.decimalValue ds' + 1 := by
    have hcast : (Text.decimalValue ds : ℚ) < (Text.decimalValue ds' + 1 : ℕ) := by
      push_cast
      linarith
    exact_mod_cast hcast
  show t.order ≤ t'.order
  rcases Nat.lt_or_ge (Text.decimalValue ds) (Text.decimalValue ds') with hless | hsame
  · have hbound := t.nanos_lt
    unfold Instant.order billion at *
    omega
  · have heq : Text.decimalValue ds = Text.decimalValue ds' := by omega
    have hfraction : fractionOf fs * 10 ^ 9 ≤ fractionOf fs' * 10 ^ 9 := by
      rw [heq] at hle
      linarith
    have hfloor : nanosOf fs ≤ nanosOf fs' := by
      rw [nanosOf_eq_floor h.digits.2, nanosOf_eq_floor h'.digits.2]
      exact Nat.floor_le_floor hfraction
    unfold Instant.order billion
    omega

/-- What is read as a time is a decimal of not too many seconds. It is read exactly, without what is below a
nanosecond, and in the order of the numbers. -/
theorem since?_exact (text : String) :
    (∀ t, since? text = some t ↔ ∃ ds fs, Writes text ds fs ∧ Text.decimalValue ds ≤ 8210266876799 ∧
      t.seconds = Text.decimalValue ds ∧ t.nanos = ⌊fractionOf fs * 10 ^ 9⌋₊) ∧
    ((since? text).isSome ↔ ∃ ds fs, Writes text ds fs ∧ Text.decimalValue ds ≤ 8210266876799) ∧
    ∀ text' ds ds' fs fs' t t', Writes text ds fs → Writes text' ds' fs' → since? text = some t →
      since? text' = some t' → (Text.decimalValue ds : ℚ) + fractionOf fs ≤ Text.decimalValue ds' + fractionOf fs' →
      t ≤ t' := by
  refine ⟨fun t => ?_, ?_, fun _ _ _ _ _ _ _ => since?_mono⟩
  · rw [since?_eq_some_iff]
    constructor
    · rintro ⟨ds, fs, hwrites, hseconds, hnanos⟩
      have hrange : t.seconds ≤ 8210266876799 := t.in_range.2
      rw [nanosOf_eq_floor hwrites.digits.2] at hnanos
      exact ⟨ds, fs, hwrites, by omega, hseconds, hnanos⟩
    · rintro ⟨ds, fs, hwrites, _, hseconds, hnanos⟩
      rw [← nanosOf_eq_floor hwrites.digits.2] at hnanos
      exact ⟨ds, fs, hwrites, hseconds, hnanos⟩
  · rw [Option.isSome_iff_exists, exists_since?_iff]

theorem writes_late : Writes " 1.5000000019\n" ['1'] ['5', '0', '0', '0', '0', '0', '0', '0', '1', '9'] := by
  refine ⟨_, ⟨⟨[' '], ['\n'], by decide, List.all_eq_true.1 rfl, List.all_eq_true.1 rfl⟩, ?_, ?_⟩,
    .pointed (List.cons_ne_nil _ _) (List.all_eq_true.1 rfl) (List.all_eq_true.1 rfl)⟩
  · intro c hc
    obtain rfl : '1' = c := Option.some.inj hc
    decide
  · intro c hc
    obtain rfl : '9' = c := Option.some.inj hc
    decide

theorem writes_early : Writes "01.5" ['0', '1'] ['5'] := by
  refine ⟨_, ⟨⟨[], [], by decide, List.all_eq_true.1 rfl, List.all_eq_true.1 rfl⟩, ?_, ?_⟩,
    .pointed (List.cons_ne_nil _ _) (List.all_eq_true.1 rfl) (List.all_eq_true.1 rfl)⟩
  · intro c hc
    obtain rfl : '0' = c := Option.some.inj hc
    decide
  · intro c hc
    obtain rfl : '5' = c := Option.some.inj hc
    decide

theorem since?_exact_early_late : ∃ t t', since? "01.5" = some t ∧ since? " 1.5000000019\n" = some t' ∧
    t ≤ t' ∧ t'.seconds = 1 ∧ t'.nanos = 500000001 := by
  obtain ⟨t, ht⟩ := Option.isSome_iff_exists.1 ((since?_exact "01.5").2.1.2 ⟨_, _, writes_early, by decide⟩)
  obtain ⟨t', ht'⟩ := Option.isSome_iff_exists.1
    ((since?_exact " 1.5000000019\n").2.1.2 ⟨_, _, writes_late, by decide⟩)
  have hearly : Text.decimalValue ['5'] = 5 := by decide
  have hlate : Text.decimalValue ['5', '0', '0', '0', '0', '0', '0', '0', '1', '9'] = 5000000019 := by decide
  have hzero : Text.decimalValue ['0', '1'] = Text.decimalValue ['1'] := rfl
  have hle := (since?_exact "01.5").2.2 _ _ _ _ _ t t' writes_early writes_late ht ht' (by
    rw [fractionOf, fractionOf, hearly, hlate, hzero, List.length_cons]
    norm_num)
  obtain ⟨ds, fs, hwrites, _, hseconds, hnanos⟩ := ((since?_exact " 1.5000000019\n").1 t').1 ht'
  obtain ⟨rfl, rfl⟩ := writes_late.unique hwrites
  rw [← nanosOf_eq_floor writes_late.digits.2] at hnanos
  exact ⟨t, t', ht, ht', hle, hseconds, hnanos⟩

end Http

end Tidings
