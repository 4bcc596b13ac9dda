import Tidings.Instant.Rfc3339
import Tidings.Proofs.Calendar
/-!
The text of a point in time. It is read as that point in time, with all its nanoseconds, in a leap second
and in the years with a sign too.
-/
namespace Tidings

theorem bind_of_some {α β : Type} {x : Option α} {a : α} {f : α → Option β} (h : x = some a) :
    (x >>= f) = f a := by
  rw [h]
  rfl

namespace Text

theorem isDigit_of_mem_padded {c : Char} {places n : Nat} (h : c ∈ padded 10 places n) : c.isDigit := by
  induction places generalizing n with
  | zero => exact absurd h List.not_mem_nil
  | succ places ih =>
    rw [padded, List.mem_append, List.mem_singleton] at h
    rcases h with hfront | rfl
    · exact ih hfront
    · rw [Nat.isDigit_digitChar]
      exact decide_eq_true (Nat.mod_lt n (by decide))

theorem decimalValue_padded (places n : Nat) : decimalValue (padded 10 places n) = n % 10 ^ places := by
  induction places generalizing n with
  | zero => simp [padded, decimalValue, Nat.mod_one]
  | succ places ih =>
    have hlast : (Nat.digitChar (n % 10)).toNat - '0'.toNat = n % 10 := by
      rw [Nat.toNat_digitChar_of_lt_ten (Nat.mod_lt n (by decide))]
      exact Nat.add_sub_cancel_left 48 (n % 10)
    have hvalue : Nat.ofDigitChars 10 (padded 10 places (n / 10)) 0 = n / 10 % 10 ^ places := ih (n / 10)
    rw [decimalValue, padded, Nat.ofDigitChars_append, hvalue, Nat.ofDigitChars_cons, hlast,
      Nat.pow_succ', Nat.mod_mul, Nat.add_comm]
    rfl

/-- The digits taken are all of them, when no more may be taken or no digit follows. -/
theorem takeDigits_append {limit : Nat} {ds rest : List Char} (h : ∀ c ∈ ds, c.isDigit)
    (hlimit : ds.length ≤ limit) (hend : ds.length = limit ∨ ∀ c ∈ rest.head?, ¬ c.isDigit) :
    takeDigits limit (ds ++ rest) = (ds, rest) := by
  induction ds generalizing limit with
  | nil =>
    cases limit with
    | zero => rfl
    | succ limit =>
      have hstop : ∀ c ∈ rest.head?, ¬ c.isDigit := hend.resolve_left (Nat.zero_ne_add_one limit)
      cases rest with
      | nil => rfl
      | cons c rest => rw [List.nil_append, takeDigits, if_neg (hstop c rfl)]
  | cons d ds ih =>
    cases limit with
    | zero => exact absurd hlimit (Nat.not_succ_le_zero _)
    | succ limit =>
      have hds : takeDigits limit (ds ++ rest) = (ds, rest) :=
        ih (fun c hc => h c (List.mem_cons_of_mem d hc)) (Nat.le_of_succ_le_succ hlimit)
          (hend.imp_left Nat.succ.inj)
      rw [List.cons_append, takeDigits, if_pos (h d List.mem_cons_self), hds]

theorem takeDigits_padded {limit places : Nat} (h : places ≤ limit) (n : Nat) {rest : List Char}
    (hend : places = limit ∨ ∀ c ∈ rest.head?, ¬ c.isDigit) :
    takeDigits limit (padded 10 places n ++ rest) = (padded 10 places n, rest) := by
  refine takeDigits_append (fun c hc => isDigit_of_mem_padded hc) ?_ ?_
  · rwa [length_padded]
  · rwa [length_padded]

theorem decimalValue_padded_of_lt {places n : Nat} (h : n < 10 ^ places) :
    decimalValue (padded 10 places n) = n := by
  rw [decimalValue_padded, Nat.mod_eq_of_lt h]

theorem padded_eq_cons {places : Nat} (h : 0 < places) (n : Nat) :
    ∃ d ds, padded 10 places n = d :: ds ∧ d.isDigit := by
  cases hdigits : padded 10 places n with
  | nil =>
    have hlength := length_padded 10 places n
    rw [hdigits] at hlength
    exact absurd hlength (Nat.ne_of_lt h)
  | cons d ds => exact ⟨d, ds, rfl, isDigit_of_mem_padded (hdigits ▸ List.mem_cons_self)⟩

theorem number?_padded {places n : Nat} (h : 0 < places) (hn : n < 10 ^ places) (rest : List Char) :
    number? places (padded 10 places n ++ rest) = some (n, rest) := by
  have hvalue := decimalValue_padded_of_lt hn
  obtain ⟨d, ds, hdigits, _⟩ := padded_eq_cons h n
  rw [hdigits] at hvalue
  rw [number?, takeDigits_padded (Nat.le_refl places) n (.inl rfl), hdigits]
  exact congrArg (fun m => some (m, rest)) hvalue

theorem decimalValue_paddedAtLeast (places n : Nat) : decimalValue (paddedAtLeast places n) = n := by
  have hzeros (k : Nat) : Nat.ofDigitChars 10 (List.replicate k '0') 0 = 0 := by
    induction k with
    | zero => rfl
    | succ k ih => exact ih
  rw [decimalValue, paddedAtLeast, Nat.ofDigitChars_append, hzeros, Nat.ofDigitChars_ten_toDigits]

theorem isDigit_of_mem_paddedAtLeast {c : Char} {places n : Nat} (h : c ∈ paddedAtLeast places n) :
    c.isDigit := by
  rcases List.mem_append.1 h with hzero | hdigit
  · rw [List.eq_of_mem_replicate hzero]
    rfl
  · exact Nat.isDigit_of_mem_toDigits (by decide) (by decide) hdigit

/-- Any number of digits, up to where no digit follows. -/
theorem number?_paddedAtLeast (places n : Nat) {rest : List Char} (hend : ∀ c ∈ rest.head?, ¬ c.isDigit) :
    number? (paddedAtLeast places n ++ rest).length (paddedAtLeast places n ++ rest) = some (n, rest) := by
  have htake : takeDigits (paddedAtLeast places n ++ rest).length (paddedAtLeast places n ++ rest) =
      (paddedAtLeast places n, rest) :=
    takeDigits_append (fun c hc => isDigit_of_mem_paddedAtLeast hc) (by simp) (.inr hend)
  have hvalue := decimalValue_paddedAtLeast places n
  rw [number?, htake]
  cases hdigits : paddedAtLeast places n with
  | nil => exact absurd (List.append_eq_nil_iff.1 hdigits).2 Nat.toDigits_ne_nil
  | cons d ds =>
    rw [hdigits] at hvalue
    exact congrArg (fun m => some (m, rest)) hvalue

theorem not_isBlank_of_isDigit {c : Char} (h : c.isDigit) : ¬ isBlank c := by
  have hrange : 48 ≤ c.toNat ∧ c.toNat ≤ 57 := Char.isDigit_iff_toNat.1 h
  simp only [isBlank, Bool.or_eq_true, Bool.and_eq_true, decide_eq_true_eq, beq_iff_eq]
  omega

theorem trimStart_padded {places : Nat} (h : 0 < places) (n : Nat) (rest : List Char) :
    trimStart (padded 10 places n ++ rest) = padded 10 places n ++ rest := by
  obtain ⟨d, ds, hdigits, hd⟩ := padded_eq_cons h n
  rw [hdigits, List.cons_append, trimStart, List.dropWhile_cons_of_neg (not_isBlank_of_isDigit hd)]

end Text

namespace Instant

open Text

theorem readTwo?_two {n : Nat} (h : n < 100) (rest : List Char) :
    readTwo? (two n ++ rest) = some (n, rest) := by
  rw [readTwo?, two, trimStart_padded (by decide), number?_padded (by decide) h]

theorem readMark?_cons {mark : Char} (h : isBlank mark = false) (rest : List Char) :
    readMark? mark (mark :: rest) = some rest := by
  simp [readMark?, trimStart, h]

theorem trimStart_cons {c : Char} (h : isBlank c = false) (cs : List Char) :
    trimStart (c :: cs) = c :: cs := by
  rw [trimStart, List.dropWhile_cons_of_neg (by simp [h])]

/-- A year of four digits ends by itself, one with a sign where no digit follows. -/
theorem readYear?_yearText (year : Int) {rest : List Char} (hend : ∀ c ∈ rest.head?, ¬ c.isDigit) :
    readYear? (yearText year ++ rest) = some (year, rest) := by
  unfold yearText
  split
  next h =>
    have hnat : (year.toNat : Int) = year := Int.toNat_of_nonneg h.1
    have hnumber := number?_padded (show 0 < 4 by decide) (show year.toNat < 10 ^ 4 by omega) rest
    obtain ⟨d, ds, hdigits, hd⟩ := padded_eq_cons (show 0 < 4 by decide) year.toNat
    have hminus : d ≠ '-' := by rintro rfl; exact absurd hd (by decide)
    have hplus : d ≠ '+' := by rintro rfl; exact absurd hd (by decide)
    rw [readYear?, trimStart_padded (by decide)]
    rw [hdigits, List.cons_append] at hnumber ⊢
    split
    next heq => exact absurd (List.cons.inj heq).1 hminus
    next heq => exact absurd (List.cons.inj heq).1 hplus
    next => exact hnumber ▸ congrArg (fun y => some (y, rest)) hnat
  next h =>
    have hnumber := number?_paddedAtLeast 4 year.natAbs hend
    split
    next hneg =>
      have hback : -(year.natAbs : Int) = year := by omega
      rw [List.cons_append, readYear?, trimStart_cons (by decide)]
      show (number? (paddedAtLeast 4 year.natAbs ++ rest).length _).map _ = _
      rw [hnumber]
      exact congrArg (fun y => some (y, rest)) hback
    next hpos =>
      have hback : (year.natAbs : Int) = year := by omega
      rw [List.cons_append, readYear?, trimStart_cons (by decide)]
      show (number? (paddedAtLeast 4 year.natAbs ++ rest).length _).map _ = _
      rw [hnumber]
      exact congrArg (fun y => some (y, rest)) hback

/-- A fraction with fewer than nine places counts what is missing as zeros. -/
theorem readFraction?_padded {places n : Nat} (h : 0 < places) (hnine : places ≤ 9) (hn : n < 10 ^ places)
    (zone : Zone) : readFraction? ('.' :: padded 10 places n ++ zone.text) =
      some (n * 10 ^ (9 - places), zone.text) := by
  have hstop : ∀ c ∈ zone.text.head?, ¬ c.isDigit := by cases zone <;> simp [Zone.text]
  have hrest : zone.text.dropWhile Char.isDigit = zone.text := by cases zone <;> rfl
  have hlength := length_padded 10 places n
  have hvalue := decimalValue_padded_of_lt hn
  rw [List.cons_append, readFraction?, takeDigits_padded hnine n (.inr hstop)]
  obtain ⟨d, ds, hdigits, _⟩ := padded_eq_cons h n
  rw [hdigits] at hvalue hlength ⊢
  dsimp only
  rw [hvalue, hlength, hrest]
  rfl

theorem readFraction?_fractionText {nanos : Nat} (h : nanos < billion) (zone : Zone) :
    readFraction? (fractionText nanos ++ zone.text) = some (nanos, zone.text) := by
  unfold billion at h
  unfold fractionText
  split
  next hzero =>
    rw [hzero]
    cases zone <;> rfl
  split
  next hmilli =>
    have hwhole : nanos / 1000000 * 10 ^ (9 - 3) = nanos := by omega
    rw [readFraction?_padded (by decide) (by decide) (by omega), hwhole]
  split
  next hmicro =>
    have hwhole : nanos / 1000 * 10 ^ (9 - 6) = nanos := by omega
    rw [readFraction?_padded (by decide) (by decide) (by omega), hwhole]
  next =>
    rw [readFraction?_padded (by decide) (by decide) h, Nat.sub_self, Nat.pow_zero, Nat.mul_one]

theorem readOffset?_text (zone : Zone) : readOffset? (trimStart zone.text) = some (0, []) := by
  cases zone <;> rfl

/-- The year of the calendar in which a point in time lies. -/
def year (t : Instant) : Int := (Date.ofDays (t.seconds / 86400)).year

/-- The years of the calendar that have points in time. -/
theorem year_mem (t : Instant) : -262143 ≤ t.year ∧ t.year ≤ 262142 := by
  have hrange := t.in_range
  unfold earliestSecond latestSecond at hrange
  exact Date.ofDays_year ⟨by omega, by omega⟩

/-- The second of the minute and its nanoseconds. Only a leap second has the number 60. -/
theorem clockSecond_cases (t : Instant) :
    (t.nanos < billion ∧ t.clockSecond = ((t.seconds % 60).toNat, t.nanos) ∧ (t.seconds % 60).toNat < 60) ∨
      (t.clockSecond = (60, t.nanos - billion) ∧ t.seconds % 60 = 59 ∧ billion ≤ t.nanos) := by
  unfold clockSecond
  split
  next hlt => exact .inl ⟨hlt, rfl, by omega⟩
  next hge =>
    have hleap : t.seconds % 60 = 59 := t.leap (Nat.le_of_not_lt hge)
    exact .inr ⟨by rw [hleap]; rfl, hleap, Nat.le_of_not_lt hge⟩

theorem clockSecond_le (t : Instant) : t.clockSecond.1 ≤ 60 ∧ t.clockSecond.2 < billion := by
  have hnanos := t.nanos_lt
  rcases t.clockSecond_cases with ⟨hlt, hclock, hsecond⟩ | ⟨hclock, _, _⟩
  · rw [hclock]
    exact ⟨hsecond.le, hlt⟩
  · rw [hclock]
    exact ⟨Nat.le_refl 60, by omega⟩

/-- A point in time is put together again from its date and time of day. -/
theorem ofClock?_clock (t : Instant) :
    ofClock? (Date.ofDays (t.seconds / 86400)) ((t.seconds % 86400).toNat / 3600)
      ((t.seconds % 86400).toNat / 60 % 60) t.clockSecond.1 t.clockSecond.2 0 = some t := by
  have hyear := t.year_mem
  have hvalid := Date.ofDays_isValid (t.seconds / 86400)
  have hdays := Date.toDays_ofDays (t.seconds / 86400)
  rw [ofClock?, if_pos ⟨hvalid, hyear.1, hyear.2, by omega, by omega, t.clockSecond_le.1⟩, hdays]
  rcases t.clockSecond_cases with ⟨_, hclock, hlt⟩ | ⟨hclock, hleap, hge⟩
  · rw [hclock, if_neg hlt.ne]
    exact ofParts?_eq_some_iff.2 ⟨by omega, rfl⟩
  · rw [hclock, if_pos rfl]
    exact ofParts?_eq_some_iff.2 ⟨by omega, (Nat.sub_add_cancel hge).symm⟩

theorem ofChars?_chars (zone : Zone) (t : Instant) : ofChars? (t.chars zone) = some t := by
  obtain ⟨hsecond, hnanos⟩ := t.clockSecond_le
  have hvalid := Date.ofDays_isValid (t.seconds / 86400)
  have hmonth : (Date.ofDays (t.seconds / 86400)).month < 100 := hvalid.2.1.trans_lt (by decide)
  have hday : (Date.ofDays (t.seconds / 86400)).day < 100 := hvalid.day_le.trans_lt (by decide)
  have hdash (rest : List Char) : readMark? '-' ('-' :: rest) = some rest := readMark?_cons (by decide) rest
  have hcolon (rest : List Char) : readMark? ':' (':' :: rest) = some rest := readMark?_cons (by decide) rest
  have hresult := ofClock?_clock t
  rw [chars, ofChars?]
  refine (bind_of_some (readYear?_yearText t.year (by simp))).trans ?_
  refine (bind_of_some (hdash _)).trans ?_
  refine (bind_of_some (readTwo?_two hmonth _)).trans ?_
  refine (bind_of_some (hdash _)).trans ?_
  refine (bind_of_some (readTwo?_two hday _)).trans ?_
  refine (if_pos (.inl rfl)).trans ?_
  refine (bind_of_some (readTwo?_two (by omega) _)).trans ?_
  refine (bind_of_some (hcolon _)).trans ?_
  refine (bind_of_some (readTwo?_two (by omega) _)).trans ?_
  refine (bind_of_some (hcolon _)).trans ?_
  refine (bind_of_some (readTwo?_two (hsecond.trans_lt (by decide)) _)).trans ?_
  refine (bind_of_some (readFraction?_fractionText hnanos zone)).trans ?_
  refine (bind_of_some (readOffset?_text zone)).trans ?_
  exact hresult

theorem ofText?_text (t : Instant) : ofText? t.text = some t := by
  rw [ofText?, text, String.toList_ofList, ofChars?_chars .letter t]

end Instant

end Tidings
