/-!
Splitting text at a character.
-/
namespace Tidings.Text

/-- The parts between the occurrences of a character; there is one part at least. -/
def splitAll (mark : Char) : List Char → List (List Char)
  | [] => [[]]
  | c :: cs =>
    if c = mark then [] :: splitAll mark cs
    else
      match splitAll mark cs with
      | [] => [[c]]
      | part :: parts => (c :: part) :: parts

/-- What stands before the first occurrence of a character, and what after it if there is one. -/
def cut (mark : Char) : List Char → List Char × Option (List Char)
  | [] => ([], none)
  | c :: cs =>
    if c = mark then ([], some cs)
    else
      let (before, after) := cut mark cs
      (c :: before, after)

theorem splitAll_ne_nil (mark : Char) (cs : List Char) : splitAll mark cs ≠ [] := by
  fun_cases splitAll mark cs <;> simp_all

/-- The parts with the character between them again are the text. -/
theorem intercalate_splitAll (mark : Char) (cs : List Char) :
    [mark].intercalate (splitAll mark cs) = cs := by
  fun_induction splitAll mark cs with
  | case1 => rfl
  | case2 cs ih =>
    obtain ⟨part, parts, hs⟩ := List.exists_cons_of_ne_nil (splitAll_ne_nil mark cs)
    rw [hs] at ih ⊢
    simp_all [List.intercalate]
  | case3 c cs hc hs => exact absurd hs (splitAll_ne_nil mark cs)
  | case4 c cs hc part parts hs ih =>
    rw [hs] at ih
    cases parts <;> simp_all [List.intercalate]

theorem splitAll_append {mark : Char} {before : List Char} (h : mark ∉ before) (after : List Char) :
    splitAll mark (before ++ mark :: after) = before :: splitAll mark after := by
  induction before with
  | nil => simp [splitAll]
  | cons c before ih =>
    obtain ⟨hc, hrest⟩ := not_or.1 (mt List.mem_cons.2 h)
    rw [List.cons_append, splitAll, if_neg (Ne.symm hc), ih hrest]

/-- The parts of a text, with a mark between each two of them and no mark inside. -/
structure IsSplit (mark : Char) (cs : List Char) (parts : List (List Char)) : Prop where
  nonempty : parts ≠ []
  joined : [mark].intercalate parts = cs
  unmarked : ∀ part ∈ parts, mark ∉ part

theorem splitAll_of_not_mem {mark : Char} {cs : List Char} (h : mark ∉ cs) : splitAll mark cs = [cs] := by
  induction cs with
  | nil => rfl
  | cons c cs ih =>
    obtain ⟨hc, hrest⟩ := not_or.1 (mt List.mem_cons.2 h)
    rw [splitAll, if_neg (Ne.symm hc), ih hrest]

theorem not_mem_of_mem_splitAll {mark : Char} {cs : List Char} : ∀ part ∈ splitAll mark cs, mark ∉ part := by
  fun_induction splitAll mark cs with
  | case1 => simp
  | case2 cs ih => simpa using ih
  | case3 c cs hc hs => exact absurd hs (splitAll_ne_nil mark cs)
  | case4 c cs hc part parts hs ih =>
    rw [hs] at ih
    obtain ⟨hpart, hparts⟩ := List.forall_mem_cons.1 ih
    refine List.forall_mem_cons.2 ⟨?_, hparts⟩
    rw [List.mem_cons, not_or]
    exact ⟨Ne.symm hc, hpart⟩

theorem splitAll_intercalate {mark : Char} {parts : List (List Char)} (hne : parts ≠ [])
    (h : ∀ part ∈ parts, mark ∉ part) : splitAll mark ([mark].intercalate parts) = parts := by
  induction parts with
  | nil => exact absurd rfl hne
  | cons part parts ih =>
    obtain ⟨hpart, hparts⟩ := List.forall_mem_cons.1 h
    cases parts with
    | nil =>
      rw [List.intercalate_singleton]
      exact splitAll_of_not_mem hpart
    | cons next parts =>
      rw [List.intercalate_cons_cons, List.append_assoc]
      rw [List.singleton_append, splitAll_append hpart, ih (by simp) hparts]

theorem splitAll_eq_iff {mark : Char} {cs : List Char} {parts : List (List Char)} :
    splitAll mark cs = parts ↔ IsSplit mark cs parts := by
  constructor
  · rintro rfl
    exact ⟨splitAll_ne_nil mark cs, intercalate_splitAll mark cs, not_mem_of_mem_splitAll⟩
  · rintro ⟨hne, rfl, hunmarked⟩
    exact splitAll_intercalate hne hunmarked

/-- Before the cut there is no mark, and what was cut apart goes together again. -/
theorem cut_eq_some {mark : Char} {cs before after : List Char}
    (h : cut mark cs = (before, some after)) : cs = before ++ mark :: after ∧ mark ∉ before := by
  induction cs generalizing before with
  | nil => simp [cut] at h
  | cons c cs ih =>
    rw [cut] at h
    split at h
    · next hc => cases h; simp [hc]
    · next hc =>
      obtain ⟨rfl, ha⟩ := Prod.mk.inj h
      obtain ⟨hcs, hn⟩ := ih (Prod.ext rfl ha)
      exact ⟨by rw [List.cons_append, ← hcs], by simp [Ne.symm hc, hn]⟩

theorem cut_eq_none {mark : Char} {cs before : List Char}
    (h : cut mark cs = (before, none)) : before = cs ∧ mark ∉ cs := by
  induction cs generalizing before with
  | nil => cases h; simp
  | cons c cs ih =>
    rw [cut] at h
    split at h
    · cases h
    · next hc =>
      obtain ⟨rfl, ha⟩ := Prod.mk.inj h
      obtain ⟨hcs, hn⟩ := ih (Prod.ext rfl ha)
      exact ⟨congrArg (c :: ·) hcs, by simp [Ne.symm hc, hn]⟩

theorem cut_append {mark : Char} {before : List Char} (h : mark ∉ before) (after : List Char) :
    cut mark (before ++ mark :: after) = (before, some after) := by
  induction before with
  | nil => simp [cut]
  | cons c before ih =>
    obtain ⟨hc, hrest⟩ := not_or.1 (mt List.mem_cons.2 h)
    rw [List.cons_append, cut, if_neg (Ne.symm hc), ih hrest]

theorem cut_of_not_mem {mark : Char} {cs : List Char} (h : mark ∉ cs) : cut mark cs = (cs, none) := by
  induction cs with
  | nil => rfl
  | cons c cs ih =>
    obtain ⟨hc, hrest⟩ := not_or.1 (mt List.mem_cons.2 h)
    rw [cut, if_neg (Ne.symm hc), ih hrest]

end Tidings.Text
