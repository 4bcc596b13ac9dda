import Tidings.Proofs.Numerals
/-!
The tokens of a printed text. A string is read as it was before it was escaped, a number as what its text
stands for, and a mark between two tokens ends the one before it.
-/
namespace Tidings

namespace Text

/-- A digit is read as its value. -/
theorem hexValue?_digitChar {d : Nat} (h : d < 16) : hexValue? (Nat.digitChar d) = some d := by
  have hall : ∀ d < 16, hexValue? (Nat.digitChar d) = some d := by decide
  exact hall d h

end Text

namespace Json

section Strings
variable (tokens : List Token)

theorem scan_unicode (text : List Char) {a b : Char} {x y : Nat} (ha : Text.hexValue? a = some x)
    (hb : Text.hexValue? b = some y) :
    ['\\', 'u', '0', '0', a, b].foldlM Scan.step? ⟨tokens, .string (some text)⟩ =
      some ⟨tokens, endUnicode (some text) none (16 * x + y)⟩ := by
  have hopen : ['\\', 'u', '0', '0'].foldlM Scan.step? ⟨tokens, .string (some text)⟩ =
      some ⟨tokens, .unicode (some text) none 2 0⟩ := rfl
  have hfirst : Scan.step? ⟨tokens, .unicode (some text) none 2 0⟩ a =
      some ⟨tokens, .unicode (some text) none 3 x⟩ := by
    simp [Scan.step?, ha]
  have hsecond : Scan.step? ⟨tokens, .unicode (some text) none 3 x⟩ b =
      some ⟨tokens, endUnicode (some text) none (16 * x + y)⟩ := by
    simp [Scan.step?, hb]
  have hsplit : ['\\', 'u', '0', '0', a, b] = ['\\', 'u', '0', '0'] ++ [a, b] := rfl
  rw [hsplit, List.foldlM_append, hopen]
  show (Scan.step? ⟨tokens, .unicode (some text) none 2 0⟩ a).bind (fun s => [b].foldlM Scan.step? s) = _
  rw [hfirst, Option.bind_some, List.foldlM_cons, hsecond]
  rfl

/-- What was escaped is read as the character itself. -/
theorem scan_escape (text : List Char) (c : Char) :
    (escape c).foldlM Scan.step? ⟨tokens, .string (some text)⟩ =
      some ⟨tokens, .string (some (c :: text))⟩ := by
  unfold escape
  split
  · subst c; rfl
  split
  · subst c; rfl
  split
  · subst c; rfl
  split
  · subst c; rfl
  split
  · subst c; rfl
  split
  · subst c; rfl
  split
  · subst c; rfl
  split
  · next hlow =>
    have hhigh : Text.hexValue? (Nat.digitChar (c.toNat / 16)) = some (c.toNat / 16) :=
      Text.hexValue?_digitChar (by omega)
    have hrest : Text.hexValue? (Nat.digitChar (c.toNat % 16)) = some (c.toNat % 16) :=
      Text.hexValue?_digitChar (Nat.mod_lt _ (by decide))
    have hend : endUnicode (some text) none c.toNat = .string (some (c :: text)) := by
      have hhalf : isHighSurrogate c.toNat = false ∧ isLowSurrogate c.toNat = false := by
        simp only [isHighSurrogate, isLowSurrogate, Bool.and_eq_false_iff, decide_eq_false_iff_not]
        omega
      rw [endUnicode, hhalf.1, hhalf.2]
      simp [push]
    rw [scan_unicode tokens text hhigh hrest, Nat.div_add_mod, hend]
  · next hquote hslash _ _ _ _ _ hlow =>
    have hplain : Scan.step? ⟨tokens, .string (some text)⟩ c =
        some ⟨tokens, .string (some (c :: text))⟩ := by
      simp [Scan.step?, Scan.inString?, hquote, hslash, hlow, push]
    rw [List.foldlM_cons, hplain]
    rfl

theorem scan_escaped (text cs : List Char) :
    (cs.flatMap escape).foldlM Scan.step? ⟨tokens, .string (some text)⟩ =
      some ⟨tokens, .string (some (cs.reverse ++ text))⟩ := by
  induction cs generalizing text with
  | nil => rfl
  | cons c cs ih =>
    rw [List.flatMap_cons, List.foldlM_append, scan_escape]
    refine (ih (c :: text)).trans ?_
    rw [List.reverse_cons, List.append_assoc, List.singleton_append]

theorem scan_quoted (s : String) : (quoted s).foldlM Scan.step? ⟨tokens, .none⟩ =
    some ⟨.str (some s) :: tokens, .none⟩ := by
  have hopen : Scan.step? ⟨tokens, .none⟩ '"' = some ⟨tokens, .string (some [])⟩ := rfl
  have hclose (text : List Char) : Scan.step? ⟨tokens, .string (some text)⟩ '"' =
      some ⟨.str (some (String.ofList text.reverse)) :: tokens, .none⟩ := rfl
  rw [quoted, List.foldlM_cons, hopen]
  show ((s.toList.flatMap escape) ++ ['"']).foldlM Scan.step? ⟨tokens, .string (some [])⟩ = _
  rw [List.foldlM_append, scan_escaped]
  show ['"'].foldlM Scan.step? ⟨tokens, .string (some (s.toList.reverse ++ []))⟩ = _
  rw [List.foldlM_cons, hclose]
  simp

end Strings

section Numbers

theorem begin?_digit (tokens : List Token) {c : Char} (h : c.isDigit) :
    Scan.begin? tokens c = some ⟨tokens, .number [c]⟩ := by
  have hne : ∀ d ∈ [' ', '\n', '\t', '\r', '[', ']', '{', '}', ',', ':', '"'], c ≠ d := by
    rintro d hd rfl
    have hnone : ∀ d ∈ [' ', '\n', '\t', '\r', '[', ']', '{', '}', ',', ':', '"'],
        d.isDigit = false := by simp
    rw [hnone c hd] at h
    cases h
  simp only [List.mem_cons, List.not_mem_nil, or_false, forall_eq_or_imp, forall_eq] at hne
  simp [Scan.begin?, hne, h]

theorem scan_numberChars (tokens : List Token) {cs : List Char} (h : ∀ c ∈ cs, isNumberChar c)
    (text : List Char) : cs.foldlM Scan.step? ⟨tokens, .number text⟩ =
      some ⟨tokens, .number (cs.reverse ++ text)⟩ := by
  induction cs generalizing text with
  | nil => rfl
  | cons c cs ih =>
    have hstep : Scan.step? ⟨tokens, .number text⟩ c = some ⟨tokens, .number (c :: text)⟩ :=
      if_pos (h c List.mem_cons_self)
    rw [List.foldlM_cons, hstep]
    refine (ih (fun d hd => h d (List.mem_cons_of_mem c hd)) (c :: text)).trans ?_
    rw [List.reverse_cons, List.append_assoc, List.singleton_append]

theorem scan_number (tokens : List Token) {cs : List Char} (h : IsNumberText cs) :
    cs.foldlM Scan.step? ⟨tokens, .none⟩ = some ⟨tokens, .number cs.reverse⟩ := by
  obtain ⟨hchars, c, hc, hfirst⟩ := h
  cases cs with
  | nil => cases hc
  | cons d ds =>
    cases hc
    have hstep : Scan.step? ⟨tokens, .none⟩ c = some ⟨tokens, .number [c]⟩ := by
      rcases hfirst with rfl | hdigit
      · rfl
      · exact begin?_digit tokens hdigit
    rw [List.foldlM_cons, hstep]
    refine (scan_numberChars tokens (List.forall_mem_cons.1 hchars).2 [c]).trans ?_
    rw [List.reverse_cons]

end Numbers

/-- A value without doubles whose whole numbers fit 64 bits. -/
inductive Value.IsPlain : Value → Prop where
  | null : IsPlain .null
  | bool (b : Bool) : IsPlain (.bool b)
  | int {i : Int} (h : IsWord i) : IsPlain (.num (.int i))
  | str (s : String) : IsPlain (.str s)
  | arr {items : List Value} (h : ∀ v ∈ items, IsPlain v) : IsPlain (.arr items)
  | obj {members : Members} (h : ∀ m ∈ members, IsPlain m.2) : IsPlain (.obj members)

/-- A value whose numbers are read back from their texts. -/
inductive Value.IsLegible : Value → Prop where
  | null : IsLegible .null
  | bool (b : Bool) : IsLegible (.bool b)
  | num {n : Number} (h : n.IsLegible) : IsLegible (.num n)
  | str (s : String) : IsLegible (.str s)
  | arr {items : List Value} (h : ∀ v ∈ items, IsLegible v) : IsLegible (.arr items)
  | obj {members : Members} (h : ∀ m ∈ members, IsLegible m.2) : IsLegible (.obj members)

theorem Value.IsPlain.isLegible {v : Value} (h : v.IsPlain) : v.IsLegible := by
  induction h with
  | null => exact .null
  | bool b => exact .bool b
  | int hi => exact .num (Number.isLegible_int hi)
  | str s => exact .str s
  | arr _ ih => exact .arr ih
  | obj _ ih => exact .obj ih

mutual
/-- The tokens of the text of a value. -/
def Value.tokens : Value → List Token
  | .null => [.null]
  | .bool b => [.bool b]
  | .num n => [.num (some n)]
  | .str s => [.str (some s)]
  | .arr items => .beginArr :: Value.itemTokens items
  | .obj members => .beginObj :: Value.memberTokens members

def Value.itemTokens : List Value → List Token
  | [] => [.endArr]
  | [v] => v.tokens ++ [.endArr]
  | v :: w :: rest => v.tokens ++ .comma :: Value.itemTokens (w :: rest)

def Value.memberTokens : List (String × Value) → List Token
  | [] => [.endObj]
  | [(k, v)] => .str (some k) :: .colon :: (v.tokens ++ [.endObj])
  | (k, v) :: m :: rest =>
    .str (some k) :: .colon :: (v.tokens ++ .comma :: Value.memberTokens (m :: rest))
end

/-- A state in which the token that is being read can be ended, by the end of the text or by a mark. -/
structure Scan.Settles (s : Scan) (tokens : List Token) : Prop where
  flush : s.flush? = some tokens
  mark : ∀ c ∈ [',', ']', '}'], s.step? c = Scan.begin? tokens c

theorem Scan.settles_none (tokens : List Token) : Scan.Settles ⟨tokens, .none⟩ tokens :=
  ⟨rfl, fun _ _ => rfl⟩

theorem Scan.settles_word {word : List Char} {t : Token} (h : wordToken? word.reverse = some t)
    (tokens : List Token) : Scan.Settles ⟨tokens, .word word⟩ (t :: tokens) := by
  have hflush : Scan.flush? ⟨tokens, .word word⟩ = some (t :: tokens) := by rw [Scan.flush?, h]; rfl
  refine ⟨hflush, fun c hc => ?_⟩
  have hlower : ∀ c ∈ [',', ']', '}'], c.isLower = false := by simp
  simp [Scan.step?, hlower c hc, hflush]

theorem Scan.settles_number {text : List Char} {n : Numeral}
    (h : Numeral.ofText? text.reverse = some n) (tokens : List Token) :
    Scan.Settles ⟨tokens, .number text⟩ (.num n.number? :: tokens) := by
  have hflush : Scan.flush? ⟨tokens, .number text⟩ = some (.num n.number? :: tokens) := by
    rw [Scan.flush?, h]
    rfl
  refine ⟨hflush, fun c hc => ?_⟩
  have hother : ∀ c ∈ [',', ']', '}'], isNumberChar c = false := by simp [isNumberChar]
  simp [Scan.step?, hother c hc, hflush]

/-- Reading a text from between two tokens ends with its last token complete. -/
def Scans (text : List Char) (ts : List Token) : Prop :=
  ∀ tokens, ∃ s : Scan, text.foldlM Scan.step? ⟨tokens, .none⟩ = some s ∧
    s.Settles (ts.reverse ++ tokens)

theorem Scans.mark {text : List Char} {ts : List Token} (h : Scans text ts) {c : Char}
    (hc : c ∈ [',', ']', '}']) (tokens : List Token) :
    (text ++ [c]).foldlM Scan.step? ⟨tokens, .none⟩ = Scan.begin? (ts.reverse ++ tokens) c := by
  obtain ⟨s, hs, hsettles⟩ := h tokens
  rw [List.foldlM_append, hs]
  show [c].foldlM Scan.step? s = _
  rw [List.foldlM_cons, hsettles.mark c hc]
  exact bind_pure _

theorem Scans.comma {text : List Char} {ts : List Token} (h : Scans text ts) (rest : List Char)
    (tokens : List Token) : (text ++ ',' :: rest).foldlM Scan.step? ⟨tokens, .none⟩ =
      rest.foldlM Scan.step? ⟨.comma :: (ts.reverse ++ tokens), .none⟩ := by
  have hmark : (text ++ [',']).foldlM Scan.step? ⟨tokens, .none⟩ =
      some ⟨.comma :: (ts.reverse ++ tokens), .none⟩ := h.mark (by simp) tokens
  have hsplit : text ++ ',' :: rest = (text ++ [',']) ++ rest := by simp
  rw [hsplit, List.foldlM_append, hmark]
  rfl

theorem scan_key (k : String) (rest : List Char) (tokens : List Token) :
    (quoted k ++ ':' :: rest).foldlM Scan.step? ⟨tokens, .none⟩ =
      rest.foldlM Scan.step? ⟨.colon :: .str (some k) :: tokens, .none⟩ := by
  rw [List.foldlM_append, scan_quoted]
  rfl

theorem scan_items {items : List Value} (h : ∀ v ∈ items, Scans v.render v.tokens)
    (tokens : List Token) : (Value.renderItems items).foldlM Scan.step? ⟨tokens, .none⟩ =
      some ⟨(Value.itemTokens items).reverse ++ tokens, .none⟩ := by
  induction items generalizing tokens with
  | nil => rfl
  | cons v rest ih =>
    have hv := h v List.mem_cons_self
    cases rest with
    | nil =>
      rw [Value.renderItems, hv.mark (by simp), Value.itemTokens, List.reverse_append]
      rfl
    | cons w rest =>
      rw [Value.renderItems, hv.comma, ih fun u hu => h u (List.mem_cons_of_mem v hu), Value.itemTokens]
      simp

theorem scan_members {members : Members} (h : ∀ m ∈ members, Scans m.2.render m.2.tokens)
    (tokens : List Token) : (Value.renderMembers members).foldlM Scan.step? ⟨tokens, .none⟩ =
      some ⟨(Value.memberTokens members).reverse ++ tokens, .none⟩ := by
  induction members generalizing tokens with
  | nil => rfl
  | cons m rest ih =>
    obtain ⟨k, v⟩ := m
    have hv : Scans v.render v.tokens := h (k, v) List.mem_cons_self
    cases rest with
    | nil =>
      rw [Value.renderMembers, scan_key, hv.mark (by simp), Value.memberTokens]
      simp [Scan.begin?]
    | cons m rest =>
      rw [Value.renderMembers, scan_key, hv.comma, ih fun u hu => h u (List.mem_cons_of_mem _ hu),
        Value.memberTokens]
      simp

/-- A printed value is read as its tokens. -/
theorem Value.IsLegible.scans {v : Value} (h : v.IsLegible) : Scans v.render v.tokens := by
  induction h with
  | null => exact fun tokens => ⟨_, rfl, Scan.settles_word rfl tokens⟩
  | bool b => cases b <;> exact fun tokens => ⟨_, rfl, Scan.settles_word rfl tokens⟩
  | @num n hn =>
    intro tokens
    obtain ⟨numeral, htext, hvalue⟩ := Option.bind_eq_some_iff.1 hn
    refine ⟨_, scan_number tokens (isNumberText_render n), ?_⟩
    have hsettles := Scan.settles_number ((congrArg _ (List.reverse_reverse _)).trans htext) tokens
    rwa [hvalue] at hsettles
  | str s => exact fun tokens => ⟨_, scan_quoted tokens s, Scan.settles_none _⟩
  | @arr items _ ih =>
    intro tokens
    refine ⟨_, (scan_items ih (.beginArr :: tokens)), ?_⟩
    rw [Value.tokens, List.reverse_cons, List.append_assoc]
    exact Scan.settles_none _
  | @obj members _ ih =>
    intro tokens
    refine ⟨_, (scan_members ih (.beginObj :: tokens)), ?_⟩
    rw [Value.tokens, List.reverse_cons, List.append_assoc]
    exact Scan.settles_none _

theorem tokens?_render {v : Value} (h : v.IsLegible) : tokens? v.render = some v.tokens := by
  obtain ⟨s, hs, hsettles⟩ := h.scans []
  rw [tokens?, Scan.start, hs, Option.bind_some, hsettles.flush]
  simp

end Json

end Tidings
