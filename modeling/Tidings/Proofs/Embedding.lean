import Mathlib.Algebra.BigOperators.Group.List.Basic
import Mathlib.Algebra.Ring.Nat
import Mathlib.Tactic.Tauto
import Tidings.Json.Tree
/-!
Embedded texts. A text that is embedded in another is shorter, so whatever is embedded is read; and no text is
read as an object that has only the key of an embedding.
-/
namespace Tidings.Json

mutual
/-- How many characters the strings of a tree have, and one more for each object. -/
def Tree.weight : Tree → Nat
  | .str s => (s.map String.length).getD 0
  | .arr items => Tree.weights items
  | .obj members => Tree.memberWeights members + 1
  | _ => 0

def Tree.weights : List Tree → Nat
  | [] => 0
  | t :: ts => t.weight + Tree.weights ts

def Tree.memberWeights : List (Option String × Tree) → Nat
  | [] => 0
  | (_, t) :: ms => t.weight + Tree.memberWeights ms
end

def Token.weight : Token → Nat
  | .str s => (s.map String.length).getD 0
  | .beginObj => 1
  | _ => 0

def Partial.weight : Partial → Nat
  | .string text | .paired text _ | .escaped text _ | .unicode text _ _ _ => (text.map List.length).getD 0
  | _ => 0

def Scan.weight (s : Scan) : Nat := (s.tokens.map Token.weight).sum + s.state.weight

section Scanning
variable {tokens : List Token} {s s' : Scan} {c : Char}

theorem weight_push (text : Option (List Char)) (c : Char) :
    ((push text c).map List.length).getD 0 ≤ (text.map List.length).getD 0 + 1 := by
  cases text with
  | none => exact Nat.zero_le _
  | some cs => exact Nat.le_refl _

theorem Scan.weight_begin? (h : Scan.begin? tokens c = some s') :
    s'.weight ≤ (tokens.map Token.weight).sum + 1 := by
  unfold begin? at h
  repeat' split at h
  all_goals cases h
  all_goals simp [Scan.weight, Partial.weight, Token.weight]
  omega

theorem Scan.weight_flush? {ts : List Token} (h : s.flush? = some ts) :
    (ts.map Token.weight).sum ≤ s.weight := by
  obtain ⟨tokens, state⟩ := s
  cases state with
  | none =>
    cases h
    exact Nat.le_add_right _ _
  | word text =>
    obtain ⟨t, ht, rfl⟩ := Option.map_eq_some_iff.1 h
    have hweight : t.weight = 0 := by
      unfold wordToken? at ht
      repeat' split at ht
      all_goals cases ht
      all_goals rfl
    simp [Scan.weight, Partial.weight, hweight]
  | number text =>
    obtain ⟨n, _, rfl⟩ := Option.map_eq_some_iff.1 h
    simp [Scan.weight, Partial.weight, Token.weight]
  | _ => cases h

theorem Scan.weight_inString? {text : Option (List Char)} (h : Scan.inString? tokens text c = some s') :
    s'.weight ≤ (tokens.map Token.weight).sum + (text.map List.length).getD 0 + 1 := by
  unfold inString? at h
  split at h
  · cases h
    cases text <;> simp [Scan.weight, Partial.weight, Token.weight]
    omega
  split at h
  · cases h
    simp only [Scan.weight, Partial.weight]
    omega
  split at h
  · cases h
  · cases h
    have hpush := weight_push text c
    simp only [Scan.weight, Partial.weight]
    omega

theorem weight_endUnicode (text : Option (List Char)) (high : Option Nat) (n : Nat) :
    (endUnicode text high n).weight ≤ (text.map List.length).getD 0 + 1 := by
  unfold endUnicode
  repeat' split
  all_goals first
    | exact weight_push _ _
    | exact Nat.zero_le _
    | exact Nat.le_succ _

/-- A character adds one at most. -/
theorem Scan.weight_step? (h : s.step? c = some s') : s'.weight ≤ s.weight + 1 := by
  obtain ⟨tokens, state⟩ := s
  cases state with
  | none => exact Scan.weight_begin? h
  | word text =>
    unfold step? at h
    dsimp only at h
    split at h
    · cases h
      exact Nat.le_succ _
    · obtain ⟨ts, hts, hbegin⟩ := Option.bind_eq_some_iff.1 h
      exact Nat.le_trans (weight_begin? hbegin) (Nat.succ_le_succ (weight_flush? hts))
  | number text =>
    unfold step? at h
    dsimp only at h
    split at h
    · cases h
      exact Nat.le_succ _
    · obtain ⟨ts, hts, hbegin⟩ := Option.bind_eq_some_iff.1 h
      exact Nat.le_trans (weight_begin? hbegin) (Nat.succ_le_succ (weight_flush? hts))
  | string text => exact weight_inString? h
  | paired text high =>
    unfold step? at h
    dsimp only at h
    split at h
    · cases h
      exact Nat.le_succ _
    · have hle := weight_inString? h
      simp only [Scan.weight, Partial.weight, Option.map_none, Option.getD_none] at hle ⊢
      omega
  | escaped text high =>
    unfold step? at h
    dsimp only at h
    split at h
    · cases h
      exact Nat.le_succ _
    · obtain ⟨e, _, rfl⟩ := Option.map_eq_some_iff.1 h
      have hpush := weight_push text e
      cases high <;> simp only [Scan.weight, Partial.weight, Option.isSome_none, Option.isSome_some,
        Bool.false_eq_true, if_true, if_false, Option.map_none, Option.getD_none] <;> omega
  | unicode text high digits value =>
    obtain ⟨d, _, heq⟩ := Option.map_eq_some_iff.1 h
    split at heq
    · subst heq
      have hend := weight_endUnicode text high (16 * value + d)
      show (tokens.map Token.weight).sum + (endUnicode text high (16 * value + d)).weight ≤
        (tokens.map Token.weight).sum + (text.map List.length).getD 0 + 1
      omega
    · subst heq
      exact Nat.le_succ _

theorem Scan.weight_foldlM {cs : List Char} (h : cs.foldlM Scan.step? s = some s') :
    s'.weight ≤ s.weight + cs.length := by
  induction cs generalizing s with
  | nil =>
    cases h
    exact Nat.le_refl _
  | cons c cs ih =>
    rw [List.foldlM_cons] at h
    obtain ⟨s₁, hs₁, hrest⟩ := Option.bind_eq_some_iff.1 h
    have hstep := weight_step? hs₁
    have hall := ih hrest
    rw [List.length_cons]
    omega

theorem weight_tokens? {text : List Char} {ts : List Token} (h : tokens? text = some ts) :
    (ts.map Token.weight).sum ≤ text.length := by
  obtain ⟨reversed, hreversed, rfl⟩ := Option.map_eq_some_iff.1 h
  obtain ⟨s, hs, hflush⟩ := Option.bind_eq_some_iff.1 hreversed
  have hscan := Scan.weight_foldlM hs
  have hstart : Scan.start.weight = 0 := rfl
  rw [hstart, Nat.zero_add] at hscan
  rw [List.map_reverse, List.sum_reverse]
  exact Nat.le_trans (Scan.weight_flush? hflush) hscan

end Scanning

section Parsing
variable {stack : List Opened} {token : Token} {p p' : Parse} {t : Tree}

theorem weights_eq_sum (ts : List Tree) : Tree.weights ts = (ts.map Tree.weight).sum := by
  induction ts with
  | nil => rfl
  | cons t ts ih => rw [Tree.weights, ih, List.map_cons, List.sum_cons]

theorem memberWeights_eq_sum (members : List (Option String × Tree)) :
    Tree.memberWeights members = (members.map fun m => m.2.weight).sum := by
  induction members with
  | nil => rfl
  | cons m members ih =>
    obtain ⟨key, t⟩ := m
    rw [Tree.memberWeights, ih, List.map_cons, List.sum_cons]

def Opened.weight : Opened → Nat
  | .arr items => Tree.weights items
  | .obj members | .keyed members _ => Tree.memberWeights members + 1

def Parse.weight (p : Parse) : Nat := (p.stack.map Opened.weight).sum + (p.result.map Tree.weight).getD 0

theorem Parse.weight_put? (h : Parse.put? stack t = some p) :
    p.weight = (stack.map Opened.weight).sum + t.weight := by
  unfold put? at h
  split at h
  all_goals cases h
  all_goals simp only [Parse.weight, Opened.weight, Tree.weights, Tree.memberWeights, List.map_cons,
    List.map_nil, List.sum_cons, List.sum_nil, Option.map_some, Option.map_none, Option.getD_some,
    Option.getD_none]
  all_goals omega

theorem Parse.weight_value? (h : Parse.value? stack token = some p) :
    p.weight = (stack.map Opened.weight).sum + token.weight := by
  cases token with
  | null | bool | num | str => exact weight_put? h
  | beginArr | beginObj =>
    cases h
    simp [Parse.weight, Opened.weight, Tree.weights, Tree.memberWeights, Token.weight, Nat.add_comm]
  | _ => cases h

theorem Parse.weight_key? (h : Parse.key? stack token = some p) :
    p.weight ≤ (stack.map Opened.weight).sum := by
  unfold key? at h
  repeat' split at h
  all_goals cases h
  exact Nat.le_refl _

theorem Parse.weight_endArr? (h : Parse.endArr? stack = some p) :
    p.weight = (stack.map Opened.weight).sum := by
  unfold endArr? at h
  split at h
  · rw [weight_put? h, Tree.weight, weights_eq_sum, List.map_reverse, List.sum_reverse, ← weights_eq_sum,
      List.map_cons, List.sum_cons, Opened.weight, Nat.add_comm]
  · cases h

theorem Parse.weight_endObj? (h : Parse.endObj? stack = some p) :
    p.weight = (stack.map Opened.weight).sum := by
  unfold endObj? at h
  split at h
  · rw [weight_put? h, Tree.weight, memberWeights_eq_sum, List.map_reverse, List.sum_reverse,
      ← memberWeights_eq_sum, List.map_cons, List.sum_cons, Opened.weight, Nat.add_comm]
  · cases h

/-- A token adds its own weight at most. -/
theorem Parse.weight_step? (h : p.step? token = some p') : p'.weight ≤ p.weight + token.weight := by
  obtain ⟨expect, stack, result⟩ := p
  have hstack : (stack.map Opened.weight).sum ≤ (Parse.mk expect stack result).weight :=
    Nat.le_add_right _ _
  have hmore : (stack.map Opened.weight).sum ≤ (Parse.mk expect stack result).weight + token.weight :=
    Nat.le_trans hstack (Nat.le_add_right _ _)
  cases expect with
  | value => exact (weight_value? h).trans_le (Nat.add_le_add_right hstack _)
  | valueOrEnd =>
    unfold step? at h
    dsimp only at h
    split at h
    · exact (weight_endArr? h).trans_le hmore
    · exact (weight_value? h).trans_le (Nat.add_le_add_right hstack _)
  | key => exact Nat.le_trans (weight_key? h) hmore
  | keyOrEnd =>
    unfold step? at h
    dsimp only at h
    split at h
    · exact (weight_endObj? h).trans_le hmore
    · exact Nat.le_trans (weight_key? h) hmore
  | colon =>
    unfold step? at h
    dsimp only at h
    split at h
    all_goals cases h
    exact Nat.le_add_right _ _
  | commaOrEnd =>
    unfold step? at h
    dsimp only at h
    split at h
    · cases h
      exact Nat.le_add_right _ _
    · cases h
      exact Nat.le_add_right _ _
    · exact (weight_endArr? h).trans_le hmore
    · exact (weight_endObj? h).trans_le hmore
    · cases h

theorem Parse.weight_foldlM {ts : List Token} (h : ts.foldlM Parse.step? p = some p') :
    p'.weight ≤ p.weight + (ts.map Token.weight).sum := by
  induction ts generalizing p with
  | nil =>
    cases h
    exact Nat.le_refl _
  | cons token ts ih =>
    rw [List.foldlM_cons] at h
    obtain ⟨p₁, hp₁, hrest⟩ := Option.bind_eq_some_iff.1 h
    have hstep := weight_step? hp₁
    have hall := ih hrest
    rw [List.map_cons, List.sum_cons]
    omega

/-- The strings in the tree of a text are not longer than the text, and shorter if they are in an object. -/
theorem Tree.weight_ofText? {text : String} (h : Tree.ofText? text = some t) : t.weight ≤ text.length := by
  obtain ⟨ts, hts, hparse⟩ := Option.bind_eq_some_iff.1 h
  obtain ⟨p, hp, hfinish⟩ := Option.bind_eq_some_iff.1 hparse
  have htext := weight_tokens? hts
  have hfold := Parse.weight_foldlM hp
  have hstart : Parse.start.weight = 0 := rfl
  rw [hstart, Nat.zero_add] at hfold
  have hresult : t.weight ≤ p.weight := by
    unfold Parse.finish? at hfinish
    split at hfinish
    · rw [Parse.weight, hfinish]
      exact Nat.le_add_left _ _
    · cases hfinish
  rw [← String.length_toList]
  exact Nat.le_trans hresult (Nat.le_trans hfold htext)

end Parsing

section Reading
variable {f g : String → Option Value}

theorem embeddedText?_length {members : List (Option String × Tree)} {inner : String}
    (h : embeddedText? members = some inner) : inner.length < (Tree.obj members).weight := by
  unfold embeddedText? at h
  split at h
  · subst h
    simp [Tree.weight, Tree.memberWeights]
  · cases h

mutual
/-- Only embedded texts that are in the tree are read. -/
theorem Tree.valueBy?_congr (room : Nat) (t : Tree) (h : ∀ s : String, s.length < t.weight → f s = g s) :
    t.valueBy? f room = t.valueBy? g room := by
  cases t with
  | null | bool | num | str => simp only [Tree.valueBy?]
  | arr items =>
    cases room with
    | zero => simp only [Tree.valueBy?]
    | succ room =>
      rw [Tree.valueBy?, Tree.valueBy?, Tree.valuesBy?_congr room items h]
  | obj members =>
    cases room with
    | zero => simp only [Tree.valueBy?]
    | succ room =>
      have hembedded : (embeddedText? members).bind f = (embeddedText? members).bind g :=
        Option.bind_congr fun inner hinner => h inner (embeddedText?_length hinner)
      rw [Tree.valueBy?, Tree.valueBy?, hembedded,
        Tree.membersBy?_congr room members fun s hs => h s (Nat.lt_succ_of_lt hs)]

theorem Tree.valuesBy?_congr (room : Nat) (ts : List Tree)
    (h : ∀ s : String, s.length < Tree.weights ts → f s = g s) :
    Tree.valuesBy? f room ts = Tree.valuesBy? g room ts := by
  cases ts with
  | nil => rfl
  | cons t ts =>
    rw [Tree.valuesBy?, Tree.valuesBy?,
      Tree.valueBy?_congr room t fun s hs => h s (Nat.lt_add_right _ hs),
      Tree.valuesBy?_congr room ts fun s hs => h s (Nat.lt_add_left _ hs)]

theorem Tree.membersBy?_congr (room : Nat) (members : List (Option String × Tree))
    (h : ∀ s : String, s.length < Tree.memberWeights members → f s = g s) :
    Tree.membersBy? f room members = Tree.membersBy? g room members := by
  cases members with
  | nil => rfl
  | cons m members =>
    obtain ⟨key, t⟩ := m
    rw [Tree.membersBy?, Tree.membersBy?,
      Tree.valueBy?_congr room t fun s hs => h s (Nat.lt_add_right _ hs),
      Tree.membersBy?_congr room members fun s hs => h s (Nat.lt_add_left _ hs)]
end

/-- Whatever is embedded in a text is read, since it is shorter. -/
theorem Value.ofText?_eq (text : String) :
    Value.ofText? text = (Tree.ofText? text).bind (Tree.value? nestingLimit) := by
  rw [Value.ofText?]
  refine Option.bind_congr fun t ht => Tree.valueBy?_congr nestingLimit t fun s hs => ?_
  exact if_pos (Nat.lt_of_lt_of_le hs (Tree.weight_ofText? ht))

mutual
/-- A tree that has a value is sound. -/
theorem Tree.isSound_of_isSome (room : Nat) (t : Tree) (h : (t.valueBy? f room).isSome) :
    t.isSound room := by
  cases t with
  | null | bool => simp only [Tree.isSound]
  | num n =>
    rw [Tree.valueBy?, Option.isSome_map] at h
    rwa [Tree.isSound]
  | str s =>
    rw [Tree.valueBy?, Option.isSome_map] at h
    rwa [Tree.isSound]
  | arr items =>
    cases room with
    | zero => simp [Tree.valueBy?] at h
    | succ room =>
      rw [Tree.valueBy?, Option.isSome_map] at h
      rw [Tree.isSound]
      exact Tree.areSound_of_isSome room items h
  | obj members =>
    cases room with
    | zero => simp [Tree.valueBy?] at h
    | succ room =>
      rw [Tree.valueBy?] at h
      rw [Tree.isSound]
      split at h
      · next hembedding =>
        -- An embedded text is a string, under a key that denotes something.
        obtain ⟨v, hv⟩ := Option.isSome_iff_exists.1 h
        obtain ⟨inner, hinner, _⟩ := Option.bind_eq_some_iff.1 hv
        unfold embeddedText? at hinner
        split at hinner
        · next key text =>
          subst hinner
          have hkey : key = some embeddingKey := by simpa [isEmbedding] using hembedding
          subst hkey
          simp [Tree.membersAreSound, Tree.isSound]
        · cases hinner
      · rw [Option.isSome_map] at h
        exact Tree.membersAreSound_of_isSome room members h

theorem Tree.areSound_of_isSome (room : Nat) (ts : List Tree) (h : (Tree.valuesBy? f room ts).isSome) :
    Tree.areSound room ts := by
  cases ts with
  | nil => rfl
  | cons t ts =>
    obtain ⟨ws, hws⟩ := Option.isSome_iff_exists.1 h
    obtain ⟨v, hv, hrest⟩ := Option.bind_eq_some_iff.1 hws
    obtain ⟨vs, hvs, _⟩ := Option.bind_eq_some_iff.1 hrest
    rw [Tree.areSound, Bool.and_eq_true]
    exact ⟨Tree.isSound_of_isSome room t (hv ▸ rfl), Tree.areSound_of_isSome room ts (hvs ▸ rfl)⟩

theorem Tree.membersAreSound_of_isSome (room : Nat) (members : List (Option String × Tree))
    (h : (Tree.membersBy? f room members).isSome) : Tree.membersAreSound room members := by
  cases members with
  | nil => rfl
  | cons m members =>
    obtain ⟨key, t⟩ := m
    obtain ⟨ws, hws⟩ := Option.isSome_iff_exists.1 h
    obtain ⟨k, hkey, hvalue⟩ := Option.bind_eq_some_iff.1 hws
    obtain ⟨v, hv, hrest⟩ := Option.bind_eq_some_iff.1 hvalue
    obtain ⟨vs, hvs, _⟩ := Option.bind_eq_some_iff.1 hrest
    subst hkey
    rw [Tree.membersAreSound, Bool.and_eq_true, Bool.and_eq_true]
    exact ⟨⟨rfl, Tree.isSound_of_isSome room t (hv ▸ rfl)⟩,
      Tree.membersAreSound_of_isSome room members (hvs ▸ rfl)⟩
end

end Reading

section Keys
variable {members : Members}

theorem Members.mem_keys_insert (members : Members) (key other : String) (value : Value) :
    other ∈ (members.insert key value).map (·.1) ↔ other = key ∨ other ∈ members.map (·.1) := by
  induction members with
  | nil => simp [insert]
  | cons m rest ih =>
    obtain ⟨k, v⟩ := m
    unfold insert
    split
    · next heq =>
      subst heq
      simp
    split
    · simp
    · rw [List.map_cons, List.mem_cons, ih, List.map_cons, List.mem_cons]
      tauto

theorem Members.mem_keys_ofList (members : Members) (key : String) :
    key ∈ (ofList members).map (·.1) ↔ key ∈ members.map (·.1) := by
  have hfold (sorted : Members) :
      key ∈ (members.foldl (fun sorted m => sorted.insert m.1 m.2) sorted).map (·.1) ↔
        key ∈ sorted.map (·.1) ∨ key ∈ members.map (·.1) := by
    induction members generalizing sorted with
    | nil => simp
    | cons m members ih =>
      rw [List.foldl_cons, ih, mem_keys_insert, List.map_cons, List.mem_cons]
      tauto
  exact (hfold []).trans (or_iff_right List.not_mem_nil)

/-- A member that is read is read under its key. -/
theorem Tree.keys_membersBy? {f : String → Option Value} {room : Nat}
    {written : List (Option String × Tree)} (h : Tree.membersBy? f room written = some members) :
    written.map (·.1) = members.map fun m => some m.1 := by
  induction written generalizing members with
  | nil =>
    cases h
    rfl
  | cons m written ih =>
    obtain ⟨key, t⟩ := m
    obtain ⟨k, hkey, hvalue⟩ := Option.bind_eq_some_iff.1 h
    obtain ⟨v, _, hrest⟩ := Option.bind_eq_some_iff.1 hvalue
    obtain ⟨vs, hvs, hmembers⟩ := Option.bind_eq_some_iff.1 hrest
    obtain rfl := Option.some.inj hmembers
    rw [List.map_cons, List.map_cons, ih hvs]
    exact congrArg (· :: _) hkey

/-- An object of the key of an embedding alone is made of an embedded text only. -/
theorem Tree.embeddedText?_of_value? {room : Nat} {t : Tree} {v : Value}
    (h : t.value? room = some (.obj [(embeddingKey, v)])) : ∃ written inner, t = .obj written ∧
      embeddedText? written = some inner ∧ Value.ofText? inner = some (.obj [(embeddingKey, v)]) := by
  rw [Tree.value?] at h
  cases t with
  | obj written =>
    cases room with
    | zero => simp [Tree.valueBy?] at h
    | succ room =>
      rw [Tree.valueBy?] at h
      split at h
      · obtain ⟨inner, hinner, hvalue⟩ := Option.bind_eq_some_iff.1 h
        exact ⟨written, inner, rfl, hinner, hvalue⟩
      · next hplain =>
        obtain ⟨read, hread, hmembers⟩ := Option.map_eq_some_iff.1 h
        have hmembers : Members.ofList read = [(embeddingKey, v)] := Value.obj.inj hmembers
        have hkey (key : String) : key ∈ read.map (·.1) ↔ key = embeddingKey := by
          rw [← Members.mem_keys_ofList, hmembers]
          simp
        have hkeys := Tree.keys_membersBy? hread
        refine absurd ?_ hplain
        -- Some member comes first, and it has this key as all of them do.
        cases read with
        | nil => exact absurd ((hkey embeddingKey).2 rfl) List.not_mem_nil
        | cons m read =>
          cases written with
          | nil => cases hkeys
          | cons w written =>
            have hfirst : w.1 = some m.1 := (List.cons.inj hkeys).1
            rw [(hkey m.1).1 List.mem_cons_self] at hfirst
            simp [isEmbedding, hfirst]
  | _ => cases room <;> simp [Tree.valueBy?] at h

/-- No text is read as an object of the key of an embedding alone. -/
theorem Value.ofText?_ne_embedding (text : String) (v : Value) :
    Value.ofText? text ≠ some (.obj [(embeddingKey, v)]) := by
  intro h
  rw [ofText?_eq] at h
  obtain ⟨t, ht, hvalue⟩ := Option.bind_eq_some_iff.1 h
  obtain ⟨written, inner, rfl, hinner, hread⟩ := Tree.embeddedText?_of_value? hvalue
  have hshorter : inner.length < text.length :=
    Nat.lt_of_lt_of_le (embeddedText?_length hinner) (Tree.weight_ofText? ht)
  exact ofText?_ne_embedding inner v hread
termination_by text.length

end Keys

end Tidings.Json
