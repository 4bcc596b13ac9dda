import Tidings.Proofs.Embedding
import Tidings.Proofs.Scanning
/-!
The tree of a printed text, and the value of that tree. The text of a value is read as the value again if
it does not open more arrays and objects inside one another than a reader allows, and no object in it
begins with the key of an embedded text.
-/
namespace Tidings.Json

mutual
def Value.tree : Value → Tree
  | .null => .null
  | .bool b => .bool b
  | .num n => .num (some n)
  | .str s => .str (some s)
  | .arr items => .arr (Value.trees items)
  | .obj members => .obj (Value.memberTrees members)

def Value.trees : List Value → List Tree
  | [] => []
  | v :: vs => v.tree :: Value.trees vs

def Value.memberTrees : List (String × Value) → List (Option String × Tree)
  | [] => []
  | (k, v) :: ms => (some k, v.tree) :: Value.memberTrees ms
end

mutual
/-- How many arrays and objects the text of a value opens inside one another. -/
def Value.depth : Value → Nat
  | .arr items => Value.depthOfItems items + 1
  | .obj members => Value.depthOfMembers members + 1
  | _ => 0

def Value.depthOfItems : List Value → Nat
  | [] => 0
  | v :: vs => max v.depth (Value.depthOfItems vs)

def Value.depthOfMembers : List (String × Value) → Nat
  | [] => 0
  | (_, v) :: ms => max v.depth (Value.depthOfMembers ms)
end

/-- Wherever a value may stand, some tokens put a tree there. -/
def Parses (ts : List Token) (t : Tree) : Prop :=
  ∀ (stack : List Opened) (result : Option Tree) (rest : List Token) (e : Expect),
    e = .value ∨ e = .valueOrEnd → (ts ++ rest).foldlM Parse.step? ⟨e, stack, result⟩ =
      (Parse.put? stack t).bind fun p => rest.foldlM Parse.step? p

theorem parses_token {t : Token} {tree : Tree} (hend : t ≠ .endArr)
    (h : ∀ stack, Parse.value? stack t = Parse.put? stack tree) : Parses [t] tree := by
  intro stack result rest e he
  have hstep : Parse.step? ⟨e, stack, result⟩ t = Parse.put? stack tree := by
    rcases he with rfl | rfl
    · exact h stack
    · exact (if_neg hend).trans (h stack)
  rw [List.singleton_append, List.foldlM_cons, hstep]
  rfl

/-- The items of an open array, up to its end. -/
theorem parse_items {v : Value} {rest : List Value} (h : ∀ u ∈ v :: rest, Parses u.tokens u.tree)
    (done : List Tree) (stack : List Opened) (result : Option Tree) (more : List Token) {e : Expect}
    (he : e = .value ∨ e = .valueOrEnd) :
    (Value.itemTokens (v :: rest) ++ more).foldlM Parse.step? ⟨e, .arr done :: stack, result⟩ =
      (Parse.put? stack (.arr (done.reverse ++ Value.trees (v :: rest)))).bind fun p =>
        more.foldlM Parse.step? p := by
  have hv := h v List.mem_cons_self
  induction rest generalizing v done result e with
  | nil =>
    rw [Value.itemTokens, List.append_assoc, hv _ _ _ e he]
    simp [Parse.put?, Parse.step?, Parse.endArr?, Value.trees]
  | cons w rest ih =>
    have hrest : ∀ u ∈ w :: rest, Parses u.tokens u.tree := fun u hu => h u (List.mem_cons_of_mem v hu)
    have hcomma : Parse.step? ⟨.commaOrEnd, .arr (v.tree :: done) :: stack, none⟩ .comma =
        some ⟨.value, .arr (v.tree :: done) :: stack, none⟩ := rfl
    rw [Value.itemTokens, List.append_assoc, hv _ _ _ e he, Parse.put?, Option.bind_some,
      List.cons_append, List.foldlM_cons, hcomma]
    refine (ih hrest (v.tree :: done) none (.inl rfl) (hrest w List.mem_cons_self)).trans ?_
    simp [Value.trees]

theorem parse_key (k : String) (done : List (Option String × Tree)) (stack : List Opened)
    (result : Option Tree) {e : Expect} (he : e = .key ∨ e = .keyOrEnd) (ts : List Token) :
    (.str (some k) :: .colon :: ts).foldlM Parse.step? ⟨e, .obj done :: stack, result⟩ =
      ts.foldlM Parse.step? ⟨.value, .keyed done (some k) :: stack, none⟩ := by
  rcases he with rfl | rfl <;> rfl

/-- The members of an open object, up to its end. -/
theorem parse_members {m : String × Value} {rest : Members}
    (h : ∀ u ∈ m :: rest, Parses u.2.tokens u.2.tree) (done : List (Option String × Tree))
    (stack : List Opened) (result : Option Tree) (more : List Token) {e : Expect}
    (he : e = .key ∨ e = .keyOrEnd) :
    (Value.memberTokens (m :: rest) ++ more).foldlM Parse.step? ⟨e, .obj done :: stack, result⟩ =
      (Parse.put? stack (.obj (done.reverse ++ Value.memberTrees (m :: rest)))).bind fun p =>
        more.foldlM Parse.step? p := by
  induction rest generalizing m done result e with
  | nil =>
    obtain ⟨k, v⟩ := m
    have hv : Parses v.tokens v.tree := h (k, v) List.mem_cons_self
    rw [Value.memberTokens, List.cons_append, List.cons_append, parse_key k done stack result he,
      List.append_assoc, hv _ _ _ _ (.inl rfl)]
    simp [Parse.put?, Parse.step?, Parse.endObj?, Value.memberTrees]
  | cons m' rest ih =>
    obtain ⟨k, v⟩ := m
    have hv : Parses v.tokens v.tree := h (k, v) List.mem_cons_self
    have hrest : ∀ u ∈ m' :: rest, Parses u.2.tokens u.2.tree := fun u hu =>
      h u (List.mem_cons_of_mem _ hu)
    have hcomma : Parse.step? ⟨.commaOrEnd, .obj ((some k, v.tree) :: done) :: stack, none⟩ .comma =
        some ⟨.key, .obj ((some k, v.tree) :: done) :: stack, none⟩ := rfl
    rw [Value.memberTokens, List.cons_append, List.cons_append, parse_key k done stack result he,
      List.append_assoc, hv _ _ _ _ (.inl rfl), Parse.put?, Option.bind_some, List.cons_append,
      List.foldlM_cons, hcomma]
    refine (ih hrest ((some k, v.tree) :: done) none (.inl rfl)).trans ?_
    simp [Value.memberTrees]

/-- The tokens of a value are parsed to its tree. -/
theorem Value.IsLegible.parses {v : Value} (h : v.IsLegible) : Parses v.tokens v.tree := by
  induction h with
  | null => exact parses_token (by simp) fun _ => rfl
  | bool b => exact parses_token (by simp) fun _ => rfl
  | num hn => exact parses_token (by simp) fun _ => rfl
  | str s => exact parses_token (by simp) fun _ => rfl
  | @arr items h ih =>
    intro stack result rest e he
    have hopen (ts : List Token) : (.beginArr :: ts).foldlM Parse.step? ⟨e, stack, result⟩ =
        ts.foldlM Parse.step? ⟨.valueOrEnd, .arr [] :: stack, none⟩ := by
      rcases he with rfl | rfl <;> rfl
    rw [Value.tokens, List.cons_append, hopen]
    cases items with
    | nil => rfl
    | cons v items => exact parse_items ih [] stack none rest (.inr rfl)
  | @obj members h ih =>
    intro stack result rest e he
    have hopen (ts : List Token) : (.beginObj :: ts).foldlM Parse.step? ⟨e, stack, result⟩ =
        ts.foldlM Parse.step? ⟨.keyOrEnd, .obj [] :: stack, none⟩ := by
      rcases he with rfl | rfl <;> rfl
    rw [Value.tokens, List.cons_append, hopen]
    cases members with
    | nil => rfl
    | cons m members => exact parse_members ih [] stack none rest (.inr rfl)

/-- The text of a value is read as its tree, however deep it is. -/
theorem Tree.ofText?_text {v : Value} (h : v.IsLegible) : Tree.ofText? v.text = some v.tree := by
  have hparse : v.tokens.foldlM Parse.step? Parse.start = some ⟨.commaOrEnd, [], some v.tree⟩ := by
    have hv := h.parses [] none [] .value (.inl rfl)
    rwa [List.append_nil] at hv
  rw [Tree.ofText?, Value.text, String.toList_ofList, tokens?_render h, Option.bind_some, hparse]
  rfl

section Room

theorem Members.insert_of_last {key : String} {value : Value} {members : Members}
    (h : ∀ m ∈ members, m.1 < key) : members.insert key value = members ++ [(key, value)] := by
  induction members with
  | nil => rfl
  | cons m rest ih =>
    obtain ⟨k, v⟩ := m
    have hk : k < key := h (k, v) List.mem_cons_self
    have hne : ¬ key = k := fun heq => String.lt_irrefl k (heq ▸ hk)
    have hnot : ¬ key < k := String.lt_asymm hk
    rw [Members.insert, if_neg hne, if_neg hnot, ih fun m hm => h m (List.mem_cons_of_mem _ hm)]
    rfl

/-- Sorted members are read as they are. -/
theorem Members.ofList_of_sorted {members : Members} (h : members.Pairwise (·.1 < ·.1)) :
    Members.ofList members = members := by
  have hfold (before after : Members) (h : (before ++ after).Pairwise (·.1 < ·.1)) :
      after.foldl (fun sorted m => sorted.insert m.1 m.2) before = before ++ after := by
    induction after generalizing before with
    | nil => exact (List.append_nil before).symm
    | cons m after ih =>
      have hlast : ∀ m' ∈ before, m'.1 < m.1 := fun m' hm' =>
        (List.pairwise_append.1 h).2.2 m' hm' m List.mem_cons_self
      have hsplit : before ++ m :: after = (before ++ [m]) ++ after := by simp
      rw [List.foldl_cons, Members.insert_of_last hlast, hsplit]
      exact ih (before ++ [m]) (hsplit ▸ h)
  exact hfold [] members h

/-- A value whose objects hold their members sorted by key, each key once. -/
inductive Value.IsSorted : Value → Prop where
  | null : IsSorted .null
  | bool (b : Bool) : IsSorted (.bool b)
  | num (n : Number) : IsSorted (.num n)
  | str (s : String) : IsSorted (.str s)
  | arr {items : List Value} (h : ∀ v ∈ items, IsSorted v) : IsSorted (.arr items)
  | obj {members : Members} (hkeys : members.Pairwise (·.1 < ·.1))
    (h : ∀ m ∈ members, IsSorted m.2) : IsSorted (.obj members)

/-- A value in which no object begins with the key of an embedded text. -/
inductive Value.IsVerbatim : Value → Prop where
  | null : IsVerbatim .null
  | bool (b : Bool) : IsVerbatim (.bool b)
  | num (n : Number) : IsVerbatim (.num n)
  | str (s : String) : IsVerbatim (.str s)
  | arr {items : List Value} (h : ∀ v ∈ items, IsVerbatim v) : IsVerbatim (.arr items)
  | obj {members : Members} (hkey : ∀ m ∈ members.head?, m.1 ≠ embeddingKey)
    (h : ∀ m ∈ members, IsVerbatim m.2) : IsVerbatim (.obj members)

theorem depth_le_depthOfItems {items : List Value} {v : Value} (h : v ∈ items) :
    v.depth ≤ Value.depthOfItems items := by
  induction items with
  | nil => exact absurd h List.not_mem_nil
  | cons u rest ih =>
    rw [Value.depthOfItems]
    rcases List.mem_cons.1 h with rfl | hrest
    · exact Nat.le_max_left _ _
    · exact (ih hrest).trans (Nat.le_max_right _ _)

theorem depth_le_depthOfMembers {members : Members} {m : String × Value} (h : m ∈ members) :
    m.2.depth ≤ Value.depthOfMembers members := by
  induction members with
  | nil => exact absurd h List.not_mem_nil
  | cons m' rest ih =>
    obtain ⟨k, v⟩ := m'
    rw [Value.depthOfMembers]
    rcases List.mem_cons.1 h with rfl | hrest
    · exact Nat.le_max_left _ _
    · exact (ih hrest).trans (Nat.le_max_right _ _)

mutual
/-- The tree of a value is sound if there is room for it. -/
theorem Value.isSound_tree (room : Nat) (v : Value) : v.tree.isSound room ↔ v.depth ≤ room := by
  cases v with
  | null | bool | num | str => simp [Value.tree, Tree.isSound, Value.depth]
  | arr items =>
    cases room with
    | zero => simp [Value.tree, Tree.isSound, Value.depth]
    | succ room =>
      rw [Value.tree, Tree.isSound, Value.depth, Nat.add_le_add_iff_right]
      exact Value.areSound_trees room items
  | obj members =>
    cases room with
    | zero => simp [Value.tree, Tree.isSound, Value.depth]
    | succ room =>
      rw [Value.tree, Tree.isSound, Value.depth, Nat.add_le_add_iff_right]
      exact Value.membersAreSound_memberTrees room members

theorem Value.areSound_trees (room : Nat) (items : List Value) :
    Tree.areSound room (Value.trees items) ↔ Value.depthOfItems items ≤ room := by
  cases items with
  | nil => simp [Value.trees, Tree.areSound, Value.depthOfItems]
  | cons v items =>
    rw [Value.trees, Tree.areSound, Bool.and_eq_true, Value.isSound_tree room v,
      Value.areSound_trees room items, Value.depthOfItems, Nat.max_le]

theorem Value.membersAreSound_memberTrees (room : Nat) (members : List (String × Value)) :
    Tree.membersAreSound room (Value.memberTrees members) ↔ Value.depthOfMembers members ≤ room := by
  cases members with
  | nil => simp [Value.memberTrees, Tree.membersAreSound, Value.depthOfMembers]
  | cons m members =>
    obtain ⟨k, v⟩ := m
    rw [Value.memberTrees, Tree.membersAreSound, Option.isSome_some, Bool.true_and, Bool.and_eq_true,
      Value.isSound_tree room v, Value.membersAreSound_memberTrees room members, Value.depthOfMembers,
      Nat.max_le]
end

variable {room : Nat}

theorem room_of_arr {items : List Value} (hd : (Value.arr items).depth ≤ room) :
    ∃ inner, room = inner + 1 ∧ Value.depthOfItems items ≤ inner := by
  rw [Value.depth] at hd
  obtain ⟨inner, rfl⟩ := Nat.exists_eq_succ_of_ne_zero (Nat.ne_of_gt (Nat.zero_lt_of_lt hd))
  exact ⟨inner, rfl, Nat.le_of_succ_le_succ hd⟩

theorem room_of_obj {members : Members} (hd : (Value.obj members).depth ≤ room) :
    ∃ inner, room = inner + 1 ∧ Value.depthOfMembers members ≤ inner := by
  rw [Value.depth] at hd
  obtain ⟨inner, rfl⟩ := Nat.exists_eq_succ_of_ne_zero (Nat.ne_of_gt (Nat.zero_lt_of_lt hd))
  exact ⟨inner, rfl, Nat.le_of_succ_le_succ hd⟩

theorem values?_trees_iff (items : List Value) :
    Tree.valuesBy? Value.ofText? room (Value.trees items) = some items ↔
      ∀ v ∈ items, v.tree.value? room = some v := by
  induction items with
  | nil => exact iff_of_true rfl (List.forall_mem_nil _)
  | cons v items ih =>
    rw [List.forall_mem_cons, ← ih, Value.trees, Tree.valuesBy?]
    constructor
    · intro h
      obtain ⟨w, hw, hrest⟩ := Option.bind_eq_some_iff.1 h
      obtain ⟨ws, hws, heq⟩ := Option.bind_eq_some_iff.1 hrest
      obtain ⟨rfl, rfl⟩ := List.cons.inj (Option.some.inj heq)
      exact ⟨hw, hws⟩
    · rintro ⟨hv, hitems⟩
      rw [Tree.value?] at hv
      rw [hv, hitems]
      rfl

theorem members?_memberTrees_iff (members : Members) :
    Tree.members? room (Value.memberTrees members) = some members ↔
      ∀ m ∈ members, m.2.tree.value? room = some m.2 := by
  induction members with
  | nil => exact iff_of_true rfl (List.forall_mem_nil _)
  | cons m members ih =>
    obtain ⟨k, v⟩ := m
    rw [List.forall_mem_cons, ← ih, Value.memberTrees, Tree.members?, Tree.membersBy?]
    constructor
    · intro h
      obtain ⟨key, _, hvalue⟩ := Option.bind_eq_some_iff.1 h
      obtain ⟨w, hw, hrest⟩ := Option.bind_eq_some_iff.1 hvalue
      obtain ⟨ws, hws, heq⟩ := Option.bind_eq_some_iff.1 hrest
      obtain ⟨hm, rfl⟩ := List.cons.inj (Option.some.inj heq)
      obtain ⟨_, rfl⟩ := Prod.mk.inj hm
      exact ⟨hw, hws⟩
    · rintro ⟨hv, hmembers⟩
      rw [Tree.value?] at hv
      rw [Tree.members?] at hmembers
      rw [hv, hmembers]
      rfl

theorem keys_memberTrees (members : Members) :
    (Value.memberTrees members).map (·.1) = members.map fun m => some m.1 := by
  induction members with
  | nil => rfl
  | cons m members ih =>
    obtain ⟨k, v⟩ := m
    rw [Value.memberTrees, List.map_cons, List.map_cons, ih]

/-- Sorted members are read as they are exactly when each value is. -/
theorem ofList_members?_iff {members : Members} (hkeys : members.Pairwise (·.1 < ·.1)) :
    (Tree.members? room (Value.memberTrees members)).map Members.ofList = some members ↔
      ∀ m ∈ members, m.2.tree.value? room = some m.2 := by
  rw [← members?_memberTrees_iff]
  constructor
  · intro h
    obtain ⟨read, hread, heq⟩ := Option.map_eq_some_iff.1 h
    have hsame : read.map (·.1) = members.map (·.1) := by
      have hsome := (Tree.keys_membersBy? hread).symm.trans (keys_memberTrees members)
      refine List.map_injective_iff.2 (Option.some_injective String) ?_
      rw [List.map_map, List.map_map]
      exact hsome
    have hsorted : read.Pairwise (·.1 < ·.1) := by
      rw [← List.pairwise_map, hsame, List.pairwise_map]
      exact hkeys
    rw [Members.ofList_of_sorted hsorted] at heq
    rw [hread, heq]
  · intro h
    rw [h, Option.map_some, Members.ofList_of_sorted hkeys]

theorem isEmbedding_memberTrees (members : Members) :
    isEmbedding (Value.memberTrees members) ↔ ∃ m ∈ members.head?, m.1 = embeddingKey := by
  cases members with
  | nil => simp [Value.memberTrees, isEmbedding]
  | cons m members =>
    obtain ⟨k, v⟩ := m
    simp [Value.memberTrees, isEmbedding]

/-- An object that begins with the key of an embedded text is never read as it is. -/
theorem value?_tree_ne_of_embedding {members : Members} (h : isEmbedding (Value.memberTrees members)) :
    (embeddedText? (Value.memberTrees members)).bind Value.ofText? ≠ some (.obj members) := by
  intro hvalue
  obtain ⟨inner, hinner, hread⟩ := Option.bind_eq_some_iff.1 hvalue
  cases members with
  | nil => cases hinner
  | cons m members =>
    obtain ⟨k, v⟩ := m
    cases members with
    | nil =>
      have hkey : k = embeddingKey := by simpa [Value.memberTrees, isEmbedding] using h
      subst hkey
      exact Value.ofText?_ne_embedding inner v hread
    | cons m' members =>
      obtain ⟨k', v'⟩ := m'
      simp [Value.memberTrees, embeddedText?] at hinner

/-- The tree of a sorted value for which there is room has that value exactly when nothing in it is taken
for an embedded text. -/
theorem Value.IsSorted.value?_tree_iff {v : Value} (h : v.IsSorted) (hd : v.depth ≤ room) :
    v.tree.value? room = some v ↔ v.IsVerbatim := by
  induction h generalizing room with
  | null => exact iff_of_true (by rw [Value.tree, Tree.value?, Tree.valueBy?]) .null
  | bool b => exact iff_of_true (by rw [Value.tree, Tree.value?, Tree.valueBy?]) (.bool b)
  | num n => exact iff_of_true (by rw [Value.tree, Tree.value?, Tree.valueBy?, Option.map_some]) (.num n)
  | str s => exact iff_of_true (by rw [Value.tree, Tree.value?, Tree.valueBy?, Option.map_some]) (.str s)
  | @arr items h ih =>
    obtain ⟨inner, rfl, hitems⟩ := room_of_arr hd
    have hone (v : Value) (hv : v ∈ items) : v.tree.value? inner = some v ↔ v.IsVerbatim :=
      ih v hv ((depth_le_depthOfItems hv).trans hitems)
    have hmap : (Tree.valuesBy? ofText? inner (Value.trees items)).map Value.arr = some (.arr items) ↔
        Tree.valuesBy? ofText? inner (Value.trees items) = some items :=
      (Option.map_injective fun _ _ => Value.arr.inj).eq_iff' rfl
    rw [Value.tree, Tree.value?, Tree.valueBy?, hmap, values?_trees_iff, forall₂_congr hone]
    refine ⟨.arr, ?_⟩
    rintro ⟨⟩
    assumption
  | @obj members hkeys h ih =>
    obtain ⟨inner, rfl, hmembers⟩ := room_of_obj hd
    have hone (m : String × Value) (hm : m ∈ members) : m.2.tree.value? inner = some m.2 ↔ m.2.IsVerbatim :=
      ih m hm ((depth_le_depthOfMembers hm).trans hmembers)
    rw [Value.tree, Tree.value?, Tree.valueBy?]
    split
    · next hembedding =>
      refine iff_of_false (value?_tree_ne_of_embedding hembedding) ?_
      obtain ⟨m, hm, hkey⟩ := (isEmbedding_memberTrees members).1 hembedding
      rintro (_ | _ | _ | _ | _ | ⟨hfirst, _⟩)
      exact hfirst m hm hkey
    · next hplain =>
      have hfirst : ∀ m ∈ members.head?, m.1 ≠ embeddingKey := fun m hm hkey =>
        hplain ((isEmbedding_memberTrees members).2 ⟨m, hm, hkey⟩)
      have hmap : ((Tree.membersBy? ofText? inner (Value.memberTrees members)).map fun ms =>
            Value.obj (Members.ofList ms)) = some (.obj members) ↔
          (Tree.members? inner (Value.memberTrees members)).map Members.ofList = some members := by
        rw [← (Option.map_injective fun _ _ => Value.obj.inj).eq_iff' (Option.map_some ..), Option.map_map]
        rfl
      rw [hmap, ofList_members?_iff hkeys, forall₂_congr hone]
      refine ⟨.obj hfirst, ?_⟩
      rintro (_ | _ | _ | _ | _ | ⟨_, hverbatim⟩)
      exact hverbatim

/-- A sorted value is read back from its text exactly when it does not nest too deep and nothing in it is
taken for an embedded text. -/
theorem Value.ofText?_text_iff {v : Value} (h : v.IsLegible) (hsorted : v.IsSorted) :
    Value.ofText? v.text = some v ↔ v.depth ≤ nestingLimit ∧ v.IsVerbatim := by
  rw [Value.ofText?_eq, Tree.ofText?_text h, Option.bind_some]
  constructor
  · intro hread
    have hsome : (v.tree.value? nestingLimit).isSome := hread ▸ rfl
    have hdepth := (Value.isSound_tree nestingLimit v).1 (Tree.isSound_of_isSome nestingLimit v.tree hsome)
    exact ⟨hdepth, (hsorted.value?_tree_iff hdepth).1 hread⟩
  · exact fun ⟨hdepth, hverbatim⟩ => (hsorted.value?_tree_iff hdepth).2 hverbatim

/-- Arrays inside one another. -/
theorem legible_sorted_nested (k : Nat) : ((fun v => Value.arr [v])^[k] .null).IsLegible ∧
    ((fun v => Value.arr [v])^[k] .null).IsSorted := by
  induction k with
  | zero => exact ⟨.null, .null⟩
  | succ k ih =>
    rw [Function.iterate_succ_apply']
    exact ⟨.arr (List.forall_mem_singleton.2 ih.1), .arr (List.forall_mem_singleton.2 ih.2)⟩

end Room

section Injective

mutual
/-- Different values have different trees. -/
theorem Value.eq_of_tree_eq (v w : Value) (h : v.tree = w.tree) : v = w := by
  cases v with
  | null | bool | num | str => cases w <;> simp_all [Value.tree]
  | arr items =>
    cases w with
    | arr items' => exact congrArg Value.arr (Value.eq_of_trees_eq items items' (Tree.arr.inj h))
    | _ => cases h
  | obj members =>
    cases w with
    | obj members' => exact congrArg Value.obj (Value.eq_of_memberTrees_eq members members' (Tree.obj.inj h))
    | _ => cases h

theorem Value.eq_of_trees_eq (vs ws : List Value) (h : Value.trees vs = Value.trees ws) : vs = ws := by
  cases vs with
  | nil =>
    cases ws with
    | nil => rfl
    | cons w ws => cases h
  | cons v vs =>
    cases ws with
    | nil => cases h
    | cons w ws =>
      obtain ⟨hfirst, hrest⟩ := List.cons.inj h
      rw [Value.eq_of_tree_eq v w hfirst, Value.eq_of_trees_eq vs ws hrest]

theorem Value.eq_of_memberTrees_eq (ms ns : List (String × Value))
    (h : Value.memberTrees ms = Value.memberTrees ns) : ms = ns := by
  cases ms with
  | nil =>
    cases ns with
    | nil => rfl
    | cons n ns => cases h
  | cons m ms =>
    cases ns with
    | nil => cases h
    | cons n ns =>
      obtain ⟨hfirst, hrest⟩ := List.cons.inj h
      obtain ⟨hkey, hvalue⟩ := Prod.mk.inj hfirst
      have hm : m = n := Prod.ext (Option.some.inj hkey) (Value.eq_of_tree_eq m.2 n.2 hvalue)
      rw [hm, Value.eq_of_memberTrees_eq ms ns hrest]
end

/-- Two values that are read back number by number have different texts. -/
theorem Value.IsLegible.eq_of_text_eq {v w : Value} (hv : v.IsLegible) (hw : w.IsLegible)
    (h : v.text = w.text) : v = w := by
  have htree := Tree.ofText?_text hv
  rw [h, Tree.ofText?_text hw] at htree
  exact (Value.eq_of_tree_eq w v (Option.some.inj htree)).symm

end Injective

end Tidings.Json
