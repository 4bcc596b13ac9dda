import Tidings.Json.Shape
import Tidings.Proofs.Parsing
/-!
Shapes and the trees of printed values. A shape reads the text of a value as it reads the tree of the value.
-/
namespace Tidings.Json

/-- Wherever there is room for the value, the shape reads it as `a` exactly when `P` holds. -/
def Reads {α : Type} (shape : Shape α) (v : Value) (a : α) (P : Prop) : Prop :=
  ∀ p : Place, v.depth ≤ p.room → (shape p v.tree = some a ↔ P)

theorem Shape.read?_text {α : Type} (shape : Shape α) {v : Value} (hv : v.IsLegible) :
    shape.read? v.text = shape Place.top v.tree := by
  rw [Shape.read?, Tree.ofText?_text hv, Option.bind_some]

theorem Reads.read?_text {α : Type} {shape : Shape α} {v : Value} {a : α} {P : Prop}
    (h : Reads shape v a P) (hv : v.IsLegible) (hd : v.depth ≤ nestingLimit) :
    shape.read? v.text = some a ↔ P := by
  rw [Shape.read?_text shape hv]
  exact h Place.top hd

/-- What is read and then put under an injective function is known from the result. -/
theorem map_eq_some_of_injective {α β : Type} {f : α → β} (hf : Function.Injective f) {o : Option α} {a : α}
    {b : β} (hb : f a = b) : o.map f = some b ↔ o = some a := by
  subst hb
  exact (Option.map_injective hf).eq_iff' rfl

/-- What a shape reads everywhere is written in one way only. -/
theorem injective_of_shape {α : Type} {toJson : α → Value} {shape : Shape α}
    (h : ∀ (a : α) (p : Place), (toJson a).depth ≤ p.room → shape p (toJson a).tree = some a) :
    Function.Injective toJson := by
  intro a b heq
  let p : Place := ⟨false, (toJson a).depth⟩
  have ha : shape p (toJson a).tree = some a := h a p (Nat.le_refl _)
  have hb : shape p (toJson b).tree = some b := h b p (heq ▸ Nat.le_refl _)
  rw [heq, hb] at ha
  exact (Option.some.inj ha).symm

section Members

variable {members : Members}

theorem mem_memberTrees {member : Option String × Tree} (h : member ∈ Value.memberTrees members) :
    ∃ m ∈ members, member = (some m.1, m.2.tree) := by
  induction members with
  | nil => exact absurd h List.not_mem_nil
  | cons m rest ih =>
    obtain ⟨k, v⟩ := m
    rw [Value.memberTrees, List.mem_cons] at h
    rcases h with rfl | hrest
    · exact ⟨(k, v), List.mem_cons_self, rfl⟩
    · obtain ⟨m, hm, hmember⟩ := ih hrest
      exact ⟨m, List.mem_cons_of_mem _ hm, hmember⟩

theorem valuesOf_of_not_mem {key : String} (h : key ∉ members.map (·.1)) :
    valuesOf key (Value.memberTrees members) = [] := by
  refine List.filterMap_eq_nil_iff.2 fun member hmember => if_neg ?_
  obtain ⟨m, hm, rfl⟩ := mem_memberTrees hmember
  exact fun heq => h (Option.some.inj heq ▸ List.mem_map_of_mem hm)

theorem valuesOf_cons_self {key : String} (v : Value) (h : key ∉ members.map (·.1)) :
    valuesOf key (Value.memberTrees ((key, v) :: members)) = [v.tree] := by
  rw [Value.memberTrees, valuesOf, List.filterMap_cons, if_pos rfl]
  exact congrArg _ (valuesOf_of_not_mem h)

/-- Among distinct keys every field is found. -/
theorem field?_memberTrees {m : String × Value} (hkeys : (members.map (·.1)).Nodup) (hm : m ∈ members) :
    field? (Value.memberTrees members) m.1 = some (some m.2.tree) := by
  have hvalues : valuesOf m.1 (Value.memberTrees members) = [m.2.tree] := by
    induction members with
    | nil => exact absurd hm List.not_mem_nil
    | cons m' rest ih =>
      obtain ⟨k, v⟩ := m'
      obtain ⟨hnot, hrest⟩ := List.nodup_cons.1 hkeys
      rcases List.mem_cons.1 hm with rfl | hmem
      · exact valuesOf_cons_self v hnot
      · have hkey : m.1 ∈ rest.map (·.1) := List.mem_map_of_mem hmem
        have hne : ¬ some k = some m.1 := fun heq => hnot (by rwa [Option.some.inj heq])
        rw [Value.memberTrees, valuesOf, List.filterMap_cons, if_neg hne]
        exact ih hrest hmem
  rw [field?, hvalues]

theorem mapM_of_forall_some {α β : Type} {f : α → Option β} {g : α → β} {l : List α}
    (h : ∀ x ∈ l, f x = some (g x)) : l.mapM f = some (l.map g) := by
  induction l with
  | nil => rfl
  | cons x l ih =>
    rw [List.mapM_cons, h x List.mem_cons_self, ih fun y hy => h y (List.mem_cons_of_mem x hy)]
    rfl

end Members

section Fields

variable {p : Place} {members : Members}

theorem depth_le_inner (h : (Value.obj members).depth ≤ p.room) {m : String × Value} (hm : m ∈ members) :
    m.2.depth ≤ p.inner.room := by
  obtain ⟨inner, hroom, hmembers⟩ := room_of_obj h
  have hinner : p.inner.room = inner := Nat.sub_eq_of_eq_add hroom
  rw [hinner]
  exact (depth_le_depthOfMembers hm).trans hmembers

theorem depth_tail_le {m : String × Value} (h : (Value.obj (m :: members)).depth ≤ p.room) :
    (Value.obj members).depth ≤ p.room := by
  obtain ⟨k, v⟩ := m
  obtain ⟨inner, hroom, hmembers⟩ := room_of_obj h
  rw [Value.depth, hroom]
  exact Nat.succ_le_succ ((Nat.le_max_right _ _).trans hmembers)

theorem room_ne_zero (h : (Value.obj members).depth ≤ p.room) : p.room ≠ 0 := by
  obtain ⟨inner, hroom, _⟩ := room_of_obj h
  exact hroom ▸ Nat.succ_ne_zero inner

/-- The fields of a record are read in the order in which they are written. -/
theorem fields_tree (keys : List String) (hkeys : members.map (·.1) = keys) (hnodup : keys.Nodup)
    (h : (Value.obj members).depth ≤ p.room) :
    Shape.fields keys p (Value.obj members).tree = some (members.map fun m => some m.2.tree) := by
  subst hkeys
  have hsome : (Value.memberTrees members).all (·.1.isSome) := by
    refine List.all_eq_true.2 fun member hmember => ?_
    obtain ⟨m, _, rfl⟩ := mem_memberTrees hmember
    rfl
  rw [Value.tree, Shape.fields, if_pos ⟨room_ne_zero h, hsome⟩, List.mapM_map]
  exact mapM_of_forall_some fun m hm => field?_memberTrees hnodup hm

theorem required_some {α : Type} {shape : Shape α} {t : Tree} {a : α} (h : shape p t = some a) :
    required shape p (some t) = some a := by
  rw [required, Option.bind_some, h]

theorem eq_null_of_tree {v : Value} (h : v.tree = .null) : v = .null := by
  cases v <;> simp [Value.tree] at h ⊢

/-- An absent value is written as `null`, and nothing else is. -/
theorem optional_ofOption {α : Type} {shape : Shape α} {f : α → Value} (hnull : ∀ a, f a ≠ .null)
    {o : Option α} (h : ∀ a ∈ o, shape p (f a).tree = some a) :
    optional shape p (some (Value.ofOption f o).tree) = some o := by
  cases o with
  | none => rfl
  | some a =>
    have ha : (shape p (f a).tree).map some = some (some a) := by rw [h a rfl, Option.map_some]
    rw [Value.ofOption, optional, Shape.option]
    · exact ha
    · exact fun htree => hnull a (eq_null_of_tree htree)

theorem members_tree {inner : Nat} (hroom : p.room = inner + 1) :
    Shape.members p (Value.obj members).tree =
      (Tree.members? inner (Value.memberTrees members)).map Members.ofList := by
  rw [Value.tree, Shape.members, if_neg (hroom ▸ Nat.succ_ne_zero inner), hroom, Nat.add_sub_cancel]

/-- The members of a payload are read as they are exactly when nothing in them is taken for an embedded
text. The payload itself never is. -/
theorem members_tree_iff (h : (Value.obj members).depth ≤ p.room) (hsorted : (Value.obj members).IsSorted) :
    Shape.members p (Value.obj members).tree = some members ↔ ∀ m ∈ members, m.2.IsVerbatim := by
  obtain ⟨inner, hroom, hmembers⟩ := room_of_obj h
  cases hsorted with
  | obj hkeys hvalues =>
    rw [members_tree hroom, ofList_members?_iff hkeys]
    exact forall₂_congr fun m hm =>
      (hvalues m hm).value?_tree_iff ((depth_le_depthOfMembers hm).trans hmembers)

/-- Members for which there is no room are not read. -/
theorem depth_le_of_members (h : (Shape.members p (Value.obj members).tree).isSome) :
    (Value.obj members).depth ≤ p.room := by
  cases hroom : p.room with
  | zero => simp [Value.tree, Shape.members, hroom] at h
  | succ inner =>
    rw [members_tree hroom, Option.isSome_map, Tree.members?] at h
    rw [Value.depth]
    exact Nat.succ_le_succ
      ((Value.membersAreSound_memberTrees inner members).1 (Tree.membersAreSound_of_isSome inner _ h))

/-- The tag of an alternative is found, and its fields are all other members. -/
theorem tagged_tree {α : Type} {tag name : String} {names : List (String × α)} {a : α}
    (hname : names.lookup name = some a) (htag : tag ∉ members.map (·.1))
    (h : (Value.obj ((tag, .str name) :: members)).depth ≤ p.room) :
    Shape.tagged tag names p (Value.obj ((tag, .str name) :: members)).tree =
      some (a, (Value.obj members).tree) := by
  have hsound : ¬ ¬ (Tree.obj (Value.memberTrees ((tag, .str name) :: members))).isSound p.room := by
    rw [not_not]
    exact (Value.isSound_tree p.room _).2 h
  have hrest : (Value.memberTrees ((tag, .str name) :: members)).filter (fun m => m.1 ≠ some tag) =
      Value.memberTrees members := by
    rw [Value.memberTrees, List.filter_cons_of_neg (by simp), List.filter_eq_self]
    intro member hmember
    obtain ⟨m, hm, rfl⟩ := mem_memberTrees hmember
    exact decide_eq_true fun heq => htag (Option.some.inj heq ▸ List.mem_map_of_mem hm)
  have htagOf : tagOf p names (.str (some name)) = some a := hname
  rw [Value.tree, Shape.tagged, if_neg hsound, valuesOf_cons_self _ htag, hrest, Value.tree, Value.tree]
  exact congrArg (Option.map _) htagOf

end Fields

section Embedded

/-- A payload that is read as another: what it holds is taken for an embedded text. -/
def disguised : Members := [("a", .obj [(embeddingKey, .str "[1,2]")])]

def undisguised : Members := [("a", .arr [.int 1, .int 2])]

theorem isPlain_disguised : (Value.obj disguised).IsPlain :=
  .obj (List.forall_mem_singleton.2 (.obj (List.forall_mem_singleton.2 (.str _))))

theorem isSorted_disguised : (Value.obj disguised).IsSorted :=
  .obj (List.pairwise_singleton _ _)
    (List.forall_mem_singleton.2 (.obj (List.pairwise_singleton _ _) (List.forall_mem_singleton.2 (.str _))))

theorem not_isVerbatim_disguised : ¬ ∀ m ∈ disguised, m.2.IsVerbatim := by
  intro h
  rcases h _ List.mem_cons_self with _ | _ | _ | _ | _ | ⟨hkey, _⟩
  exact hkey _ rfl rfl

theorem disguised_ne_undisguised : disguised ≠ undisguised := by
  intro h
  cases h

theorem members_disguised {p : Place} (hp : 2 ≤ p.room) :
    Shape.members p (Value.obj disguised).tree = some undisguised := by
  obtain ⟨room, hroom⟩ : ∃ room, p.room = room + 2 := ⟨p.room - 2, by omega⟩
  have hitems : (Value.arr [.int 1, .int 2]).IsPlain :=
    .arr (List.forall_mem_cons.2 ⟨.int ⟨by decide, by decide⟩,
      List.forall_mem_singleton.2 (.int ⟨by decide, by decide⟩)⟩)
  have hsorted : (Value.arr [.int 1, .int 2]).IsSorted :=
    .arr (List.forall_mem_cons.2 ⟨.num _, List.forall_mem_singleton.2 (.num _)⟩)
  have hverbatim : (Value.arr [.int 1, .int 2]).IsVerbatim :=
    .arr (List.forall_mem_cons.2 ⟨.num _, List.forall_mem_singleton.2 (.num _)⟩)
  have htext : (Value.arr [.int 1, .int 2]).text = "[1,2]" := by decide +kernel
  have hinner : Value.ofText? "[1,2]" = some (.arr [.int 1, .int 2]) := by
    rw [← htext]
    exact (Value.ofText?_text_iff hitems.isLegible hsorted).2 ⟨by decide, hverbatim⟩
  have hvalue : (Value.obj [(embeddingKey, .str "[1,2]")]).tree.value? (room + 1) =
      some (.arr [.int 1, .int 2]) := by
    rw [← hinner]
    simp [Value.tree, Value.memberTrees, Tree.value?, Tree.valueBy?, isEmbedding, embeddedText?]
  rw [Tree.value?] at hvalue
  rw [members_tree hroom, disguised, Value.memberTrees, Tree.members?, Tree.membersBy?, hvalue]
  rfl

end Embedded

end Tidings.Json
