import Tidings.Envelope
import Tidings.Proofs.Identifiers
import Tidings.Proofs.Shapes
import Tidings.Proofs.Timestamps
/-!
The wire forms of addresses, notifications, events, messages and envelopes. What is written is read back as
it was, unless an object in a payload is taken for an embedded text, and no two values of one type are
written in one way.
-/
namespace Tidings

open Json

section Leaves

variable (p : Place)

theorem text_str (s : String) : Shape.text p (Value.str s).tree = some s := by
  rw [Value.tree, Shape.text]

theorem Scope.shape_toJson (s : Scope) : Scope.shape p s.toJson.tree = some s := by
  rw [Scope.toJson, Value.tree, Scope.shape, Shape.name, Option.bind_some, Scope.ofName?_name]

theorem Mode.shape_toJson (m : Mode) : Mode.shape p m.toJson.tree = some m := by
  rw [Mode.toJson, Value.tree, Mode.shape, Shape.name, Option.bind_some, Mode.ofName?_name]

theorem Id.shape_toJson (id : Id) : Id.shape p id.toJson.tree = some id := by
  rw [Id.toJson, Id.shape, text_str, Option.bind_some, Id.ofText?_text]

theorem Instant.shape_toJson (t : Instant) : Instant.shape p t.toJson.tree = some t := by
  rw [Instant.toJson, Instant.shape, text_str, Option.bind_some, Instant.ofText?_text]

end Leaves

/-- A notification of the years 0 to 9999 with a payload without doubles. That a payload is sorted by key,
at every depth, is how payloads are kept. -/
structure Notification.IsPlain (n : Notification) : Prop where
  payload : (Value.obj n.payload).IsPlain
  sorted : (Value.obj n.payload).IsSorted
  year : 0 ≤ n.createdAt.year ∧ n.createdAt.year ≤ 9999

def Event.IsPlain : Event → Prop
  | .notify n => n.IsPlain
  | .dismissed _ _ => True

def Envelope.IsPlain : Envelope → Prop
  | .inline m => m.event.IsPlain
  | .stored _ _ => True

/-- A notification whose payload has only numbers that are read back from their texts. -/
structure Notification.IsLegible (n : Notification) : Prop where
  payload : (Value.obj n.payload).IsLegible
  sorted : (Value.obj n.payload).IsSorted

def Event.IsLegible : Event → Prop
  | .notify n => n.IsLegible
  | .dismissed _ _ => True

def Envelope.IsLegible : Envelope → Prop
  | .inline m => m.event.IsLegible
  | .stored _ _ => True

/-- A notification in whose payload nothing is taken for an embedded text. -/
def Notification.IsVerbatim (n : Notification) : Prop := ∀ m ∈ n.payload, m.2.IsVerbatim

def Event.IsVerbatim : Event → Prop
  | .notify n => n.IsVerbatim
  | .dismissed _ _ => True

def Envelope.IsVerbatim : Envelope → Prop
  | .inline m => m.event.IsVerbatim
  | .stored _ _ => True

theorem Event.isVerbatim_iff (e : Event) :
    e.IsVerbatim ↔ ∀ n, e = .notify n → ∀ m ∈ n.payload, m.2.IsVerbatim := by
  cases e with
  | notify n =>
    constructor
    · intro h n' hn'
      obtain rfl := Event.notify.inj hn'
      exact h
    · intro h
      exact h n rfl
  | dismissed id target => exact iff_of_true trivial fun n hn => Event.noConfusion hn

section Legible

theorem Notification.IsPlain.isLegible {n : Notification} (h : n.IsPlain) : n.IsLegible :=
  ⟨h.payload.isLegible, h.sorted⟩

theorem Event.IsPlain.isLegible {e : Event} (h : e.IsPlain) : e.IsLegible := by
  cases e with
  | notify n => exact Notification.IsPlain.isLegible h
  | dismissed id target => exact trivial

theorem Envelope.IsPlain.isLegible {e : Envelope} (h : e.IsPlain) : e.IsLegible := by
  cases e with
  | inline m => exact Event.IsPlain.isLegible h
  | stored origin id => exact trivial

end Legible

section Plain

theorem isPlain_nil : (Value.obj []).IsPlain := .obj nofun

theorem isPlain_cons {key : String} {v : Value} {members : Members} (hv : v.IsPlain)
    (h : (Value.obj members).IsPlain) : (Value.obj ((key, v) :: members)).IsPlain := by
  cases h with
  | obj hmembers => exact .obj (List.forall_mem_cons.2 ⟨hv, hmembers⟩)

end Plain

/-- A property of values that `null` and texts have, and every object whose members have it. A wire form
has it if the payload does. -/
structure IsInherited (P : Value → Prop) : Prop where
  null : P .null
  str (s : String) : P (.str s)
  obj {members : Members} (h : ∀ m ∈ members, P m.2) : P (.obj members)

theorem isInherited_isPlain : IsInherited Value.IsPlain := ⟨.null, .str, .obj⟩

theorem isInherited_isLegible : IsInherited Value.IsLegible := ⟨.null, .str, .obj⟩

namespace IsInherited

variable {P : Value → Prop} (hP : IsInherited P)
include hP

theorem ofOption {α : Type} {f : α → Value} {o : Option α} (h : ∀ a, P (f a)) :
    P (Value.ofOption f o) := by
  cases o with
  | none => exact hP.null
  | some a => exact h a

theorem address (a : Address) : P a.toJson := by
  refine hP.obj ?_
  simp only [List.forall_mem_cons]
  exact ⟨hP.str _, hP.str _, nofun⟩

theorem notification {n : Notification} (h : P (.obj n.payload)) : P n.toJson := by
  refine hP.obj ?_
  simp only [List.forall_mem_cons]
  exact ⟨hP.str _, hP.str _, hP.ofOption hP.address, hP.ofOption hP.str, hP.str _, h, hP.str _, nofun⟩

theorem event {e : Event} (h : ∀ n, e = .notify n → P (.obj n.payload)) : P e.toJson := by
  cases e with
  | notify n =>
    refine hP.obj ?_
    simp only [List.forall_mem_cons]
    exact ⟨hP.str _, hP.notification (h n rfl), nofun⟩
  | dismissed id target =>
    refine hP.obj ?_
    simp only [List.forall_mem_cons]
    exact ⟨hP.str _, hP.str _, hP.ofOption hP.address, nofun⟩

theorem message {m : Message} (h : ∀ n, m.event = .notify n → P (.obj n.payload)) : P m.toJson := by
  refine hP.obj ?_
  simp only [List.forall_mem_cons]
  exact ⟨hP.str _, hP.event h, nofun⟩

theorem envelope {e : Envelope}
    (h : ∀ m n, e = .inline m → m.event = .notify n → P (.obj n.payload)) : P e.toJson := by
  cases e with
  | inline m =>
    refine hP.obj ?_
    simp only [List.forall_mem_cons]
    exact ⟨hP.str _, hP.message (h m · rfl), nofun⟩
  | stored origin id =>
    refine hP.obj ?_
    simp only [List.forall_mem_cons]
    exact ⟨hP.str _, hP.str _, hP.str _, nofun⟩

end IsInherited

section ToJson

theorem Address.isPlain_toJson (a : Address) : a.toJson.IsPlain := isInherited_isPlain.address a

theorem Notification.isPlain_toJson {n : Notification} (h : n.IsPlain) : n.toJson.IsPlain :=
  isInherited_isPlain.notification h.payload

theorem Event.isPlain_toJson {e : Event} (h : e.IsPlain) : e.toJson.IsPlain := by
  refine isInherited_isPlain.event fun n hn => ?_
  subst hn
  exact Notification.IsPlain.payload h

theorem Message.isPlain_toJson {m : Message} (h : m.event.IsPlain) : m.toJson.IsPlain := by
  refine isInherited_isPlain.message fun n hn => ?_
  rw [hn] at h
  exact Notification.IsPlain.payload h

theorem Envelope.isPlain_toJson {e : Envelope} (h : e.IsPlain) : e.toJson.IsPlain := by
  refine isInherited_isPlain.envelope fun m n hm hn => ?_
  subst hm
  rw [IsPlain, hn] at h
  exact Notification.IsPlain.payload h

theorem Event.IsLegible.toJson {e : Event} (h : e.IsLegible) : e.toJson.IsLegible := by
  refine isInherited_isLegible.event fun n hn => ?_
  subst hn
  exact Notification.IsLegible.payload h

theorem Envelope.IsLegible.toJson {e : Envelope} (h : e.IsLegible) : e.toJson.IsLegible := by
  refine isInherited_isLegible.envelope fun m n hm hn => ?_
  subst hm
  rw [IsLegible, hn] at h
  exact Notification.IsLegible.payload h

end ToJson

section Reading
variable {p : Place}

theorem Address.shape_toJson (a : Address) (hp : a.toJson.depth ≤ p.room) :
    Address.shape p a.toJson.tree = some a := by
  refine (bind_of_some (fields_tree ["scope", "scope_id"] rfl (by decide) hp)).trans ?_
  refine (bind_of_some (required_some (Scope.shape_toJson p.inner a.scope))).trans ?_
  exact bind_of_some (required_some (text_str p.inner a.owner))

/-- A target, or that there is none, is read back. -/
theorem Address.optional_reads {o : Option Address} (hp : (Value.ofOption Address.toJson o).depth ≤ p.room) :
    optional Address.shape p (some (Value.ofOption Address.toJson o).tree) = some o := by
  refine optional_ofOption (fun a => by simp [Address.toJson]) ?_
  rintro a rfl
  exact a.shape_toJson hp

/-- A notification is read back up to its payload, which is what the members of that are read as. -/
theorem Notification.shape_toJson (n : Notification) (hp : n.toJson.depth ≤ p.room) :
    Notification.shape p n.toJson.tree =
      (Shape.members p.inner (Value.obj n.payload).tree).map fun payload => { n with payload } := by
  have htarget : optional Address.shape p.inner (some (Value.ofOption Address.toJson n.target).tree) =
      some n.target :=
    Address.optional_reads (depth_le_inner hp (m := ("target", Value.ofOption Address.toJson n.target)) (by simp))
  have hgroup : optional Shape.text p.inner (some (Value.ofOption .str n.group).tree) = some n.group :=
    optional_ofOption (fun s => by simp) fun s _ => text_str p.inner s
  refine (bind_of_some (fields_tree
    ["id", "type", "target", "group", "mode", "payload", "created_at"] rfl (by decide) hp)).trans ?_
  refine (bind_of_some (required_some (Id.shape_toJson p.inner n.id))).trans ?_
  refine (bind_of_some (required_some (text_str p.inner n.kind))).trans ?_
  refine (bind_of_some htarget).trans ?_
  refine (bind_of_some hgroup).trans ?_
  refine (bind_of_some (required_some (Mode.shape_toJson p.inner n.mode))).trans ?_
  rw [Option.map_eq_bind]
  refine congrArg (Option.bind _) (funext fun payload => ?_)
  exact bind_of_some (required_some (Instant.shape_toJson p.inner n.createdAt))

theorem Event.shape_notify (n : Notification) (hp : (Event.notify n).toJson.depth ≤ p.room) :
    ∃ q : Place, n.toJson.depth ≤ q.room ∧
      Event.shape p (Event.notify n).toJson.tree = (Notification.shape q n.toJson.tree).map .notify := by
  have hrest : (Value.obj [("notification", n.toJson)]).depth ≤ p.room := depth_tail_le hp
  refine ⟨{ p with copied := true }.inner, depth_le_inner hrest List.mem_cons_self, ?_⟩
  refine (bind_of_some (tagged_tree rfl (by simp) hp)).trans ?_
  exact bind_of_some (fields_tree ["notification"] rfl (by decide) hrest)

theorem Event.shape_dismissed (id : Id) (target : Option Address)
    (hp : (Event.dismissed id target).toJson.depth ≤ p.room) :
    Event.shape p (Event.dismissed id target).toJson.tree = some (.dismissed id target) := by
  have hrest : (Value.obj [("id", id.toJson), ("target", Value.ofOption Address.toJson target)]).depth ≤
      p.room := depth_tail_le hp
  refine (bind_of_some (tagged_tree rfl (by simp) hp)).trans ?_
  refine (bind_of_some (fields_tree ["id", "target"] rfl (by decide) hrest)).trans ?_
  refine (bind_of_some (required_some (Id.shape_toJson _ id))).trans ?_
  exact bind_of_some (Address.optional_reads
    (depth_le_inner hrest (m := ("target", Value.ofOption Address.toJson target)) (by simp)))

theorem Message.shape_toJson (m : Message) (hp : m.toJson.depth ≤ p.room) :
    ∃ q : Place, m.event.toJson.depth ≤ q.room ∧
      Message.shape p m.toJson.tree = (Event.shape q m.event.toJson.tree).map fun event => { m with event } := by
  refine ⟨p.inner, depth_le_inner hp (m := ("event", m.event.toJson)) (by simp), ?_⟩
  refine (bind_of_some (fields_tree ["origin", "event"] rfl (by decide) hp)).trans ?_
  refine (bind_of_some (required_some (Id.shape_toJson p.inner m.origin))).trans ?_
  rw [Option.map_eq_bind]
  rfl

theorem Envelope.shape_inline (m : Message) (hp : (inline m).toJson.depth ≤ p.room) :
    ∃ q : Place, m.toJson.depth ≤ q.room ∧
      Envelope.shape p (inline m).toJson.tree = (Message.shape q m.toJson.tree).map .inline := by
  have hrest : (Value.obj [("message", m.toJson)]).depth ≤ p.room := depth_tail_le hp
  refine ⟨{ p with copied := true }.inner, depth_le_inner hrest List.mem_cons_self, ?_⟩
  refine (bind_of_some (tagged_tree rfl (by simp) hp)).trans ?_
  exact bind_of_some (fields_tree ["message"] rfl (by decide) hrest)

theorem Envelope.shape_stored (origin id : Id) (hp : (stored origin id).toJson.depth ≤ p.room) :
    Envelope.shape p (stored origin id).toJson.tree = some (stored origin id) := by
  have hrest : (Value.obj [("origin", origin.toJson), ("id", id.toJson)]).depth ≤ p.room :=
    depth_tail_le hp
  refine (bind_of_some (tagged_tree rfl (by simp) hp)).trans ?_
  refine (bind_of_some (fields_tree ["origin", "id"] rfl (by decide) hrest)).trans ?_
  refine (bind_of_some (required_some (Id.shape_toJson _ origin))).trans ?_
  exact bind_of_some (required_some (Id.shape_toJson _ id))

theorem Address.reads (a : Address) : Reads Address.shape a.toJson a True :=
  fun _ hp => iff_of_true (a.shape_toJson hp) trivial

theorem Notification.IsLegible.reads {n : Notification} (h : n.IsLegible) :
    Reads Notification.shape n.toJson n n.IsVerbatim := by
  intro p hp
  have hsame : Function.Injective fun payload => { n with payload } := fun _ _ heq =>
    congrArg Notification.payload heq
  have hpayload : (Value.obj n.payload).depth ≤ p.inner.room :=
    depth_le_inner hp (m := ("payload", .obj n.payload)) (by simp)
  rw [n.shape_toJson hp]
  exact (map_eq_some_of_injective hsame rfl).trans (members_tree_iff hpayload h.sorted)

theorem Event.IsLegible.reads {e : Event} (h : e.IsLegible) : Reads Event.shape e.toJson e e.IsVerbatim := by
  intro p hp
  cases e with
  | notify n =>
    obtain ⟨q, hq, hshape⟩ := Event.shape_notify n hp
    rw [hshape]
    exact (map_eq_some_of_injective (fun _ _ => Event.notify.inj) rfl).trans
      (Notification.IsLegible.reads h q hq)
  | dismissed id target => exact iff_of_true (Event.shape_dismissed id target hp) trivial

theorem Message.reads {m : Message} (h : m.event.IsLegible) :
    Reads Message.shape m.toJson m m.event.IsVerbatim := by
  intro p hp
  have hsame : Function.Injective fun event => { m with event } := fun _ _ heq => congrArg Message.event heq
  obtain ⟨q, hq, hshape⟩ := m.shape_toJson hp
  rw [hshape]
  exact (map_eq_some_of_injective hsame rfl).trans (h.reads q hq)

theorem Envelope.IsLegible.reads {e : Envelope} (h : e.IsLegible) :
    Reads Envelope.shape e.toJson e e.IsVerbatim := by
  intro p hp
  cases e with
  | inline m =>
    obtain ⟨q, hq, hshape⟩ := Envelope.shape_inline m hp
    rw [hshape]
    exact (map_eq_some_of_injective (fun _ _ => Envelope.inline.inj) rfl).trans (Message.reads h q hq)
  | stored origin id => exact iff_of_true (Envelope.shape_stored origin id hp) trivial

end Reading

section Injective

theorem ofOption_injective {α : Type} {f : α → Value} (hf : Function.Injective f) (hnull : ∀ a, f a ≠ .null) :
    Function.Injective (Value.ofOption f) := by
  intro a b h
  cases a with
  | none =>
    cases b with
    | none => rfl
    | some b => exact absurd h.symm (hnull b)
  | some a =>
    cases b with
    | none => exact absurd h (hnull a)
    | some b => exact congrArg some (hf h)

theorem Id.toJson_injective : Function.Injective Id.toJson :=
  injective_of_shape fun id p _ => id.shape_toJson p

theorem Address.toJson_injective : Function.Injective Address.toJson :=
  injective_of_shape fun a _ hp => a.shape_toJson hp

theorem Address.option_toJson_injective : Function.Injective (Value.ofOption Address.toJson) :=
  ofOption_injective toJson_injective fun a => by simp [Address.toJson]

theorem Notification.toJson_injective : Function.Injective Notification.toJson := by
  rintro ⟨id, kind, target, group, mode, payload, createdAt⟩
    ⟨id', kind', target', group', mode', payload', createdAt'⟩ h
  simp only [toJson, Value.obj.injEq, Value.str.injEq, List.cons.injEq, Prod.mk.injEq, true_and,
    and_true] at h
  obtain ⟨hid, rfl, htarget, hgroup, hmode, rfl, hcreated⟩ := h
  obtain rfl := Id.toJson_injective hid
  obtain rfl := Address.option_toJson_injective htarget
  obtain rfl := ofOption_injective (fun _ _ => Value.str.inj) (fun s => by simp) hgroup
  obtain rfl := injective_of_shape (fun (m : Mode) p _ => m.shape_toJson p) hmode
  obtain rfl := injective_of_shape (fun (t : Instant) p _ => t.shape_toJson p) hcreated
  rfl

theorem Event.toJson_injective : Function.Injective Event.toJson := by
  intro e e' h
  cases e with
  | notify n =>
    cases e' with
    | notify n' =>
      simp only [toJson, Value.obj.injEq, List.cons.injEq, Prod.mk.injEq, true_and, and_true] at h
      exact congrArg Event.notify (Notification.toJson_injective h)
    | dismissed id' target' => simp [toJson] at h
  | dismissed id target =>
    cases e' with
    | notify n' => simp [toJson] at h
    | dismissed id' target' =>
      simp only [toJson, Value.obj.injEq, List.cons.injEq, Prod.mk.injEq, true_and, and_true] at h
      rw [Id.toJson_injective h.1, Address.option_toJson_injective h.2]

theorem Message.toJson_injective : Function.Injective Message.toJson := by
  rintro ⟨origin, event⟩ ⟨origin', event'⟩ h
  simp only [toJson, Value.obj.injEq, List.cons.injEq, Prod.mk.injEq, true_and, and_true] at h
  rw [Id.toJson_injective h.1, Event.toJson_injective h.2]

theorem Envelope.toJson_injective : Function.Injective Envelope.toJson := by
  intro e e' h
  cases e with
  | inline m =>
    cases e' with
    | inline m' =>
      simp only [toJson, Value.obj.injEq, List.cons.injEq, Prod.mk.injEq, true_and, and_true] at h
      exact congrArg Envelope.inline (Message.toJson_injective h)
    | stored origin' id' => simp [toJson] at h
  | stored origin id =>
    cases e' with
    | inline m' => simp [toJson] at h
    | stored origin' id' =>
      simp only [toJson, Value.obj.injEq, List.cons.injEq, Prod.mk.injEq, true_and, and_true] at h
      rw [Id.toJson_injective h.1, Id.toJson_injective h.2]

end Injective

/-- Of the values in `P`, those whose texts do not nest too deep are read from them as they were exactly where
`verbatim` holds, and no two have the same text, however deep it is. -/
structure IsFaithful {α : Type} (P verbatim : α → Prop) (toJson : α → Value) (shape : Shape α) : Prop where
  read : ∀ a, P a → (toJson a).depth ≤ nestingLimit →
    (shape.read? (toJson a).text = some a ↔ verbatim a)
  injective : ∀ a b, P a → P b → (toJson a).text = (toJson b).text → a = b

theorem isFaithful_of_reads {α : Type} {P verbatim : α → Prop} {toJson : α → Value} {shape : Shape α}
    (hplain : ∀ a, P a → (toJson a).IsPlain) (hreads : ∀ a, P a → Reads shape (toJson a) a (verbatim a))
    (hinjective : Function.Injective toJson) : IsFaithful P verbatim toJson shape where
  read a ha hd := (hreads a ha).read?_text (hplain a ha).isLegible hd
  injective a b ha hb heq :=
    hinjective ((hplain a ha).isLegible.eq_of_text_eq (hplain b hb).isLegible heq)

/-- Every wire form is faithful, where no object inside a payload begins with the key of an embedded text. -/
theorem wire_forms_faithful :
    IsFaithful (fun _ => True) (fun _ => True) Address.toJson Address.shape ∧
      IsFaithful Notification.IsPlain Notification.IsVerbatim Notification.toJson Notification.shape ∧
      IsFaithful Event.IsPlain Event.IsVerbatim Event.toJson Event.shape ∧
      IsFaithful (fun m => m.event.IsPlain) (fun m => m.event.IsVerbatim) Message.toJson Message.shape ∧
      IsFaithful Envelope.IsPlain Envelope.IsVerbatim Envelope.toJson Envelope.shape := by
  refine ⟨?_, ?_, ?_, ?_, ?_⟩
  · exact isFaithful_of_reads (fun a _ => a.isPlain_toJson) (fun a _ => a.reads) Address.toJson_injective
  · exact isFaithful_of_reads (fun _ h => Notification.isPlain_toJson h) (fun _ h => h.isLegible.reads)
      Notification.toJson_injective
  · exact isFaithful_of_reads (fun _ h => Event.isPlain_toJson h) (fun _ h => h.isLegible.reads)
      Event.toJson_injective
  · exact isFaithful_of_reads (fun _ h => Message.isPlain_toJson h) (fun _ h => Message.reads h.isLegible)
      Message.toJson_injective
  · exact isFaithful_of_reads (fun _ h => Envelope.isPlain_toJson h) (fun _ h => h.isLegible.reads)
      Envelope.toJson_injective

/-- In a leap second, with characters to escape, and with a payload of objects in arrays. -/
theorem wire_forms_faithful_in_leap_second :
    let time : Instant := ⟨1483228799, 1500000001, by decide, by decide, by decide⟩
    let payload : Members := [("", .arr [.int (-1), .obj [("k\x00", .null)]]), ("on", .bool true)]
    let n : Notification := ⟨⟨5⟩, "al\"arm", some ⟨.user, "J\n𝄞"⟩, none, .queued, payload, time⟩
    let e : Envelope := .inline ⟨⟨7⟩, .notify n⟩
    time.clockSecond = (60, 500000001) ∧ e.IsPlain ∧ e.toJson.depth = 7 ∧
      Envelope.shape.read? e.toJson.text = some e := by
  intro time payload n e
  have hitems : (Value.arr [.int (-1), .obj [("k\x00", .null)]]).IsPlain := by
    refine .arr (List.forall_mem_cons.2 ⟨.int ⟨by decide, by decide⟩, ?_⟩)
    exact List.forall_mem_singleton.2 (isPlain_cons .null isPlain_nil)
  have hplain : (Value.obj payload).IsPlain := isPlain_cons hitems (isPlain_cons (.bool true) isPlain_nil)
  have hsorted : (Value.obj payload).IsSorted := by
    refine .obj (by decide +kernel) ?_
    simp only [payload, List.forall_mem_cons]
    refine ⟨.arr ?_, .bool true, nofun⟩
    simp only [List.forall_mem_cons]
    exact ⟨.num _, .obj (List.pairwise_singleton _ _) (List.forall_mem_singleton.2 .null), nofun⟩
  have hverbatim : n.IsVerbatim := by
    refine List.forall_mem_cons.2 ⟨.arr ?_, List.forall_mem_singleton.2 (.bool true)⟩
    refine List.forall_mem_cons.2 ⟨.num _, List.forall_mem_singleton.2 ?_⟩
    exact .obj (by decide +kernel) (List.forall_mem_singleton.2 .null)
  have he : e.IsPlain := ⟨hplain, hsorted, by decide +kernel⟩
  have hd : e.toJson.depth = 7 := by decide +kernel
  have hread := wire_forms_faithful.2.2.2.2.read e he (hd.trans_le (by decide))
  exact ⟨by decide +kernel, he, hd, hread.2 hverbatim⟩

/-- A plain notification whose text is read as that of another. -/
theorem embedded_text_misread :
    let n : Notification := ⟨⟨5⟩, "note", none, none, .ephemeral, disguised, Instant.epoch⟩
    n.IsPlain ∧ n.toJson.depth ≤ 127 ∧ { n with payload := undisguised } ≠ n ∧
      Notification.shape.read? n.toJson.text = some { n with payload := undisguised } := by
  intro n
  have hn : n.IsPlain := ⟨isPlain_disguised, isSorted_disguised, by decide +kernel⟩
  have hdepth : n.toJson.depth ≤ nestingLimit := by decide
  refine ⟨hn, hdepth, fun heq => disguised_ne_undisguised (congrArg Notification.payload heq).symm, ?_⟩
  rw [Shape.read?_text _ (Notification.isPlain_toJson hn).isLegible, n.shape_toJson hdepth,
    members_disguised (by decide)]
  rfl

end Tidings
