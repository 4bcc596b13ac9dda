import Tidings.Proofs.Interleaving
import Tidings.Proofs.Parsing
/-!
What a client receives for an event. The members that describe the notification say what they say whatever
its payload holds, and the rest of the payload is spread around them.
-/
namespace Tidings

namespace Json.Members

theorem pairwise_insert {members : Members} (h : members.Pairwise (·.1 < ·.1)) (key : String) (value : Value) :
    (members.insert key value).Pairwise (·.1 < ·.1) := by
  have hmem {ms : Members} {m : String × Value} (hm : m ∈ ms.insert key value) : m = (key, value) ∨ m ∈ ms := by
    induction ms with
    | nil => exact .inl (List.mem_singleton.1 hm)
    | cons m' ms ih =>
      unfold insert at hm
      split at hm
      · exact (List.mem_cons.1 hm).imp id (List.mem_cons_of_mem m')
      · split at hm
        · exact List.mem_cons.1 hm
        · rcases List.mem_cons.1 hm with rfl | hm
          · exact .inr List.mem_cons_self
          · exact (ih hm).imp id (List.mem_cons_of_mem m')
  induction members with
  | nil => exact List.pairwise_singleton ..
  | cons m members ih =>
    obtain ⟨k, v⟩ := m
    obtain ⟨hfirst, hrest⟩ := List.pairwise_cons.1 h
    unfold insert
    split
    · next heq => exact List.pairwise_cons.2 ⟨fun m hm => heq ▸ hfirst m hm, hrest⟩
    · next hne =>
      split
      · next hlt =>
        refine List.pairwise_cons.2 ⟨fun m hm => ?_, h⟩
        rcases List.mem_cons.1 hm with rfl | hm
        · exact hlt
        · exact String.lt_trans hlt (hfirst m hm)
      · next hge =>
        have hgt : k < key := Std.lt_of_le_of_ne (String.not_lt.1 hge) fun heq => hne heq.symm
        refine List.pairwise_cons.2 ⟨fun m hm => ?_, ih hrest⟩
        rcases hmem hm with rfl | hm
        · exact hgt
        · exact hfirst m hm

/-- Where members are sorted, each key has its one value. -/
theorem mem_iff_get? {members : Members} (h : members.Pairwise (·.1 < ·.1)) {key : String} {value : Value} :
    (key, value) ∈ members ↔ members.get? key = some value := by
  induction members with
  | nil => exact ⟨fun hm => (nomatch hm), fun hg => (nomatch hg)⟩
  | cons m members ih =>
    obtain ⟨k, v⟩ := m
    obtain ⟨hfirst, hrest⟩ := List.pairwise_cons.1 h
    rw [get?_cons, List.mem_cons, ih hrest]
    by_cases hk : key = k
    · subst hk
      have hnone : get? members key ≠ some value := fun hg =>
        String.lt_irrefl key (hfirst _ ((ih hrest).2 hg))
      simp [hnone, eq_comm]
    · rw [if_neg hk]
      simp [hk]

/-- Members with others put over them. -/
def overlay (body own : Members) : Members := own.foldl (fun body m => body.insert m.1 m.2) body

theorem get?_eq_none {members : Members} {key : String} (h : key ∉ members.map (·.1)) :
    members.get? key = none := by
  induction members with
  | nil => rfl
  | cons m members ih =>
    rw [List.map_cons, List.mem_cons, not_or] at h
    rw [get?_cons, if_neg h.1, ih h.2]

theorem get?_of_mem {members : Members} (h : (members.map (·.1)).Nodup) {key : String} {value : Value}
    (hm : (key, value) ∈ members) : members.get? key = some value := by
  induction members with
  | nil => contradiction
  | cons m members ih =>
    obtain ⟨k, v⟩ := m
    obtain ⟨hk, hrest⟩ := List.nodup_cons.1 h
    rw [get?_cons]
    rcases List.mem_cons.1 hm with heq | htail
    · obtain ⟨rfl, rfl⟩ := Prod.mk.inj heq
      exact if_pos rfl
    · have hkey : key ∈ members.map (·.1) := List.mem_map_of_mem htail
      have hne : key ≠ k := fun heq => hk (heq ▸ hkey)
      rw [if_neg hne]
      exact ih hrest htail

theorem get?_overlay {own : Members} (h : (own.map (·.1)).Nodup) (body : Members) (key : String) :
    (body.overlay own).get? key = (own.get? key).or (body.get? key) := by
  induction own generalizing body with
  | nil => rfl
  | cons m own ih =>
    obtain ⟨k, v⟩ := m
    obtain ⟨hk, hrest⟩ := List.nodup_cons.1 h
    have hover : overlay body ((k, v) :: own) = (body.insert k v).overlay own := rfl
    rw [hover, ih hrest, get?_cons, get?_insert]
    by_cases heq : key = k
    · subst heq
      rw [get?_eq_none hk, if_pos rfl, if_pos rfl]
      rfl
    · rw [if_neg heq, if_neg heq]

theorem pairwise_overlay {body : Members} (h : body.Pairwise (·.1 < ·.1)) (own : Members) :
    (body.overlay own).Pairwise (·.1 < ·.1) := by
  induction own generalizing body with
  | nil => exact h
  | cons m own ih => exact ih (pairwise_insert h m.1 m.2)

end Json.Members

/-- The names that no payload member keeps in the body for a notification of a mode. -/
def Mode.reserved (mode : Mode) : List String :=
  ["type", "id", "mode", "group", "dismissible", "created_at"] ++
    if mode = .timeseries then ["expires_in"] else []

namespace Notification

/-- What the body says about the notification itself. -/
def description (displaySeconds : Nat) (n : Notification) : Json.Members :=
  [("type", .str n.kind), ("id", .str n.id.text), ("mode", .str n.mode.name),
    ("group", Json.Value.ofOption .str n.group), ("dismissible", .bool (n.mode.isDismissible && !n.isBroadcast)),
    ("created_at", .num n.createdAt.toReal)] ++
    if n.mode = .timeseries then [("expires_in", .nat displaySeconds)] else []

variable (displaySeconds : Nat) (n : Notification)

theorem wire_eq : n.wire displaySeconds = n.payload.overlay (n.description displaySeconds) := by
  unfold wire description
  split <;> rfl

theorem names_description : (n.description displaySeconds).map (·.1) = n.mode.reserved := by
  unfold description Mode.reserved
  split <;> rfl

theorem nodup_description : ((n.description displaySeconds).map (·.1)).Nodup := by
  rw [names_description]
  cases n.mode <;> decide

theorem get?_wire (key : String) : (n.wire displaySeconds).get? key =
    ((n.description displaySeconds).get? key).or (n.payload.get? key) := by
  rw [wire_eq, Json.Members.get?_overlay (n.nodup_description displaySeconds)]

theorem get?_wire_of_mem {key : String} {value : Json.Value} (h : (key, value) ∈ n.description displaySeconds) :
    (n.wire displaySeconds).get? key = some value := by
  rw [get?_wire, Json.Members.get?_of_mem (n.nodup_description displaySeconds) h]
  rfl

theorem get?_wire_of_not_mem {key : String} (h : key ∉ n.mode.reserved) :
    (n.wire displaySeconds).get? key = n.payload.get? key := by
  rw [← names_description displaySeconds n] at h
  rw [get?_wire, Json.Members.get?_eq_none h]
  rfl

/-- A body that says of a notification what the notification is, and holds the rest of its payload unchanged. -/
structure IsToldBy (body : Json.Members) : Prop where
  kind : body.get? "type" = some (.str n.kind)
  id : body.get? "id" = some (.str n.id.text)
  mode : body.get? "mode" = some (.str n.mode.name)
  group : body.get? "group" = some (Json.Value.ofOption .str n.group)
  dismissible : body.get? "dismissible" = some (.bool (n.mode.isDismissible && !n.isBroadcast))
  createdAt : body.get? "created_at" = some (.num n.createdAt.toReal)
  expiresIn : n.mode = .timeseries → body.get? "expires_in" = some (.nat displaySeconds)
  others : ∀ key, key ∉ n.mode.reserved → body.get? key = n.payload.get? key
  sorted : n.payload.Pairwise (·.1 < ·.1) → body.Pairwise (·.1 < ·.1)
  members : n.payload.Pairwise (·.1 < ·.1) → ∀ m, m.1 ∉ n.mode.reserved → (m ∈ body ↔ m ∈ n.payload)

theorem isToldBy_wire : n.IsToldBy displaySeconds (n.wire displaySeconds) := by
  have hsorted (h : n.payload.Pairwise (·.1 < ·.1)) : (n.wire displaySeconds).Pairwise (·.1 < ·.1) := by
    rw [wire_eq]
    exact Json.Members.pairwise_overlay h _
  refine {
    kind := n.get?_wire_of_mem displaySeconds (by simp [description])
    id := n.get?_wire_of_mem displaySeconds (by simp [description])
    mode := n.get?_wire_of_mem displaySeconds (by simp [description])
    group := n.get?_wire_of_mem displaySeconds (by simp [description])
    dismissible := n.get?_wire_of_mem displaySeconds (by simp [description])
    createdAt := n.get?_wire_of_mem displaySeconds (by simp [description])
    expiresIn := fun h => n.get?_wire_of_mem displaySeconds (by simp [description, h])
    others := fun _ => n.get?_wire_of_not_mem displaySeconds
    sorted := hsorted
    members := fun h m hm => ?_ }
  rw [Json.Members.mem_iff_get? (hsorted h), Json.Members.mem_iff_get? h, n.get?_wire_of_not_mem displaySeconds hm]

end Notification

/-- What is admitted does not have the reserved type. -/
theorem Service.kind_ne_of_admits {σ : Type} {service : Service σ} {n : Notification} (hn : service.admits n) :
    n.kind ≠ "dismissed" := by
  intro heq
  have h : problem? n = none := Option.isNone_iff_eq_none.1 (Bool.and_eq_true_iff.1 hn).1
  have hreserved : n.kind = dismissedKind := heq
  have hnonempty : n.kind ≠ "" := by rw [heq]; decide
  rw [problem?, if_neg hnonempty, if_pos hreserved] at h
  cases h

/-- If no notification is of the reserved type, only what withdraws one is called a dismissal. -/
theorem Event.is_called_dismissed_iff (displaySeconds : Nat) {e : Event}
    (h : ∀ n, e.notification? = some n → n.kind ≠ "dismissed") :
    (e.wire displaySeconds).get? "type" = some (.str "dismissed") ↔ ∃ id target, e = .dismissed id target := by
  cases e with
  | notify n =>
    have hkind := h n rfl
    have htype : ((Event.notify n).wire displaySeconds).get? "type" = some (.str n.kind) :=
      (n.isToldBy_wire displaySeconds).kind
    rw [htype]
    simp [hkind]
  | dismissed id target =>
    have htype : ((Event.dismissed id target).wire displaySeconds).get? "type" = some (.str "dismissed") := by
      simp [wire, Json.Members.ofList, Json.Members.get?_insert, dismissedKind]
    rw [htype]
    exact iff_of_true rfl ⟨id, target, rfl⟩

/-- Whatever a payload holds, the body tells of the notification what it is, and of the payload the rest. Of the
events that a call emits, those that withdraw a notification are called dismissals, and no others. -/
theorem payload_cannot_spoof (displaySeconds : Nat) :
    (∀ n : Notification, n.IsToldBy displaySeconds (n.wire displaySeconds)) ∧
    ∀ {σ : Type} (service : Service σ) (now : Instant) (c : Call) (s : Service.State (Posted σ)),
      ∃ es, (c.perform service.recorded now s).emitted = s.emitted ++ es ∧
        (c.perform service.recorded now s).registry = s.registry.deliverAll now es ∧
        ∀ e ∈ es, (e.wire displaySeconds).get? "type" = some (.str "dismissed") ↔
          ∃ id target, e = .dismissed id target := by
  refine ⟨fun n => n.isToldBy_wire displaySeconds, fun service now c s => ?_⟩
  obtain ⟨es, hdoes, hsent⟩ := c.perform_does service.recorded now s
  obtain ⟨new, hnew, _, hes⟩ := hdoes.sent
  refine ⟨es, ?_, hdoes.registry, fun e he => Event.is_called_dismissed_iff displaySeconds fun n hn => ?_⟩
  · rw [Service.State.emitted_of_sent hnew, hes]
  · have hmem : n ∈ (c.sent? service.recorded now).toList :=
      hsent.subset (List.mem_filterMap.2 ⟨e, he, hn⟩)
    exact Service.kind_ne_of_admits (Call.of_sent? (Option.mem_toList.1 hmem)).1

/-- A payload that would have a notification pass for the dismissal of another. -/
theorem payload_cannot_spoof_of_forged_members :
    let payload : Json.Members := [("expires_in", .nat 5), ("id", .str "1"), ("type", .str "dismissed")]
    let n := Notification.create ⟨2⟩ .epoch none "note" .ephemeral none payload
    let service := Service.overMemory ⟨0⟩ {} Hooks.none
    let s := (Service.initial {} Memory.empty).recorded
    let s' := (Call.broadcast ⟨2⟩ "note" none payload).perform service.recorded .epoch s
    (n.wire 60).get? "type" = some (.str "note") ∧ (n.wire 60).get? "expires_in" = some (.nat 5) ∧
      (n.wire 60).Pairwise (·.1 < ·.1) ∧ s'.emitted.length = 1 ∧
      ∀ e ∈ s'.emitted, (e.wire 60).get? "type" = some (.str "dismissed") ↔ ∃ id target, e = .dismissed id target := by
  intro payload n service s s'
  obtain ⟨htold, hemits⟩ := payload_cannot_spoof 60
  obtain ⟨es, hemitted, _, hsays⟩ := hemits service .epoch (.broadcast ⟨2⟩ "note" none payload) s
  have hes : s'.emitted = es := hemitted
  exact ⟨(htold n).kind, (htold n).others "expires_in" (by decide), (htold n).sorted (by decide),
    by decide +kernel, by rwa [hes]⟩

end Tidings
