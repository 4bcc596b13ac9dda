import Tidings.Proofs.DurableNotify
import Tidings.Proofs.Effects
import Tidings.Proofs.Envelopes
/-!
What becomes of the events of stored notifications on the database's channel. A new one always gets a text;
its withdrawal gets one unless the target is too long to be named. A text by reference stands for its
message whatever the payload is; one with the payload in it does where that is read as it was.
-/
namespace Tidings

open Json

/-- What comes back from sending is the notification that was asked for. -/
theorem Service.eq_of_notify {σ : Type} (service : Service σ) {now : Instant} {fresh : Id}
    {target : Address} {kind : String} {mode : Mode} {group : Option String} {payload : Members}
    {s s' : State σ} {n : Notification}
    (h : service.notify now fresh target kind mode group payload s = (.ok (some n), s')) :
    n = .create fresh now (some target) kind mode group payload := by
  unfold notify at h
  split at h
  · cases h
  · exact service.eq_of_dispatch now (congrArg Prod.fst h)

/-- A database that answers every statement takes a notification of no group. -/
theorem Service.notify_of_up {service : Service Database.Session} (hb : service.backend = Backend.postgres)
    (hh : service.hooks = Hooks.none) {s : State Database.Session}
    (hs : s.store = Database.Session.ofLink .up) (now : Instant) (fresh : Id) {target : Address}
    (howner : target.owner ≠ "") (payload : Members) :
    ∃ s', service.notify now fresh target "note" .queued none payload s =
      (.ok (some (.create fresh now (some target) "note" .queued none payload)), s') := by
  have hstore : ∃ s', access (service.backend.store now
      (.create fresh now (some target) "note" .queued none payload)) s = (.ok none, s') := by
    obtain ⟨store, registry, recent, told⟩ := s
    dsimp only at hs
    subst hs
    rw [hb]
    exact ⟨_, rfl⟩
  obtain ⟨s', hs'⟩ := hstore
  rw [notify, if_neg howner, dispatch_eq service rfl rfl rfl (by simp [hh, Hooks.none]), hs']
  exact ⟨_, rfl⟩

namespace Envelope

variable {m : Message}

/-- The name of a target stands in every text about it. -/
theorem length_owner_le {a : Address} (h : m.event.target = some a) :
    a.owner.length ≤ (inline m).text.utf8ByteSize := by
  have howner : quoted a.owner <:+: a.toJson.render :=
    render_isInfix (m := ("scope_id", .str a.owner)) (by simp)
  have htarget : a.toJson.render <:+: m.event.toJson.render := by
    cases hevent : m.event with
    | notify n =>
      have hn : n.target = some a := by rwa [hevent] at h
      have hfield : a.toJson.render <:+: n.toJson.render :=
        render_isInfix (m := ("target", a.toJson)) (by simp [hn, Value.ofOption])
      exact hfield.trans (render_isInfix (m := ("notification", n.toJson)) (by simp))
    | dismissed id target =>
      have htarget : target = some a := by rwa [hevent] at h
      exact render_isInfix (m := ("target", a.toJson)) (by simp [htarget, Value.ofOption])
  exact length_le_utf8ByteSize (howner.trans htarget)

/-- A withdrawal is never sent by reference. -/
theorem encode_dismissed (origin id : Id) (target : Option Address) :
    encode ⟨origin, .dismissed id target⟩ =
      if (inline ⟨origin, .dismissed id target⟩).text.utf8ByteSize ≤ 7999 then
        .ok (inline ⟨origin, .dismissed id target⟩).text
      else .error (encode.tooLong (inline ⟨origin, .dismissed id target⟩).text) := rfl

/-- A withdrawal does not nest deep. -/
theorem carries_dismissed (origin id : Id) (target : Option Address) :
    Carries (inline ⟨origin, .dismissed id target⟩).text ⟨origin, .dismissed id target⟩ := by
  have hdepth : (inline ⟨origin, .dismissed id target⟩).toJson.depth ≤ nestingLimit := by
    cases target with
    | none =>
      have hdepth : (inline ⟨origin, .dismissed id none⟩).toJson.depth = 3 := rfl
      exact hdepth.trans_le (by decide)
    | some a =>
      have hdepth : (inline ⟨origin, .dismissed id (some a)⟩).toJson.depth = 4 := rfl
      exact hdepth.trans_le (by decide)
  exact (carries_inline_iff (m := ⟨origin, .dismissed id target⟩) trivial hdepth).2 trivial

theorem ofText?_of_deep (h : m.event.IsLegible) (hdepth : nestingLimit < (inline m).toJson.depth) :
    ofText? (inline m).text = none := by
  have hlegible : (inline m).IsLegible := h
  have hsound : ¬ (inline m).toJson.tree.isSound nestingLimit := fun hsound =>
    Nat.not_le.2 hdepth ((Value.isSound_tree nestingLimit _).1 hsound)
  have htagged : Shape.tagged "envelope" [("inline", Tag.inline), ("stored", .stored)] Place.top
      (inline m).toJson.tree = none := if_pos hsound
  rw [ofText?, text, Shape.read?_text _ hlegible.toJson, shape, htagged]
  rfl

/-- A message that goes as it is comes out exactly when a reader allows its depth and nothing in its payload
is taken for an embedded text. -/
theorem carries_inline_iff_of_isLegible (h : m.event.IsLegible) :
    Carries (inline m).text m ↔ (inline m).toJson.depth ≤ 127 ∧ m.event.IsVerbatim := by
  by_cases hdepth : (inline m).toJson.depth ≤ 127
  · rw [carries_inline_iff h hdepth, and_iff_right hdepth]
  · refine iff_of_false ?_ fun hread => hdepth hread.1
    rintro ⟨e, he, _⟩
    rw [ofText?_of_deep h (Nat.not_le.1 hdepth)] at he
    cases he

end Envelope

/-- Of a stored notification that was sent. The text for it stands for it if it is one by reference; with the
payload in it, and the numbers of that read back, exactly when a reader allows its depth and takes nothing
in the payload for an embedded text. The text for its withdrawal stands for that, and there is one exactly
when it fits. -/
theorem stored_notifications_survive {σ : Type} (service : Service σ) (now : Instant) (fresh : Id)
    (target : Address) (kind : String) (mode : Mode) (group : Option String) (payload : Members)
    (s s' : Service.State σ) (n : Notification) (origin : Id)
    (hsent : service.notify now fresh target kind mode group payload s = (.ok (some n), s'))
    (hmode : mode = .queued ∨ mode = .timeseries) (hsorted : (Value.obj payload).IsSorted) :
    let notify : Message := ⟨origin, .notify n⟩
    let dismissed : Message := ⟨origin, .dismissed n.id n.target⟩
    (∃ text, Envelope.encode notify = .ok text ∧
      (7999 < (Envelope.inline notify).text.utf8ByteSize → Envelope.Carries text notify) ∧
      ((Envelope.inline notify).text.utf8ByteSize ≤ 7999 → (Value.obj payload).IsLegible →
        (Envelope.Carries text notify ↔
          (Envelope.inline notify).toJson.depth ≤ 127 ∧ ∀ m ∈ payload, m.2.IsVerbatim))) ∧
    ((∃ text, Envelope.encode dismissed = .ok text) ↔
      (Envelope.inline dismissed).text.utf8ByteSize ≤ 7999) ∧
    ∀ text, Envelope.encode dismissed = .ok text → Envelope.Carries text dismissed := by
  obtain rfl := service.eq_of_notify hsent
  let n := Notification.create fresh now (some target) kind mode group payload
  intro notify dismissed
  refine ⟨?_, ?_, ?_⟩
  · have hchoice := Envelope.choice notify
    generalize Envelope.encode notify = result at hchoice ⊢
    cases hchoice with
    | whole hfits =>
      refine ⟨_, rfl, fun hlong => absurd hfits (Nat.not_le.2 hlong), fun _ hlegible => ?_⟩
      exact Envelope.carries_inline_iff_of_isLegible (m := notify) ⟨hlegible, hsorted⟩
    | reference hlong hevent hstored =>
      exact ⟨_, rfl, fun _ => Envelope.carries_stored hevent, fun hfits => absurd hfits (Nat.not_le.2 hlong)⟩
    | refusal hlong hevent => exact absurd (Notification.isStored_iff.2 ⟨rfl, hmode⟩) (hevent n rfl)
  · rw [Envelope.encode_dismissed]
    split
    next hfits => exact ⟨fun _ => hfits, fun _ => ⟨_, rfl⟩⟩
    next hlong => exact ⟨nofun, fun hfits => absurd hfits hlong⟩
  · intro text htext
    rw [Envelope.encode_dismissed] at htext
    split at htext
    next hfits =>
      obtain rfl := Except.ok.inj htext
      exact Envelope.carries_dismissed origin n.id n.target
    next hlong => cases htext

/-- To a target with a long name, with a double in the payload that is not read back from its text. -/
theorem stored_notifications_survive_for_long_owner :
    let service : Service Database.Session := ⟨⟨7⟩, {}, Backend.postgres, Hooks.none⟩
    let s := Service.initial service.settings (Database.Session.ofLink .up)
    let target : Address := ⟨.user, String.ofList (List.replicate 8000 'x')⟩
    let payload : Members := [("k", .num (.real ⟨false, 6805647338418769, -129⟩))]
    let n : Notification := .create ⟨5⟩ Instant.epoch (some target) "note" .queued none payload
    (∃ s', service.notify Instant.epoch ⟨5⟩ target "note" .queued none payload s = (.ok (some n), s')) ∧
      (Value.obj payload).IsSorted ∧ ¬ (Value.obj payload).IsLegible ∧
      7999 < (Envelope.inline ⟨⟨7⟩, .notify n⟩).text.utf8ByteSize ∧
      ∃ text, Envelope.encode ⟨⟨7⟩, .notify n⟩ = .ok text ∧ Envelope.Carries text ⟨⟨7⟩, .notify n⟩ := by
  intro service s target payload n
  have hlength : target.owner.length = 8000 := String.length_ofList.trans List.length_replicate
  have howner : target.owner ≠ "" := by
    intro heq
    rw [heq] at hlength
    cases hlength
  obtain ⟨s', hsent⟩ : ∃ s', service.notify Instant.epoch ⟨5⟩ target "note" .queued none payload s =
      (.ok (some n), s') := Service.notify_of_up rfl rfl rfl Instant.epoch ⟨5⟩ howner payload
  have hsorted : (Value.obj payload).IsSorted :=
    .obj (List.pairwise_singleton _ _) (List.forall_mem_singleton.2 (.num _))
  have hdouble : ¬ (Value.obj payload).IsLegible := by
    rintro (_ | _ | _ | _ | _ | hmembers)
    have hnumber := hmembers _ List.mem_cons_self
    cases hnumber with
    | num h => exact absurd h (by decide +kernel)
  have hlong : 7999 < (Envelope.inline ⟨⟨7⟩, .notify n⟩).text.utf8ByteSize := by
    have hle := Envelope.length_owner_le (m := ⟨⟨7⟩, .notify n⟩) (a := target) rfl
    rwa [hlength] at hle
  obtain ⟨⟨text, htext, hcarries⟩, _⟩ := stored_notifications_survive service Instant.epoch ⟨5⟩ target
    "note" .queued none payload s s' n ⟨7⟩ hsent (.inl rfl) hsorted
  exact ⟨⟨s', hsent⟩, hsorted, hdouble, hlong, text, htext, hcarries.1 hlong⟩

section Losses

/-- The number in a payload that consists of one. -/
def Message.number? : Message → Option Number
  | ⟨_, .notify ⟨_, _, _, _, _, [(_, .num x)], _⟩⟩ => some x
  | _ => none

/-- A long name leaves no text for a withdrawal. The first payload is too deep for a reader, the second has a
double that is read as its neighbour, the third an object that is taken for an embedded text. -/
theorem stored_notifications_lost :
    let service : Service Database.Session := ⟨⟨7⟩, {}, Backend.postgres, Hooks.none⟩
    let s := Service.initial service.settings (Database.Session.ofLink .up)
    let n (owner : String) (payload : Members) : Notification :=
      .create ⟨5⟩ Instant.epoch (some ⟨.user, owner⟩) "note" .queued none payload
    let isSent (owner : String) (payload : Members) : Prop :=
      ∃ s', service.notify Instant.epoch ⟨5⟩ ⟨.user, owner⟩ "note" .queued none payload s =
        (.ok (some (n owner payload)), s')
    let isLost (payload : Members) : Prop := ∃ text,
      Envelope.encode ⟨⟨7⟩, .notify (n "u1" payload)⟩ = .ok text ∧
        ¬ Envelope.Carries text ⟨⟨7⟩, .notify (n "u1" payload)⟩
    let long := String.ofList (List.replicate 8000 'x')
    let deep : Members := [("k", (fun v => .arr [v])^[123] .null)]
    let tiny : Members := [("k", .num (.real ⟨false, 6805647338418769, -129⟩))]
    (isSent long [] ∧ ∃ fault, Envelope.encode ⟨⟨7⟩, .dismissed ⟨5⟩ (some ⟨.user, long⟩)⟩ = .error fault) ∧
      (isSent "u1" deep ∧ isLost deep) ∧ (isSent "u1" tiny ∧ isLost tiny) ∧
      (isSent "u1" disguised ∧ isLost disguised) := by
  intro service s n isSent isLost long deep tiny
  have hsent {owner : String} (howner : owner ≠ "") (payload : Members) : isSent owner payload :=
    Service.notify_of_up rfl rfl rfl Instant.epoch ⟨5⟩ howner payload
  have hfits (payload : Members)
      (h : String.utf8Len (Envelope.inline ⟨⟨7⟩, .notify (n "u1" payload)⟩).toJson.render ≤ 7999) :
      (Envelope.inline ⟨⟨7⟩, .notify (n "u1" payload)⟩).text.utf8ByteSize ≤ 7999 := by
    rwa [Envelope.text, Value.text, String.utf8ByteSize_ofList]
  have hlong : long.length = 8000 := String.length_ofList.trans List.length_replicate
  refine ⟨⟨hsent ?_ [], ?_⟩, ⟨hsent (by decide) deep, ?_⟩, ⟨hsent (by decide) tiny, ?_⟩,
    ⟨hsent (by decide) disguised, ?_⟩⟩
  · intro heq
    rw [heq] at hlong
    cases hlong
  · have hle := Envelope.length_owner_le (m := ⟨⟨7⟩, .dismissed ⟨5⟩ (some ⟨.user, long⟩)⟩) rfl
    rw [hlong] at hle
    rw [Envelope.encode_dismissed, if_neg (Nat.not_le.2 hle)]
    exact ⟨_, rfl⟩
  · have hlegible : (n "u1" deep).IsLegible :=
      ⟨.obj (List.forall_mem_singleton.2 (legible_sorted_nested 123).1),
        .obj (List.pairwise_singleton _ _) (List.forall_mem_singleton.2 (legible_sorted_nested 123).2)⟩
    have hdepth : ¬ (Envelope.inline ⟨⟨7⟩, .notify (n "u1" deep)⟩).toJson.depth ≤ 127 := by
      decide +kernel
    refine ⟨_, Envelope.encode_of_fits (hfits deep (by decide +kernel)), fun hcarries => hdepth ?_⟩
    have hiff := Envelope.carries_inline_iff_of_isLegible (m := ⟨⟨7⟩, .notify (n "u1" deep)⟩) hlegible
    exact (hiff.1 hcarries).1
  · refine ⟨_, Envelope.encode_of_fits (hfits tiny (by decide +kernel)), ?_⟩
    rintro ⟨e, he, hresolve⟩
    -- Without the database only a message that is in the text itself comes out.
    let received (e : Envelope) : Option Number :=
      (Backend.resolve e (Database.Session.ofLink .down)).1.bind Message.number?
    have hread : (Envelope.ofText? (Envelope.inline ⟨⟨7⟩, .notify (n "u1" tiny)⟩).text).map received =
        some (some (.real ⟨false, 6805647338418770, -129⟩)) := by
      rw [Envelope.text, Value.text, Envelope.ofText?, Shape.read?, Tree.ofText?, String.toList_ofList]
      decide +kernel
    rw [he] at hread
    cases e with
    | inline m =>
      have hm := hresolve (Database.Session.ofLink .down) fun _ _ h => by cases h
      obtain rfl := Option.some.inj hm
      have hsame : Number.real ⟨false, 6805647338418769, -129⟩ = .real ⟨false, 6805647338418770, -129⟩ :=
        Option.some.inj (Option.some.inj hread)
      cases hsame
    | stored origin id => cases hread
  · have hlegible : (n "u1" disguised).IsLegible := ⟨isPlain_disguised.isLegible, isSorted_disguised⟩
    refine ⟨_, Envelope.encode_of_fits (hfits disguised (by decide +kernel)), fun hcarries => ?_⟩
    have hiff := Envelope.carries_inline_iff_of_isLegible (m := ⟨⟨7⟩, .notify (n "u1" disguised)⟩) hlegible
    exact not_isVerbatim_disguised (hiff.1 hcarries).2

end Losses

end Tidings
