import Tidings.Backend.Durable
import Tidings.Proofs.RoundTrip
import Tidings.Proofs.Rows
/-!
What goes over the database's channel. A message that goes by reference always fits; what fits is read as
the envelope that was sent, and that stands for the message again, unless something in its payload is taken
for an embedded text.
-/
namespace Tidings

open Json

theorem Notification.isStored_iff {n : Notification} :
    n.isStored ↔ n.target.isSome ∧ (n.mode = .queued ∨ n.mode = .timeseries) := by
  rw [isStored, Bool.and_eq_true]
  refine and_congr_right' ?_
  cases n.mode <;> simp [Mode.isPersisted]

section Sizes

theorem Json.utf8Len_escape (c : Char) :
    1 ≤ String.utf8Len (escape c) ∧ String.utf8Len (escape c) ≤ 6 := by
  have hdigit : ∀ d < 16, (Nat.digitChar d).utf8Size = 1 := by decide
  unfold escape
  split
  · decide
  split
  · decide
  split
  · decide
  split
  · decide
  split
  · decide
  split
  · decide
  split
  · decide
  split
  · next hlow =>
    have hhigh := hdigit (c.toNat / 16) (by omega)
    have hrest := hdigit (c.toNat % 16) (Nat.mod_lt _ (by decide))
    simp only [String.utf8Len_cons, String.utf8Len_nil, hhigh, hrest]
    decide
  · have hpos := c.utf8Size_pos
    have hle := c.utf8Size_le_four
    simp only [String.utf8Len_cons, String.utf8Len_nil]
    omega

/-- A text takes at least one byte for each of its characters, and at most six. -/
theorem Json.utf8Len_quoted (s : String) :
    s.length ≤ String.utf8Len (quoted s) ∧ String.utf8Len (quoted s) ≤ 6 * s.length + 2 := by
  have hchars (cs : List Char) : cs.length ≤ String.utf8Len (cs.flatMap escape) ∧
      String.utf8Len (cs.flatMap escape) ≤ 6 * cs.length := by
    induction cs with
    | nil => exact ⟨Nat.le_refl 0, Nat.le_refl 0⟩
    | cons c cs ih =>
      have hc := utf8Len_escape c
      rw [List.flatMap_cons, String.utf8Len_append, List.length_cons]
      omega
  have hall := hchars s.toList
  have hquote : '"'.utf8Size = 1 := by decide
  rw [String.length_toList] at hall
  simp only [quoted, String.utf8Len_cons, String.utf8Len_append, String.utf8Len_nil, hquote]
  omega

/-- The text of an object has that of each member in it. -/
theorem Json.render_isInfix {m : String × Value} {members : Members} (h : m ∈ members) :
    m.2.render <:+: (Value.obj members).render := by
  have hmembers : m.2.render <:+: Value.renderMembers members := by
    induction members with
    | nil => exact absurd h List.not_mem_nil
    | cons m' rest ih =>
      obtain ⟨k, v⟩ := m'
      cases rest with
      | nil =>
        obtain rfl := List.mem_singleton.1 h
        exact ⟨quoted k ++ [':'], ['}'], by simp [Value.renderMembers]⟩
      | cons m' rest =>
        rcases List.mem_cons.1 h with rfl | hrest
        · exact ⟨quoted k ++ [':'], ',' :: Value.renderMembers (m' :: rest), by simp [Value.renderMembers]⟩
        · exact (ih hrest).trans ⟨quoted k ++ ':' :: (v.render ++ [',']), [], by simp [Value.renderMembers]⟩
  exact hmembers.trans ⟨['{'], [], by simp [Value.render]⟩

/-- An envelope is at least as long as any text in its event. -/
theorem Envelope.length_le_utf8ByteSize {m : Message} {s : String} (h : quoted s <:+: m.event.toJson.render) :
    s.length ≤ (inline m).text.utf8ByteSize := by
  have hmessage : m.event.toJson.render <:+: m.toJson.render :=
    render_isInfix (m := ("event", m.event.toJson)) (by simp)
  have henvelope : m.toJson.render <:+: (inline m).toJson.render :=
    render_isInfix (m := ("message", m.toJson)) (by simp)
  rw [text, Value.text, String.utf8ByteSize_ofList]
  exact (utf8Len_quoted s).1.trans (String.utf8Len_le_of_infix ((h.trans hmessage).trans henvelope))

/-- An identifier and its origin take a small part of what the channel takes. -/
theorem Envelope.utf8ByteSize_stored (origin id : Id) :
    (Envelope.stored origin id).text.utf8ByteSize ≤ Defaults.notifyMaxBytes := by
  have horigin := (utf8Len_quoted origin.text).2
  have hid := (utf8Len_quoted id.text).2
  rw [Id.length_text] at horigin hid
  have hrender : (Envelope.stored origin id).toJson.render =
      "\x7b\"envelope\":\"stored\",\"origin\":".toList ++ (quoted origin.text ++
        (",\"id\":".toList ++ (quoted id.text ++ ['}']))) := rfl
  have hfront : String.utf8Len "\x7b\"envelope\":\"stored\",\"origin\":".toList = 30 := by decide
  have hmiddle : String.utf8Len ",\"id\":".toList = 6 := by decide
  have hend : String.utf8Len ['}'] = 1 := by decide
  rw [text, Value.text, String.utf8ByteSize_ofList, hrender]
  simp only [String.utf8Len_append, hfront, hmiddle, hend]
  unfold Defaults.notifyMaxBytes
  omega

end Sizes

namespace Envelope

variable {m : Message}

/-- The ways in which a message is put into a text: as it is where that fits, by reference where it does
not and receivers can read the row, and otherwise not at all. -/
inductive Choice (m : Message) : Except Fault String → Prop
  | whole (hfits : (inline m).text.utf8ByteSize ≤ 7999) : Choice m (.ok (inline m).text)
  | reference {n : Notification} (hlong : 7999 < (inline m).text.utf8ByteSize)
    (hevent : m.event = .notify n) (hstored : n.isStored) : Choice m (.ok (stored m.origin n.id).text)
  | refusal (hlong : 7999 < (inline m).text.utf8ByteSize)
    (hevent : ∀ n, m.event = .notify n → ¬ n.isStored) : Choice m (.error (encode.tooLong (inline m).text))

theorem encode_of_fits (h : (inline m).text.utf8ByteSize ≤ 7999) : encode m = .ok (inline m).text := by
  unfold encode
  exact if_pos h

theorem choice (m : Message) : Choice m (encode m) := by
  unfold encode
  dsimp only
  split
  next hfits => exact .whole hfits
  next hlong =>
    have hlong := Nat.not_le.1 hlong
    cases hevent : m.event with
    | notify n =>
      dsimp only
      split
      next hstored => exact .reference hlong hevent hstored
      next hstored =>
        refine .refusal hlong fun n' hn' => ?_
        obtain rfl : n = n' := Event.notify.inj (hevent.symm.trans hn')
        exact hstored
    | dismissed id target =>
      exact .refusal hlong fun n hn => Event.noConfusion (hevent.symm.trans hn)

/-- A text from which a receiver gets the message again, if it finds the notification where the text has
only a reference. -/
def Carries (text : String) (m : Message) : Prop :=
  ∃ e, ofText? text = some e ∧ ∀ s : Database.Session,
    (∀ n, m.event = .notify n → e = .stored m.origin n.id → s.Finds n) → (Backend.resolve e s).1 = some m

/-- A message that goes as it is comes out exactly when nothing in its payload is taken for an embedded
text. -/
theorem carries_inline_iff (h : m.event.IsLegible) (hdepth : (inline m).toJson.depth ≤ nestingLimit) :
    Carries (inline m).text m ↔ m.event.IsVerbatim := by
  have hlegible : (inline m).IsLegible := h
  have hread : ofText? (inline m).text = some (inline m) ↔ m.event.IsVerbatim :=
    hlegible.reads.read?_text hlegible.toJson hdepth
  rw [← hread]
  constructor
  · rintro ⟨e, he, hresolve⟩
    obtain ⟨q, _, hshape⟩ := shape_inline m (p := Place.top) hdepth
    have hmessage : ofText? (inline m).text = (Message.shape q m.toJson.tree).map inline :=
      (Shape.read?_text _ hlegible.toJson).trans hshape
    obtain ⟨m', _, rfl⟩ := Option.map_eq_some_iff.1 (hmessage.symm.trans he)
    have hm := hresolve (Database.Session.ofLink .down) fun _ _ heq => by cases heq
    rw [he, ← Option.some.inj hm]
  · exact fun he => ⟨inline m, he, fun _ _ => rfl⟩

theorem ofText?_stored (origin id : Id) : ofText? (stored origin id).text = some (stored origin id) := by
  have hlegible : (stored origin id).IsLegible := trivial
  have hdepth : (stored origin id).toJson.depth = 1 := rfl
  exact (hlegible.reads.read?_text hlegible.toJson (hdepth.trans_le (by decide))).2 trivial

/-- A reference stands for its message whatever the payload is. -/
theorem carries_stored {n : Notification} (hevent : m.event = .notify n) :
    Carries (stored m.origin n.id).text m := by
  refine ⟨_, ofText?_stored m.origin n.id, fun s hs => ?_⟩
  obtain ⟨s', hget⟩ : ∃ s', Database.get n.id s = (.ok (some n), s') := ⟨_, Prod.ext (hs n hevent rfl) rfl⟩
  obtain ⟨origin, event⟩ := m
  dsimp only at hevent
  subst hevent
  rw [Backend.resolve, hget]

end Envelope

/-- A message gets no text exactly when it is too long and receivers cannot read it from the store. A text
that it gets fits, and stands for it: always by reference, and with the message in it exactly when nothing in
the payload is taken for an embedded text. -/
theorem envelopes_fit_and_resolve (m : Message)
    (hdepth : (Envelope.inline m).toJson.depth ≤ 127)
    (hpayload : ∀ n, m.event = .notify n → (Value.obj n.payload).IsPlain ∧ (Value.obj n.payload).IsSorted) :
    ((∃ fault, Envelope.encode m = .error fault) ↔
      7999 < (Envelope.inline m).text.utf8ByteSize ∧
        ¬ ∃ n, m.event = .notify n ∧ n.target.isSome ∧ (n.mode = .queued ∨ n.mode = .timeseries)) ∧
    ∀ text, Envelope.encode m = .ok text →
      text.utf8ByteSize ≤ 7999 ∧
      (7999 < (Envelope.inline m).text.utf8ByteSize ∨
          (∀ n, m.event = .notify n → ∀ x ∈ n.payload, x.2.IsVerbatim) ↔
        ∃ e, Envelope.ofText? text = some e ∧ ∀ s : Database.Session,
          (∀ n, m.event = .notify n → e = .stored m.origin n.id → s.Finds n) →
            (Backend.resolve e s).1 = some m) := by
  have hlegible : m.event.IsLegible := by
    cases hevent : m.event with
    | notify n =>
      obtain ⟨hplain, hsorted⟩ := hpayload n hevent
      exact ⟨hplain.isLegible, hsorted⟩
    | dismissed id target => exact trivial
  have hchoice := Envelope.choice m
  generalize Envelope.encode m = result at hchoice ⊢
  cases hchoice with
  | whole hfits =>
    refine ⟨⟨nofun, fun h => absurd hfits (Nat.not_le.2 h.1)⟩, ?_⟩
    intro text htext
    obtain rfl := Except.ok.inj htext
    refine ⟨hfits, (or_iff_right (Nat.not_lt.2 hfits)).trans ?_⟩
    exact (Event.isVerbatim_iff m.event).symm.trans (Envelope.carries_inline_iff hlegible hdepth).symm
  | @reference n hlong hevent hstored =>
    have hreadable := Notification.isStored_iff.1 hstored
    refine ⟨⟨nofun, fun h => absurd ⟨n, hevent, hreadable⟩ h.2⟩, ?_⟩
    intro text htext
    obtain rfl := Except.ok.inj htext
    exact ⟨Envelope.utf8ByteSize_stored m.origin n.id,
      iff_of_true (.inl hlong) (Envelope.carries_stored hevent)⟩
  | refusal hlong hevent =>
    refine ⟨⟨fun _ => ⟨hlong, ?_⟩, fun _ => ⟨_, rfl⟩⟩, nofun⟩
    rintro ⟨n, hn, hstored⟩
    exact hevent n hn (Notification.isStored_iff.2 hstored)

/-- A notification of a long type goes by reference, and is read from its row. -/
theorem envelopes_fit_and_resolve_of_reference :
    let n : Notification := ⟨⟨5⟩, String.ofList (List.replicate 8000 'x'), some ⟨.user, "u1"⟩, some "g",
      .queued, [("k", .int 7)], Instant.epoch⟩
    let m : Message := ⟨⟨7⟩, .notify n⟩
    let row := Database.Statement.insertedRow ⟨.user, "u1"⟩ n
    let s : Database.Session := ⟨.up, [⟨none, .rows [row] none⟩], [], []⟩
    (Envelope.inline m).toJson.depth = 5 ∧ 7999 < (Envelope.inline m).text.utf8ByteSize ∧ s.Finds n ∧
      ∃ text e, Envelope.encode m = .ok text ∧ text.utf8ByteSize ≤ 7999 ∧
        Envelope.ofText? text = some e ∧ (Backend.resolve e s).1 = some m := by
  intro n m row s
  have hplain : (Value.obj n.payload).IsPlain := isPlain_cons (.int ⟨by decide, by decide⟩) isPlain_nil
  have hsorted : (Value.obj n.payload).IsSorted :=
    .obj (List.pairwise_singleton _ _) (List.forall_mem_singleton.2 (.num _))
  have hdepth : (Envelope.inline m).toJson.depth = 5 := rfl
  have hlong : 7999 < (Envelope.inline m).text.utf8ByteSize := by
    have hkind : quoted n.kind <:+: n.toJson.render := render_isInfix (m := ("type", .str n.kind)) (by simp)
    have hevent : n.toJson.render <:+: m.event.toJson.render :=
      render_isInfix (m := ("notification", n.toJson)) (by simp)
    have hlength : n.kind.length = 8000 := String.length_ofList.trans List.length_replicate
    have hle := Envelope.length_le_utf8ByteSize (hkind.trans hevent)
    rw [hlength] at hle
    exact hle
  have hrow : row.notification = .ok n :=
    Database.notification_insertedRow rfl hplain.isLegible hsorted (by decide) ⟨rfl, by decide⟩
      (List.forall_mem_singleton.2 (.num _))
  have hfinds : s.Finds n := Database.Session.finds_of_row rfl rfl hrow
  obtain ⟨hfails, hworks⟩ := envelopes_fit_and_resolve m (hdepth.trans_le (by decide)) (by
    rintro _ ⟨⟩
    exact ⟨hplain, hsorted⟩)
  cases hencode : Envelope.encode m with
  | error fault => exact absurd ⟨n, rfl, rfl, .inl rfl⟩ (hfails.1 ⟨fault, hencode⟩).2
  | ok text =>
    obtain ⟨hfits, hcarries⟩ := hworks text hencode
    obtain ⟨e, he, hresolve⟩ := hcarries.1 (.inl hlong)
    refine ⟨hdepth, hlong, hfinds, text, e, rfl, hfits, he, hresolve s ?_⟩
    rintro _ ⟨⟩ _
    exact hfinds

/-- The text of a message with an object that is taken for an embedded text resolves to another message. -/
theorem envelopes_resolve_to_another :
    let n (payload : Members) : Notification :=
      ⟨⟨5⟩, "note", some ⟨.user, "u1"⟩, none, .queued, payload, Instant.epoch⟩
    let m (payload : Members) : Message := ⟨⟨7⟩, .notify (n payload)⟩
    ((Envelope.inline (m disguised)).toJson.depth ≤ 127 ∧ (Value.obj disguised).IsPlain ∧
        (Value.obj disguised).IsSorted) ∧
      ∃ text e, Envelope.encode (m disguised) = .ok text ∧ Envelope.ofText? text = some e ∧
        (∀ s : Database.Session, (Backend.resolve e s).1 = some (m undisguised)) ∧
        m undisguised ≠ m disguised := by
  intro n m
  have hdepth : (Envelope.inline (m disguised)).toJson.depth ≤ nestingLimit := by decide
  have hfits : (Envelope.inline (m disguised)).text.utf8ByteSize ≤ 7999 := by
    rw [Envelope.text, Value.text, String.utf8ByteSize_ofList]
    decide +kernel
  have hlegible : (Envelope.inline (m disguised)).IsLegible :=
    ⟨isPlain_disguised.isLegible, isSorted_disguised⟩
  obtain ⟨q, hq, henvelope⟩ := Envelope.shape_inline (m disguised) (p := Place.top) hdepth
  obtain ⟨q', hq', hmessage⟩ := (m disguised).shape_toJson hq
  obtain ⟨q'', hq'', hevent⟩ := Event.shape_notify (n disguised) hq'
  have hroom : (Value.obj disguised).depth ≤ q''.inner.room :=
    depth_le_inner hq'' (m := ("payload", .obj disguised)) (by simp [n])
  have hread : Envelope.ofText? (Envelope.inline (m disguised)).text = some (.inline (m undisguised)) := by
    rw [Envelope.ofText?, Envelope.text, Shape.read?_text _ hlegible.toJson, henvelope, hmessage, hevent,
      Notification.shape_toJson _ hq'', members_disguised hroom]
    rfl
  refine ⟨⟨hdepth, isPlain_disguised, isSorted_disguised⟩, _, _, Envelope.encode_of_fits hfits, hread,
    fun s => rfl, ?_⟩
  intro heq
  have hn : n undisguised = n disguised := Event.notify.inj (congrArg Message.event heq)
  exact disguised_ne_undisguised (congrArg Notification.payload hn).symm

end Tidings
