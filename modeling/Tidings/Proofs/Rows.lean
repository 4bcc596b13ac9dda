import Tidings.Database.Table
import Tidings.Proofs.Shapes
/-!
Rows. The row that an insertion makes is read as the notification that was inserted, as far as the columns
can hold it: a time in whole microseconds outside leap seconds, and a payload that is read back from its
text.
-/
namespace Tidings

namespace Instant

/-- A time in whole microseconds outside leap seconds. -/
structure IsMicro (t : Instant) : Prop where
  whole : t.nanos % 1000 = 0
  plain : t.nanos < billion

theorem ofMicros?_microsOf {t : Instant} (h : t.IsMicro) : ofMicros? (Database.microsOf t) = some t := by
  obtain ⟨hwhole, hplain⟩ := h
  have hexact : t.toNanos - Database.epochSeconds * billion =
      1000 * ((t.seconds - Database.epochSeconds) * 1000000 + t.nanos / 1000) := by
    unfold toNanos billion
    omega
  have hmicros : Database.microsOf t = t.seconds * 1000000 + t.nanos / 1000 := by
    rw [Database.microsOf, hexact, Int.mul_tdiv_cancel_left _ (by decide)]
    omega
  unfold billion at hplain
  rw [ofMicros?, hmicros, ofNanos?]
  unfold billion
  refine ofParts?_eq_some_iff.2 ⟨?_, ?_⟩ <;> omega

end Instant

namespace Database

variable {a : Address} {n : Notification}

/-- A row that holds what an insertion was given, under the columns of that; what else is in it, and in
which order, does not matter. -/
def Row.HoldsInserted (row : Row) (a : Address) (n : Notification) : Prop :=
  ∀ column ∈ Statement.insertColumns, row.cell column = (Statement.insertedRow a n).cell column

theorem Row.holdsInserted_insertedRow (a : Address) (n : Notification) :
    (Statement.insertedRow a n).HoldsInserted a n := fun _ _ => rfl

theorem Row.address_of_cells {row : Row} (hscope : row.cell "scope" = .text a.scope.name)
    (howner : row.cell "scope_id" = .text a.owner) : row.address = .ok a := by
  obtain ⟨scope, owner⟩ := a
  dsimp only at hscope howner
  rw [Row.address, Row.text, hscope, Row.text, howner]
  cases scope <;> rfl

theorem Row.members_eq_ok_iff_of_json {row : Row} {name text : String} (h : row.cell name = .json text)
    {members : Json.Members} : row.members name = .ok members ↔ Json.Shape.members.read? text = some members := by
  rw [Row.members, h]
  dsimp only
  generalize Json.Shape.members.read? text = read
  cases read with
  | some read => rw [Except.ok.injEq, Option.some.injEq]
  | none =>
    dsimp only
    split <;> exact iff_of_false nofun nofun

namespace Row.HoldsInserted

variable {row : Row} (h : row.HoldsInserted a n)
include h

theorem address : row.address = .ok a :=
  address_of_cells (h "scope" (by decide)) (h "scope_id" (by decide))

/-- What is read is what was inserted, with the payload that its text is read as. -/
theorem notification_eq (htarget : n.target = some a) (htime : n.createdAt.IsMicro) :
    row.notification = (row.members "payload").map fun payload => { n with payload } := by
  obtain ⟨id, kind, target, group, mode, payload, createdAt⟩ := n
  dsimp only at htarget htime
  subst htarget
  have hmode : row.text "mode" = .ok mode.name := by
    rw [Row.text, h "mode" (by decide)]
    rfl
  have hid : Row.idOf (Row.quoted "id") (row.cell "id") = .ok id := by
    rw [h "id" (by decide)]
    rfl
  have hkind : row.text "kind" = .ok kind := by
    rw [Row.text, h "kind" (by decide)]
    rfl
  have hgroup : row.text? "group_key" = .ok group := by
    rw [Row.text?, Row.text, h "group_key" (by decide)]
    cases group <;> rfl
  have hcreated : row.time "created_at" = .ok createdAt := by
    have hcell : row.cell "created_at" = .time (microsOf createdAt) := h "created_at" (by decide)
    rw [Row.time, hcell]
    simp only [Instant.ofMicros?_microsOf htime]
  rw [Row.notification, hmode, hid, hkind, h.address, hgroup, hcreated]
  show (row.members "payload" >>= fun payload => Row.modeOf mode.name >>= fun mode => _) = _
  rw [Row.modeOf, Mode.ofName?_name]
  cases row.members "payload" <;> rfl

/-- What the payload's text is read as. -/
theorem members_eq_ok_iff (hlegible : (Json.Value.obj n.payload).IsLegible) {members : Json.Members} :
    row.members "payload" = .ok members ↔
      Json.Shape.members Json.Place.top (Json.Value.obj n.payload).tree = some members := by
  rw [Row.members_eq_ok_iff_of_json (h "payload" (by decide)), Json.Shape.read?_text _ hlegible]

/-- The payload comes back as another exactly when something in it is taken for an embedded text. -/
theorem notification_iff (htarget : n.target = some a) (hlegible : (Json.Value.obj n.payload).IsLegible)
    (hsorted : (Json.Value.obj n.payload).IsSorted)
    (hdepth : (Json.Value.obj n.payload).depth ≤ Json.nestingLimit) (htime : n.createdAt.IsMicro) :
    row.notification = .ok n ↔ ∀ m ∈ n.payload, m.2.IsVerbatim := by
  rw [← Json.members_tree_iff (p := Json.Place.top) hdepth hsorted, ← h.members_eq_ok_iff hlegible,
    h.notification_eq htarget htime]
  cases row.members "payload" with
  | ok payload =>
    constructor
    · exact fun heq => congrArg Except.ok (congrArg Notification.payload (Except.ok.inj heq))
    · intro heq
      rw [Except.ok.inj heq]
      rfl
  | error fault => exact iff_of_false nofun nofun

end Row.HoldsInserted

/-- An inserted notification is read back from its row. -/
theorem notification_insertedRow (htarget : n.target = some a) (hlegible : (Json.Value.obj n.payload).IsLegible)
    (hsorted : (Json.Value.obj n.payload).IsSorted)
    (hdepth : (Json.Value.obj n.payload).depth ≤ Json.nestingLimit) (htime : n.createdAt.IsMicro)
    (hverbatim : ∀ m ∈ n.payload, m.2.IsVerbatim) : (Statement.insertedRow a n).notification = .ok n :=
  ((Row.holdsInserted_insertedRow a n).notification_iff htarget hlegible hsorted hdepth htime).2 hverbatim

/-- A session that finds a notification under its identifier. -/
def Session.Finds (s : Session) (n : Notification) : Prop := (get n.id s).1 = .ok (some n)

/-- A session that is up and answers with the row of a notification finds it. -/
theorem Session.finds_of_row {s : Session} {row : Row} {rest : List Reply} (hup : s.link = .up)
    (hreplies : s.replies = ⟨none, .rows [row] none⟩ :: rest) (hrow : row.notification = .ok n) :
    s.Finds n := by
  have hsend : ∃ s', send (.select n.id) s = (.ok ([row], 1), s') := by
    obtain ⟨link, replies, sent, pauses⟩ := s
    dsimp only at hup hreplies
    subst hup hreplies
    exact ⟨_, rfl⟩
  obtain ⟨s', hs'⟩ := hsend
  have hfetch : fetchRow (.select n.id) s = (.ok (some row), s') := Access.bind_of_ok hs'
  rw [Finds, get, Access.bind_of_ok hfetch]
  show (row.notification.map some) = _
  rw [hrow]
  rfl

end Database

end Tidings
