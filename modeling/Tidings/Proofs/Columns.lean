import Tidings.Proofs.Attempts
import Tidings.Proofs.Rows
/-!
Columns. A stored notification is written to the columns of its row; what is read from any row is what its
columns say, a scope and a mode by their names, and nothing in place of an unknown one.
-/
namespace Tidings.Database

/-- A reading that gives only what `P` says, and that is the database's fault where it gives nothing. -/
structure Yields {α : Type} (r : Except Fault α) (P : α → Prop) : Prop where
  ok : ∀ x, r = .ok x → P x
  error : ∀ fault, r = .error fault → fault.kind = .database

/-- A reading that gives nothing, by the database's fault. -/
def IsRejected {α : Type} (r : Except Fault α) : Prop := ∃ fault, r = .error fault ∧ fault.kind = .database

namespace Yields

variable {α β : Type} {r : Except Fault α} {P : α → Prop}

theorem of_ok {x : α} (h : P x) : Yields (.ok x) P :=
  ⟨fun _ heq => Except.ok.inj heq ▸ h, nofun⟩

theorem of_error {fault : Fault} (h : fault.kind = .database) : Yields (.error fault) P :=
  ⟨nofun, fun _ heq => Except.error.inj heq ▸ h⟩

theorem bind {f : α → Except Fault β} {Q : β → Prop} (h : Yields r P) (hf : ∀ x, P x → Yields (f x) Q) :
    Yields (r >>= f) Q := by
  cases r with
  | ok x => exact hf x (h.ok x rfl)
  | error fault => exact of_error (h.error fault rfl)

theorem isRejected (h : Yields r P) (hnone : ∀ x, ¬ P x) : IsRejected r := by
  cases r with
  | ok x => exact absurd (h.ok x rfl) (hnone x)
  | error fault => exact ⟨fault, rfl, h.error fault rfl⟩

end Yields

namespace Row

variable (row : Row) (column : String)

theorem text_yields : Yields (row.text column) fun s => row.cell column = .text s := by
  unfold text
  split
  · next hcell => exact .of_ok hcell
  · exact .of_error rfl
  · exact .of_error rfl

theorem text?_yields :
    Yields (row.text? column) fun s => row.cell column = Statement.cellOf s := by
  unfold text?
  split
  · next hcell => exact .of_ok hcell
  · exact (row.text_yields column).bind (f := fun s => .ok (some s)) fun s hcell => .of_ok hcell

theorem members_yields : Yields (row.members column) fun members =>
    ∃ text, row.cell column = .json text ∧ Json.Shape.members.read? text = some members := by
  unfold members
  split
  · next text hcell =>
    split
    · next hread => exact .of_ok ⟨text, hcell, hread⟩
    · split <;> exact .of_error rfl
  · exact .of_error rfl
  · exact .of_error rfl

theorem idOf_yields (cell : Cell) : Yields (idOf column cell) fun id => cell = .id id := by
  cases cell with
  | id id => exact .of_ok rfl
  | _ => exact .of_error rfl

theorem time_yields : Yields (row.time column) fun t =>
    ∃ micros, row.cell column = .time micros ∧ Instant.ofMicros? micros = some t := by
  unfold time
  split
  · next micros hcell =>
    split
    · next htime => exact .of_ok ⟨micros, hcell, htime⟩
    · exact .of_error rfl
  · exact .of_error rfl
  · exact .of_error rfl

theorem modeOf_yields (name : String) : Yields (modeOf name) fun mode => name = mode.name := by
  unfold modeOf
  split
  · next hmode => exact .of_ok (Mode.ofName?_eq_some_iff.1 hmode)
  · exact .of_error rfl

theorem address_yields : Yields row.address fun a =>
    row.cell "scope" = .text a.scope.name ∧ row.cell "scope_id" = .text a.owner := by
  refine (row.text_yields "scope").bind fun name hname => ?_
  split
  · exact .of_error rfl
  · next hscope =>
    refine (row.text_yields "scope_id").bind fun owner howner => .of_ok ⟨?_, howner⟩
    rw [hname, Scope.ofName?_eq_some_iff.1 hscope]

/-- What the columns of a row say when a notification is read from them. -/
structure Tells (row : Row) (n : Notification) : Prop where
  id : row.cell "id" = .id n.id
  kind : row.cell "kind" = .text n.kind
  target : ∃ a, n.target = some a ∧ row.cell "scope" = .text a.scope.name ∧
    row.cell "scope_id" = .text a.owner
  group : row.cell "group_key" = Statement.cellOf n.group
  mode : row.cell "mode" = .text n.mode.name
  payload : ∃ text, row.cell "payload" = .json text ∧ Json.Shape.members.read? text = some n.payload
  createdAt : ∃ micros, row.cell "created_at" = .time micros ∧
    Instant.ofMicros? micros = some n.createdAt

theorem notification_yields : Yields row.notification row.Tells := by
  refine (row.text_yields "mode").bind fun name hname => ?_
  refine (row.members_yields "payload").bind fun payload hpayload => ?_
  refine (idOf_yields _ (row.cell "id")).bind fun id hid => ?_
  refine (row.text_yields "kind").bind fun kind hkind => ?_
  refine row.address_yields.bind fun a ha => ?_
  refine (row.text?_yields "group_key").bind fun group hgroup => ?_
  refine (modeOf_yields name).bind fun mode hmode => ?_
  refine (row.time_yields "created_at").bind fun createdAt hcreated => ?_
  exact .of_ok ⟨hid, hkind, ⟨a, rfl, ha⟩, hgroup, hname.trans (congrArg Cell.text hmode), hpayload, hcreated⟩

namespace HoldsInserted

variable {row : Row} {a : Address} {n : Notification} (h : row.HoldsInserted a n)
  (htarget : n.target = some a) (htime : n.createdAt.IsMicro)
include h htarget htime

/-- Only the payload can come back as another. -/
theorem eq_of_notification {m : Notification} (hm : row.notification = .ok m) :
    m = { n with payload := m.payload } := by
  rw [h.notification_eq htarget htime] at hm
  cases hmembers : row.members "payload" with
  | ok members =>
    rw [hmembers] at hm
    cases hm
    rfl
  | error fault =>
    rw [hmembers] at hm
    cases hm

theorem isRejected_of_deep (hlegible : (Json.Value.obj n.payload).IsLegible)
    (hdeep : ¬ (Json.Value.obj n.payload).depth ≤ Json.nestingLimit) : IsRejected row.notification := by
  have hrejected : IsRejected (row.members "payload") := by
    refine (row.members_yields "payload").isRejected fun members ⟨text, hcell, hread⟩ => hdeep ?_
    have hmembers := (h.members_eq_ok_iff hlegible).1 ((members_eq_ok_iff_of_json hcell).2 hread)
    exact Json.depth_le_of_members (p := Json.Place.top) (hmembers ▸ rfl)
  obtain ⟨fault, hfault, hkind⟩ := hrejected
  rw [h.notification_eq htarget htime, hfault]
  exact ⟨fault, rfl, hkind⟩

end HoldsInserted

end Row

section Store

variable {a : Address} {n : Notification}

theorem insert_mem_storePlan {b : Address} {m : Notification} :
    .insert b m ∈ storePlan a n ↔ b = a ∧ m = n := by
  unfold storePlan insertPlan
  cases n.group <;> simp

/-- Of an attempt that committed, everything was sent. -/
theorem Attempt.Follows.insert_mem {t : Attempt} (h : t.Follows (storePlan a n)) (hcommitted : t.isCommitted) :
    .insert a n ∈ t.statements := by
  obtain ⟨x, hx, hcommit, _⟩ := hcommitted
  have hmem : .commit ∈ t.statements := hcommit ▸ List.mem_map_of_mem hx
  rcases List.prefix_concat_iff.1 h.order with hwhole | hpart
  · rw [hwhole]
    exact insert_mem_storePlan.2 ⟨rfl, rfl⟩
  · exact absurd (hpart.subset hmem) (commit_notMem_insertPlan a n)

/-- The one row that storing inserts, and that it has inserted when it comes back. -/
theorem sent_of_store (ha : n.target = some a) (hmode : n.mode.isPersisted) {s : Session}
    (hup : s.link = .up) :
    ∃ said, (store n s).2.sent = s.sent ++ said ∧ (∀ b m, .insert b m ∈ said → b = a ∧ m = n) ∧
      ∀ replaced, (store n s).1 = .ok replaced → .insert a n ∈ said := by
  obtain ⟨ts, hts, htried, hlast⟩ := store_tried ha hmode s
  refine ⟨_, hts.sent_eq hup, ?_, ?_⟩
  · intro b m hsaid
    obtain ⟨t, ht, hstatement⟩ := List.mem_flatMap.1 hsaid
    rcases List.mem_append.1 hstatement with hstatement | hback
    · exact insert_mem_storePlan.1 ((htried.follows t ht).order.subset hstatement)
    · split at hback <;> simp at hback
  · intro replaced hok
    obtain ⟨t, ht, hcommitted, _⟩ := (hlast replaced).1 hok
    have hmem : t ∈ ts := List.mem_of_getLast? ht
    exact List.mem_flatMap.2 ⟨t, hmem, List.mem_append_left _ ((htried.follows t hmem).insert_mem hcommitted)⟩

end Store

end Tidings.Database

namespace Tidings
open Database

theorem Instant.isMicro_toMicrosecond {t : Instant} (h : t.nanos < billion) : t.toMicrosecond.IsMicro :=
  ⟨Nat.mul_mod_left _ _, Nat.lt_of_le_of_lt (Nat.div_mul_le_self _ _) h⟩

/-- What is written when a notification is stored at a time outside leap seconds, and what is read. From
any row with the inserted values the target is read, and the notification up to its payload; the payload,
if its numbers are read back, it is not too deep, and nothing in it is taken for an embedded text. A row
whose scope or mode has another name than those there are is rejected. -/
theorem rows_read_back (id : Id) (now : Instant) (a : Address) (kind : String) (mode : Mode)
    (group : Option String) (payload : Json.Members) (hclock : now.nanos < billion)
    (hmode : mode = .queued ∨ mode = .timeseries) (hsorted : (Json.Value.obj payload).IsSorted) :
    let n : Notification := .create id now (some a) kind mode group payload
    let written : Row := Statement.insertColumns.zip (Statement.insert a n).params
    (∀ s : Session, s.link = .up →
      ∃ said, (store n s).2.sent = s.sent ++ said ∧ (∀ b m, .insert b m ∈ said → b = a ∧ m = n) ∧
        ∀ replaced, (store n s).1 = .ok replaced → .insert a n ∈ said) ∧
    (Statement.insert a n).text = "INSERT INTO pulse_notifications (" ++
      ", ".intercalate (Statement.insertColumns ++ ["notified_at"]) ++
      ") VALUES ($1, $2, $3, $4, $5, $6, $7, $8, CURRENT_TIMESTAMP)" ∧
    (∀ row : Row, (∀ column ∈ ["scope", "scope_id"], row.cell column = written.cell column) →
      row.address = .ok a) ∧
    (∀ row : Row, (∀ column ∈ Statement.insertColumns, row.cell column = written.cell column) →
      (∀ m, row.notification = .ok m → m = { n with payload := m.payload }) ∧
      ((Json.Value.obj payload).IsLegible →
        if (Json.Value.obj payload).depth ≤ 127 then
          (row.notification = .ok n ↔ ∀ m ∈ payload, m.2.IsVerbatim)
        else IsRejected row.notification)) ∧
    ∀ row : Row,
      ((∀ scope : Scope, row.cell "scope" ≠ .text scope.name) →
        IsRejected row.address ∧ IsRejected row.notification) ∧
      ((∀ mode : Mode, row.cell "mode" ≠ .text mode.name) → IsRejected row.notification) := by
  intro n written
  have hpersisted : n.mode.isPersisted := by rcases hmode with rfl | rfl <;> rfl
  refine ⟨fun s hup => sent_of_store rfl hpersisted hup, rfl, ?_, fun row hrow => ?_, fun row => ⟨?_, ?_⟩⟩
  · exact fun row hrow => Row.address_of_cells (hrow "scope" (by decide)) (hrow "scope_id" (by decide))
  · have hholds : row.HoldsInserted a n := hrow
    have hmicro : n.createdAt.IsMicro := Instant.isMicro_toMicrosecond hclock
    refine ⟨fun m hm => hholds.eq_of_notification rfl hmicro hm, fun hlegible => ?_⟩
    split
    · next hdepth => exact hholds.notification_iff rfl hlegible hsorted hdepth hmicro
    · next hdeep => exact hholds.isRejected_of_deep rfl hmicro hlegible hdeep
  · intro hscope
    refine ⟨row.address_yields.isRejected fun b hb => hscope b.scope hb.1, ?_⟩
    refine row.notification_yields.isRejected fun m hm => ?_
    obtain ⟨b, _, hb, _⟩ := hm.target
    exact hscope b.scope hb
  · exact fun hname => row.notification_yields.isRejected fun m hm => hname m.mode hm.mode

/-- The columns of the row come in another order, with one more, and then with another mode. -/
theorem rows_read_back_of_shuffled :
    let payload : Json.Members := [("k", .num (.int (-3)))]
    let n : Notification :=
      .create ⟨5⟩ Instant.epoch (some ⟨.user, "u1"⟩) "note" .timeseries (some "g") payload
    let row : Row := ("notified_at", .time 0) :: (Statement.insertedRow ⟨.user, "u1"⟩ n).reverse
    Instant.epoch.nanos < billion ∧ (Json.Value.obj payload).IsSorted ∧ (Json.Value.obj payload).IsLegible ∧
      row.address = .ok ⟨.user, "u1"⟩ ∧ row.notification = .ok n ∧
      IsRejected (Row.notification (("mode", .text "Queued") :: row)) := by
  intro payload n row
  have hsorted : (Json.Value.obj payload).IsSorted :=
    .obj (List.pairwise_singleton _ _) (List.forall_mem_singleton.2 (.num _))
  have hlegible : (Json.Value.obj payload).IsLegible :=
    .obj (List.forall_mem_singleton.2 (.num (by decide +kernel)))
  obtain ⟨_, _, haddress, hread, hrejected⟩ := rows_read_back ⟨5⟩ Instant.epoch ⟨.user, "u1"⟩ "note"
    .timeseries (some "g") payload (by decide) (.inr rfl) hsorted
  refine ⟨by decide, hsorted, hlegible, haddress row ?_, ?_, ?_⟩
  · intro column hcolumn
    fin_cases hcolumn <;> rfl
  · have hback := (hread row (by intro column hcolumn; fin_cases hcolumn <;> rfl)).2 hlegible
    rw [if_pos (by decide)] at hback
    exact hback.2 (List.forall_mem_singleton.2 (.num _))
  · refine (hrejected _).2 fun mode => ?_
    have hcell : Row.cell (("mode", .text "Queued") :: row) "mode" = .text "Queued" := rfl
    rw [hcell]
    cases mode <;> decide

section Misreadings

open Json

/-- The number in members that consist of one. -/
def Json.Value.onlyNumber? : Value → Option Number
  | .obj [(_, .num x)] => some x
  | _ => none

/-- A double is read as its neighbour, an object is taken for an embedded text, a deep payload is rejected,
and the mode that is never written is read nevertheless. -/
theorem inserted_rows_misread :
    let n (payload : Members) : Notification :=
      .create ⟨5⟩ Instant.epoch (some ⟨.session, "s1"⟩) "note" .queued none payload
    let written (payload : Members) : Row := Statement.insertedRow ⟨.session, "s1"⟩ (n payload)
    let score : Members := [("score", .num (.real ⟨false, 8911069735103133, -53⟩))]
    let deep : Members := [("k", (fun v => .arr [v])^[127] .null)]
    (∃ m, (written score).notification = .ok m ∧ m ≠ n score ∧
      (Value.obj m.payload).onlyNumber? = some (.real ⟨false, 8911069735103132, -53⟩)) ∧
    ((written disguised).notification = .ok (n undisguised) ∧ n undisguised ≠ n disguised) ∧
    IsRejected (written deep).notification ∧
    Row.notification (("mode", .text "ephemeral") :: written []) = .ok { n [] with mode := .ephemeral } := by
  intro n written score deep
  have hmicro : Instant.epoch.toMicrosecond.IsMicro := Instant.isMicro_toMicrosecond (by decide)
  have hholds (payload : Members) : (written payload).HoldsInserted ⟨.session, "s1"⟩ (n payload) :=
    Row.holdsInserted_insertedRow ⟨.session, "s1"⟩ (n payload)
  refine ⟨?_, ⟨?_, ?_⟩, ?_, ?_⟩
  · have hread : (Shape.members.read? (Value.obj score).text).bind (fun members =>
        (Value.obj members).onlyNumber?) = some (.real ⟨false, 8911069735103132, -53⟩) := by
      rw [Value.text, Shape.read?, Tree.ofText?, String.toList_ofList]
      decide +kernel
    obtain ⟨members, hmembers, hnumber⟩ := Option.bind_eq_some_iff.1 hread
    have hcell : (written score).cell "payload" = .json (Value.obj score).text := rfl
    have hpayload : (written score).members "payload" = .ok members :=
      (Row.members_eq_ok_iff_of_json hcell).2 hmembers
    rw [(hholds score).notification_eq rfl hmicro, hpayload]
    refine ⟨_, rfl, fun heq => ?_, hnumber⟩
    obtain rfl : members = score := congrArg Notification.payload heq
    exact absurd hnumber (by decide)
  · have hpayload : (written disguised).members "payload" = .ok undisguised :=
      ((hholds disguised).members_eq_ok_iff isPlain_disguised.isLegible).2 (members_disguised (by decide))
    rw [(hholds disguised).notification_eq rfl hmicro, hpayload]
    rfl
  · exact fun heq => disguised_ne_undisguised (congrArg Notification.payload heq).symm
  · have hlegible : (Value.obj deep).IsLegible :=
      .obj (List.forall_mem_singleton.2 (legible_sorted_nested 127).1)
    have hdeep : ¬ (Value.obj deep).depth ≤ nestingLimit := by decide +kernel
    exact (hholds deep).isRejected_of_deep rfl hmicro hlegible hdeep
  · have hholds : Row.HoldsInserted (("mode", .text "ephemeral") :: written []) ⟨.session, "s1"⟩
        { n [] with mode := .ephemeral } := by
      intro column hcolumn
      fin_cases hcolumn <;> rfl
    have hlegible : (Value.obj []).IsLegible := .obj (List.forall_mem_nil _)
    have hsorted : (Value.obj []).IsSorted := .obj .nil (List.forall_mem_nil _)
    exact (hholds.notification_iff rfl hlegible hsorted (by decide) hmicro).2 (List.forall_mem_nil _)

end Misreadings

end Tidings
