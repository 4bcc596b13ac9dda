import Tidings.Proofs.Representation
/-!
The two maps of a memory. The index says exactly under which address an identifier stands, so a removal that finds
an identifier in the index finds its entry too, and changes both maps or none.
-/
namespace Tidings

theorem Log.countP_hasId (id : Id) (log : Log) : log.countP (hasId id) = log.ids.count id := by
  rw [ids, List.count, List.countP_map]
  refine List.countP_congr fun s _ => ?_
  simp [hasId]

namespace Memory
open Log

/-- How the index and the entries of the addresses fit together. -/
structure Coherent (m : Memory) : Prop where
  /-- The index leads to the one address that holds an identifier, which it holds once. -/
  index_iff : ∀ id a, m.index.get? id = some a ↔
    (m.entries a).countP (hasId id) = 1 ∧ ∀ a', a' ≠ a → ∀ s ∈ m.entries a', s.notification.id ≠ id
  placed : ∀ a, ∀ s ∈ m.entries a,
    s.notification.target = some a ∧ s.notification.mode.isPersisted = true
  occupied : ∀ a, m.byAddress.get? a ≠ some []
  size_eq : m.size = m.rows.length

/-- Removes one identifier after the other. -/
def removeAll (m : Memory) (ids : List Id) : Memory := ids.foldl (fun m id => (m.remove id).2) m

namespace Represents
variable {m : Memory} {log : Log}

theorem mem_entries_iff (h : m.Represents log) (a : Address) (s : Stored) :
    s ∈ m.entries a ↔ s ∈ log ∧ s.notification.target = some a := by
  rw [h.entries_eq, List.mem_filter, isAt, decide_eq_true_eq]

/-- The index leads from the identifier of each entry to its target, and from nowhere else. -/
theorem index_eq_some_iff (h : m.Represents log) (id : Id) (a : Address) : m.index.get? id = some a ↔
    ∃ s ∈ m.entries a, s.notification.id = id := by
  rw [h.index_eq, Option.bind_eq_some_iff]
  constructor
  · rintro ⟨s, hs, ha⟩
    obtain ⟨hmem, hid⟩ := (h.sound.find?_hasId s id).1 hs
    exact ⟨s, (h.mem_entries_iff a s).2 ⟨hmem, ha⟩, hid⟩
  · rintro ⟨s, hs, hid⟩
    obtain ⟨hmem, ha⟩ := (h.mem_entries_iff a s).1 hs
    exact ⟨s, (h.sound.find?_hasId s id).2 ⟨hmem, hid⟩, ha⟩

theorem countP_entries (h : m.Represents log) (id : Id) (a : Address) :
    (m.entries a).countP (hasId id) = 1 ↔ ∃ s ∈ m.entries a, s.notification.id = id := by
  have hdistinct : (ids (m.entries a)).Nodup := by
    rw [h.entries_eq]
    exact (h.sound.sublist List.filter_sublist).distinct
  rw [countP_hasId]
  constructor
  · intro hone
    have hmem : id ∈ ids (m.entries a) := List.count_pos_iff.1 (by omega)
    exact List.mem_map.1 hmem
  · intro hex
    exact List.count_eq_one_of_mem hdistinct (List.mem_map.2 hex)

theorem length_rows (h : m.Represents log) : m.rows.length = log.length := h.values_perm.length_eq

theorem coherent (h : m.Represents log) : m.Coherent where
  index_iff id a := by
    rw [h.index_eq_some_iff, h.countP_entries]
    constructor
    · rintro ⟨s, hs, hid⟩
      refine ⟨⟨s, hs, hid⟩, fun a' hne t ht htid => hne ?_⟩
      obtain ⟨hmem, ha⟩ := (h.mem_entries_iff a s).1 hs
      obtain ⟨hmem', ha'⟩ := (h.mem_entries_iff a' t).1 ht
      have heq := h.sound.eq_of_id hmem' hmem (htid.trans hid.symm)
      rw [heq, ha] at ha'
      exact (Option.some.inj ha').symm
    · exact fun hboth => hboth.1
  placed a s hs := by
    obtain ⟨hmem, ha⟩ := (h.mem_entries_iff a s).1 hs
    obtain ⟨_, _, hmode⟩ := exists_target (h.sound.stored s hmem)
    exact ⟨ha, hmode⟩
  occupied := h.occupied
  size_eq := by
    rw [h.size_eq, h.length_rows]

/-- What the index knows is found under its address. -/
theorem takeOut_of_index (h : m.Represents log) {id : Id} {a : Address} (hindex : m.index.get? id = some a) :
    ∃ l n rest, m.byAddress.get? a = some l ∧ takeOut id l = some (n, rest) := by
  obtain ⟨s, hs, rfl⟩ := (h.index_eq_some_iff id a).1 hindex
  obtain ⟨hmem, ha⟩ := (h.mem_entries_iff a s).1 hs
  exact ⟨_, _, _, h.byAddress_of_mem hmem ha, h.takeOut_entries hmem ha⟩

theorem remove_of_unknown {id : Id} (hindex : m.index.get? id = none) : m.remove id = (none, m) := by
  rw [Memory.remove, hindex]

/-- A removal changes the index exactly when it changes the entries of the addresses. -/
theorem remove_both (h : m.Represents log) (id : Id) :
    (m.remove id).2.index = m.index ↔ (m.remove id).2.byAddress = m.byAddress := by
  cases hindex : m.index.get? id with
  | none =>
    rw [remove_of_unknown hindex]
    exact iff_of_true rfl rfl
  | some a =>
    obtain ⟨s, hs, rfl⟩ := (h.index_eq_some_iff id a).1 hindex
    have hgone := (h.remove s.notification.id).2
    have hnot : ∀ a', s ∉ (m.remove s.notification.id).2.entries a' := fun a' hs' => by
      have hin := (mem_without.1 ((hgone.mem_entries_iff a' s).1 hs').1).2
      simp [hasId] at hin
    refine iff_of_false (fun hsame => ?_) (fun hsame => ?_)
    · rw [← hsame] at hindex
      obtain ⟨t, ht, hid⟩ := (hgone.index_eq_some_iff _ a).1 hindex
      have hin := (mem_without.1 ((hgone.mem_entries_iff a t).1 ht).1).2
      simp [hasId, hid] at hin
    · refine hnot a ?_
      rw [entries, hsame]
      exact hs

/-- A removal of what the index knows takes out one row. -/
theorem length_rows_remove (h : m.Represents log) {id : Id} {a : Address} (hindex : m.index.get? id = some a) :
    (m.remove id).2.rows.length + 1 = m.rows.length := by
  obtain ⟨s, hs, hid⟩ := (h.index_eq_some_iff id a).1 hindex
  have hmem : id ∈ log.ids := List.mem_map.2 ⟨s, ((h.mem_entries_iff a s).1 hs).1, hid⟩
  have hone : log.countP (hasId id) = 1 := by
    rw [countP_hasId]
    exact List.count_eq_one_of_mem h.sound.distinct hmem
  have hsplit := List.length_eq_countP_add_countP (hasId id) (l := log)
  rw [(h.remove id).2.length_rows, h.length_rows, hsplit, hone, without, ← List.countP_eq_length_filter]
  simp only [Bool.not_eq_true, Bool.decide_eq_false]
  omega

theorem removeAll (h : m.Represents log) (ids : List Id) :
    (m.removeAll ids).Represents (without (fun s => s.notification.id ∈ ids) log) :=
  h.foldl_remove ids

/-- Removals of what the index knows at the time take out as many rows as they are. -/
theorem length_rows_removeAll (h : m.Represents log) {order : List Id}
    (hknown : ∀ before id after, order = before ++ id :: after →
      ∃ a, (m.removeAll before).index.get? id = some a) :
    order.length + (m.removeAll order).rows.length = m.rows.length := by
  induction order generalizing m log with
  | nil => exact Nat.zero_add _
  | cons id order ih =>
    obtain ⟨a, ha⟩ := hknown [] id order rfl
    have hfirst := h.length_rows_remove ha
    have hrest := ih (h.remove id).2 fun before id' after horder => by
      have hlater := hknown (id :: before) id' after (by rw [horder]; rfl)
      exact hlater
    rw [List.length_cons, ← hfirst, ← hrest]
    exact Nat.add_right_comm _ _ _

/-- Whatever the order in which what is expired is removed, the index knows each identifier when its turn
comes. -/
theorem known_in_turn (h : m.Represents log) {q t : Instant} {order : List Id}
    (horder : order.Perm (m.expired q t)) {before after : List Id} {id : Id}
    (hturn : order = before ++ id :: after) : ∃ a, (m.removeAll before).index.get? id = some a := by
  have hperm := horder.trans (h.expired_perm q t)
  have hdistinct : order.Nodup :=
    hperm.nodup_iff.2 (((List.filter_sublist (p := isOld q t)).map _).nodup h.sound.distinct)
  have hbefore : id ∉ before := by
    rw [hturn, List.nodup_append] at hdistinct
    exact fun hmem => hdistinct.2.2 id hmem id List.mem_cons_self rfl
  have hmem : id ∈ order := by simp [hturn]
  obtain ⟨s, hs, rfl⟩ := List.mem_map.1 (hperm.mem_iff.1 hmem)
  have hlog := (List.mem_filter.1 hs).1
  obtain ⟨a, ha, _⟩ := exists_target (h.sound.stored s hlog)
  have hleft : s ∈ without (fun s => s.notification.id ∈ before) log :=
    mem_without.2 ⟨hlog, decide_eq_false hbefore⟩
  have hthen := h.removeAll before
  exact ⟨a, (hthen.index_eq_some_iff _ a).2 ⟨s, (hthen.mem_entries_iff a s).2 ⟨hleft, ha⟩, rfl⟩⟩

end Represents

/-- In every memory that is reached the two maps agree. What the index knows is found under its address, so a
removal that gives nothing has changed nothing, and one that changes a map changes the other. Sweeping out what is
expired, in any order, finds each row when its turn comes and counts as many as it takes out. -/
theorem two_maps_agree {m : Memory} (hm : m.Reachable) :
    m.Coherent ∧
    (∀ id a, m.index.get? id = some a →
      ∃ l n rest, m.byAddress.get? a = some l ∧ takeOut id l = some (n, rest)) ∧
    (∀ id, ((m.remove id).1 = none → (m.remove id).2 = m) ∧
      ((m.remove id).2.index = m.index ↔ (m.remove id).2.byAddress = m.byAddress)) ∧
    (∀ q t, (m.purge q t).1 + (m.purge q t).2.rows.length = m.rows.length) ∧
    ∀ q t order, order.Perm (m.expired q t) →
      (∀ before id after, order = before ++ id :: after →
        ∃ a, (m.removeAll before).index.get? id = some a) ∧
      order.length = (m.purge q t).1 ∧ order.length + (m.removeAll order).rows.length = m.rows.length := by
  obtain ⟨log, h⟩ := hm.represents
  have hnothing : ∀ id, (m.remove id).1 = none → (m.remove id).2 = m := by
    intro id hnone
    cases hindex : m.index.get? id with
    | none => rw [Represents.remove_of_unknown hindex]
    | some a =>
      obtain ⟨s, hs, rfl⟩ := (h.index_eq_some_iff id a).1 hindex
      have hsome := (h.remove_some ((h.mem_entries_iff a s).1 hs).1).1
      rw [hnone] at hsome
      cases hsome
  have hany : ∀ q t order, order.Perm (m.expired q t) →
      order.length + (m.removeAll order).rows.length = m.rows.length := fun q t order horder =>
    h.length_rows_removeAll fun _ _ _ hturn => h.known_in_turn horder hturn
  refine ⟨h.coherent, fun id a => h.takeOut_of_index, fun id => ⟨hnothing id, h.remove_both id⟩,
    fun q t => hany q t _ (List.Perm.refl _), fun q t order horder => ?_⟩
  exact ⟨fun _ _ _ hturn => h.known_in_turn horder hturn, horder.length_eq, hany q t order horder⟩

/-- A memory in which one notification has taken the place of another; both rows that are left are expired. -/
theorem two_maps_agree_of_replacement :
    let a : Address := ⟨.user, "u"⟩
    let b : Address := ⟨.session, "s"⟩
    let later : Instant := ⟨5, 0, by decide, by decide, by decide⟩
    let m := (((Memory.empty.store .epoch (.create ⟨1⟩ .epoch (some a) "note" .queued (some "g") [])).2.store
      .epoch (.create ⟨2⟩ .epoch (some a) "note" .timeseries (some "g") [])).2.store
      .epoch (.create ⟨3⟩ .epoch (some b) "note" .queued none [])).2
    m.Reachable ∧ [⟨2⟩, ⟨3⟩].Perm (m.expired later later) ∧ m.size = 2 ∧
      (∃ l n rest, m.byAddress.get? a = some l ∧ takeOut ⟨2⟩ l = some (n, rest)) ∧
      ∃ k, (m.removeAll [⟨2⟩]).index.get? ⟨3⟩ = some k := by
  intro a b later m
  have hm : m.Reachable := .store (.store (.store .empty _ _ rfl) _ _ (by decide)) _ _ (by decide)
  have hperm : [⟨2⟩, ⟨3⟩].Perm (m.expired later later) := by decide
  obtain ⟨_, hfound, _, _, hturns⟩ := two_maps_agree hm
  exact ⟨hm, hperm, by decide, hfound ⟨2⟩ a (by decide), (hturns _ _ _ hperm).1 [⟨2⟩] ⟨3⟩ [] rfl⟩

end Memory

end Tidings
