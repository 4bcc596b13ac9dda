import Tidings.Proofs.Opening
/-!
From the first frame on the frames ahead say what is stored: a client that has taken them all holds the
queued notifications of its addresses, whatever was done in the meantime.
-/
namespace Tidings

theorem mem_of_mem_distinctFrom {seen : List Id} {ns : List Notification} {n : Notification}
    (h : n ∈ distinctFrom seen ns) : n ∈ ns := by
  induction ns generalizing seen with
  | nil => exact h
  | cons m ns ih =>
    rw [distinctFrom] at h
    split at h
    · exact List.mem_cons_of_mem m (ih h)
    · rcases List.mem_cons.1 h with rfl | h
      · exact List.mem_cons_self
      · exact List.mem_cons_of_mem m (ih h)

theorem exists_mem_distinctFrom {ns : List Notification} {n : Notification} (seen : List Id)
    (h : n ∈ ns) : n.id ∈ seen ∨ ∃ m ∈ distinctFrom seen ns, m.id = n.id := by
  induction ns generalizing seen with
  | nil => cases h
  | cons m ns ih =>
    rw [distinctFrom]
    by_cases hm : m.id ∈ seen
    · rw [if_pos hm]
      rcases List.mem_cons.1 h with rfl | h
      · exact .inl hm
      · exact ih seen h
    · rw [if_neg hm]
      rcases List.mem_cons.1 h with rfl | h
      · exact .inr ⟨n, List.mem_cons_self, rfl⟩
      · rcases ih (m.id :: seen) h with hs | ⟨x, hx, hid⟩
        · rcases List.mem_cons.1 hs with heq | hs
          · exact .inr ⟨m, List.mem_cons_self, heq.symm⟩
          · exact .inl hs
        · exact .inr ⟨x, List.mem_cons_of_mem _ hx, hid⟩

theorem mem_of_mem_replayOrder {ns : List Notification} {n : Notification}
    (h : n ∈ replayOrder ns) : n ∈ ns :=
  mem_of_mem_distinctFrom (List.mem_mergeSort.1 h)

/-- Each identifier that was found is replayed. -/
theorem exists_mem_replayOrder {ns : List Notification} {n : Notification} (h : n ∈ ns) :
    ∃ m ∈ replayOrder ns, m.id = n.id := by
  obtain ⟨m, hm, hid⟩ := (exists_mem_distinctFrom [] h).resolve_left List.not_mem_nil
  exact ⟨m, List.mem_mergeSort.2 hm, hid⟩

/-- A stream that starts with what was found. -/
def Stream.ofFound (c : ConnectionId) (found : List Notification) : Stream :=
  ⟨c, replayOrder found, false, (replayOrder found).map (·.id)⟩

/-- What a client with a stream keeps: with the frames ahead it would hold what is stored. -/
structure Reading (scopes : List Address) (used : List Id) (log : Log) (items : List Event)
    (t : Stream) (held : List Notification) : Prop where
  known : log.ids ⊆ used
  unique : log.ids.Nodup
  shown : t.shown ⊆ used
  distinct : (held.map (·.id)).Nodup
  awaited : ∀ n, n ∈ applyFrames held (t.ahead items) ↔ Awaited scopes log n

section Awaited
variable {scopes : List Address} {log : Log} {now : Instant} {m : Notification}

theorem awaited_post {n : Notification} (hst : n.mode = .queued → n.isStored) :
    Awaited scopes ((Deed.post n).onLog now log) m ↔
      Awaited scopes log m ∨ m = n ∧ n.mode = .queued ∧ isFor scopes (.notify n) := by
  constructor
  · rintro ⟨hq, ⟨a, ha, hta⟩, s, hs, rfl⟩
    rcases Deed.mem_onLog_post.1 hs with hs | ⟨_, rfl⟩
    · exact .inl ⟨hq, ⟨a, ha, hta⟩, s, hs, rfl⟩
    · have hta : n.target = some a := hta
      exact .inr ⟨rfl, hq, by simp [isFor, Event.target, hta, ha]⟩
  · rintro (⟨hq, ha, s, hs, rfl⟩ | ⟨rfl, hq, hfor⟩)
    · exact ⟨hq, ha, s, Deed.mem_onLog_post.2 (.inl hs), rfl⟩
    · obtain ⟨a, ha, _⟩ := Log.exists_target (s := ⟨m, now⟩) (hst hq)
      have ha : m.target = some a := ha
      refine ⟨hq, ⟨a, ?_, ha⟩, ⟨m, now⟩, Deed.mem_onLog_post.2 (.inr ⟨hst hq, rfl⟩), rfl⟩
      simpa [isFor, Event.target, ha] using hfor

theorem awaited_withdraw {id : Id} {a : Address} :
    Awaited scopes ((Deed.withdraw id a).onLog now log) m ↔ Awaited scopes log m ∧ m.id ≠ id := by
  constructor
  · rintro ⟨hq, ha, s, hs, rfl⟩
    obtain ⟨hs, hne⟩ := Deed.mem_onLog_withdraw.1 hs
    exact ⟨⟨hq, ha, s, hs, rfl⟩, hne⟩
  · rintro ⟨⟨hq, ha, s, hs, rfl⟩, hne⟩
    exact ⟨hq, ha, s, Deed.mem_onLog_withdraw.2 ⟨hs, hne⟩, rfl⟩

end Awaited

section Start
variable (c : ConnectionId) {items : List Event} (found : List Notification)

theorem ahead_ofFound : (Stream.ofFound c found).ahead items = Stream.notices (replayOrder found) ++
    ([.sync] ++ Stream.live ((replayOrder found).map (·.id)) items) :=
  rfl

theorem mem_of_mem_live {shown : List Id} {e : Event} (h : .message e ∈ Stream.live shown items) :
    e ∈ items := by
  obtain ⟨e', he', heq⟩ := List.mem_map.1 ((Stream.live_sublist _ _).subset h)
  rwa [← Frame.message.inj heq]

theorem notify_mem_ahead {n : Notification} :
    .message (.notify n) ∈ (Stream.ofFound c found).ahead items → n ∈ found ∨ .notify n ∈ items := by
  intro h
  simp only [ahead_ofFound, Stream.notices, List.mem_append, List.mem_map, List.mem_singleton] at h
  rcases h with ⟨m, hm, heq⟩ | h | h
  · cases heq
    exact .inl (mem_of_mem_replayOrder hm)
  · cases h
  · exact .inr (mem_of_mem_live h)

theorem dismissed_mem_ahead {id : Id} {target : Option Address} :
    .message (.dismissed id target) ∈ (Stream.ofFound c found).ahead items ↔
      .dismissed id target ∈ items := by
  simp only [ahead_ofFound, Stream.notices, List.mem_append, List.mem_map, List.mem_singleton]
  constructor
  · rintro (⟨m, _, heq⟩ | h | h)
    · cases heq
    · cases h
    · exact mem_of_mem_live h
  · exact fun h => .inr (.inr (Stream.dismissed_mem_live h))

/-- A notice was found or waits in the queue, and nothing else that was found has its identifier: then it
is ahead, replayed or shown. -/
theorem notify_mem_ahead_of {n : Notification} (h : n ∈ found ∨ .notify n ∈ items)
    (hunique : ∀ m ∈ found, m.id = n.id → m = n) :
    .message (.notify n) ∈ (Stream.ofFound c found).ahead items := by
  rw [ahead_ofFound]
  by_cases hreplayed : n.id ∈ (replayOrder found).map (·.id)
  · obtain ⟨m, hm, hid⟩ := List.mem_map.1 hreplayed
    obtain rfl := hunique m (mem_of_mem_replayOrder hm) hid
    exact List.mem_append_left _ (List.mem_map.2 ⟨m, hm, rfl⟩)
  · rcases h with hfound | hitem
    · obtain ⟨m, hm, hid⟩ := exists_mem_replayOrder hfound
      exact absurd (List.mem_map.2 ⟨m, hm, hid⟩) hreplayed
    · exact List.mem_append_right _ (List.mem_append_right _
        (Stream.notify_mem_live hitem hreplayed))

/-- No notice stands behind the withdrawal in the frames, as none does in the queue. -/
theorem ahead_order
    (h : items.Pairwise fun e e' => ∀ id target n, e = .dismissed id target → e' = .notify n → n.id ≠ id) :
    ((Stream.ofFound c found).ahead items).Pairwise fun f f' => ∀ id target n,
      f = .message (.dismissed id target) → f' = .message (.notify n) → n.id ≠ id := by
  have hlive : (Stream.live ((replayOrder found).map (·.id)) items).Pairwise fun f f' =>
      ∀ id target n, f = .message (.dismissed id target) → f' = .message (.notify n) → n.id ≠ id := by
    refine List.Pairwise.sublist (Stream.live_sublist _ _) (List.pairwise_map.2 (h.imp ?_))
    intro e e' he id target n hd hn
    exact he id target n (Frame.message.inj hd) (Frame.message.inj hn)
  have hnone : ∀ f ∈ Stream.notices (replayOrder found), ∀ id target,
      f ≠ .message (.dismissed id target) := by
    intro f hf id target heq
    obtain ⟨n, _, rfl⟩ := List.mem_map.1 hf
    cases heq
  rw [ahead_ofFound, List.pairwise_append]
  refine ⟨List.pairwise_map.2 (List.pairwise_of_forall ?_), ?_, ?_⟩
  · intro m m' id target n hd
    cases hd
  · refine List.pairwise_cons.2 ⟨?_, hlive⟩
    intro f _ id target n hd
    cases hd
  · intro f hf f' _ id target n hd
    exact absurd hd (hnone f hf id target)

end Start

/-- When everything has been read, what was found and what is in the queue make up what is stored. -/
theorem Opening.start {scopes : List Address} {used : List Id} {log : Log} {items : List Event}
    {found : List Notification} (h : Opening scopes used log items [] found)
    (hunique : log.ids.Nodup) (c : ConnectionId) :
    Reading scopes used log items (.ofFound c found) [] where
  known id hid := by
    obtain ⟨s, hs, rfl⟩ := List.mem_map.1 hid
    exact h.known s.notification (.inr (.inr ⟨s, hs, rfl⟩))
  unique := hunique
  shown id hid := by
    obtain ⟨n, hn, rfl⟩ := List.mem_map.1 hid
    exact h.known n (.inl (mem_of_mem_replayOrder hn))
  distinct := List.nodup_nil
  awaited n := by
    have hknown : ∀ m, m ∈ found ∨ .notify m ∈ items → Known log items found m :=
      fun m hm => hm.imp_right .inl
    constructor
    · intro hn
      obtain ⟨hq, before, after, heq, hlater⟩ :=
        (exists_of_mem_applyFrames hn).resolve_left fun hold => List.not_mem_nil hold.1
      have hshown : n ∈ found ∨ .notify n ∈ items :=
        notify_mem_ahead c found (by rw [heq]; exact List.mem_append_right _ List.mem_cons_self)
      rcases h.withdrawn n hq hshown with hs | ⟨target, hd⟩
      · exact ⟨hq, h.heard n hq hshown, hs⟩
      · -- The withdrawal would stand behind the notice, but nothing does.
        have horder := ahead_order c found h.order
        have hd := (dismissed_mem_ahead c found).2 hd
        rw [heq] at horder hd
        rcases List.mem_append.1 hd with hd | hd
        · exact absurd rfl ((List.pairwise_append.1 horder).2.2 _ hd _ List.mem_cons_self
            n.id target n rfl rfl)
        · exact absurd (by simpa using hd) (hlater target)
    · intro hn
      have hreached := h.reached n hn
      obtain ⟨hq, _, s, hs, rfl⟩ := hn
      have hkn : Known log items found s.notification := .inr (.inr ⟨s, hs, rfl⟩)
      refine mem_applyFrames_of hq (.inr (notify_mem_ahead_of c found ?_ ?_)) ?_ ?_
      · simpa using hreached
      · exact fun m hm hid => h.unique m _ (.inl hm) hkn hid
      · exact fun target hd => h.stored s hs target ((dismissed_mem_ahead c found).1 hd)
      · exact fun m hm hid => h.unique m _ (hknown m (notify_mem_ahead c found hm)) hkn hid

namespace Reading
variable {scopes : List Address} {used : List Id} {log : Log} {items : List Event} {t : Stream}
  {held : List Notification} (h : Reading scopes used log items t held)
include h

/-- Taking frames changes nothing about what the client would hold at the end. -/
theorem passed {q q' : Queue Event} {frames : List Frame} {t' : Stream} (hq : q.items = items)
    (hp : Stream.Passed t q frames t' q') :
    Reading scopes used log q'.items t' (applyFrames held frames) where
  known := h.known
  unique := h.unique
  shown := List.Subset.trans hp.shown h.shown
  distinct := nodup_applyFrames h.distinct frames
  awaited n := by
    rw [← applyFrames_append, ← hp.ahead, hq]
    exact h.awaited n

theorem forget {log' : Log} (hsub : log'.Sublist log)
    (hkeep : ∀ s ∈ log, ∀ a ∈ scopes, s.notification.target = some a → s ∈ log') :
    Reading scopes used log' items t held where
  known _ hid := h.known ((hsub.map _).subset hid)
  unique := (hsub.map _).nodup h.unique
  shown := h.shown
  distinct := h.distinct
  awaited n := by
    rw [h.awaited]
    constructor
    · rintro ⟨hq, ⟨a, ha, hta⟩, s, hs, rfl⟩
      exact ⟨hq, ⟨a, ha, hta⟩, s, hkeep s hs a ha hta, rfl⟩
    · rintro ⟨hq, ha, s, hs, rfl⟩
      exact ⟨hq, ha, s, hsub.subset hs, rfl⟩

theorem awaited_id_mem {n : Notification} (hn : Awaited scopes log n) : n.id ∈ used := by
  obtain ⟨_, _, s, hs, rfl⟩ := hn
  exact h.known (List.mem_map_of_mem hs)

/-- A notification with a new identifier is shown, so the client adds it. -/
theorem post {n : Notification} {now : Instant} (hfresh : n.id ∉ used)
    (hst : n.mode = .queued → n.isStored) :
    Reading scopes (n.id :: used) ((Deed.post n).onLog now log)
      ((Deed.post n).onItems scopes items) t held where
  known id hid := by
    obtain ⟨s, hs, rfl⟩ := List.mem_map.1 hid
    rcases Deed.mem_onLog_post.1 hs with hs | ⟨_, rfl⟩
    · exact List.mem_cons_of_mem _ (h.known (List.mem_map_of_mem hs))
    · exact List.mem_cons_self
  unique := by
    rw [Deed.onLog]
    split
    · rw [Log.ids, List.map_append]
      refine List.Nodup.append h.unique (List.nodup_singleton _) (List.disjoint_singleton.2 ?_)
      exact fun hm => hfresh (h.known hm)
    · exact h.unique
  shown id hid := List.mem_cons_of_mem _ (h.shown hid)
  distinct := h.distinct
  awaited m := by
    have hne : Awaited scopes log m → m.id ≠ n.id := fun hm heq =>
      hfresh (heq ▸ h.awaited_id_mem hm)
    rw [awaited_post hst, ← h.awaited m]
    by_cases hfor : isFor scopes (.notify n)
    · have hitems : (Deed.post n).onItems scopes items = items ++ [.notify n] :=
        Deed.onItems_of_isFor (d := .post n) hfor items
      have hshown : ∀ n', Event.notify n = .notify n' → n'.id ∉ t.shown := by
        intro n' heq hm
        cases heq
        exact hfresh (h.shown hm)
      rw [hitems, Stream.ahead_append t items _ hshown, applyFrames_append]
      by_cases hq : n.mode = .queued
      · rw [show applyFrames _ [_] = applyFrame _ _ from rfl, mem_applyFrame_notify hq]
        constructor
        · rintro (⟨hm, _⟩ | rfl)
          · exact .inl hm
          · exact .inr ⟨rfl, hq, hfor⟩
        · rintro (hm | ⟨rfl, _⟩)
          · exact .inl ⟨hm, hne ((h.awaited m).1 hm)⟩
          · exact .inr rfl
      · rw [show applyFrames _ [_] = applyFrame _ _ from rfl, applyFrame_of_not_queued hq]
        simp [hq]
    · rw [Deed.onItems_of_not_isFor (d := .post n) hfor]
      simp [hfor]

/-- A withdrawal is always shown, so the client deletes what was withdrawn. -/
theorem withdraw {id : Id} {a : Address} {now : Instant} (hfit : (Deed.withdraw id a).Fits log) :
    Reading scopes used ((Deed.withdraw id a).onLog now log)
      ((Deed.withdraw id a).onItems scopes items) t held where
  known id' hid := h.known (Log.ids_without_subset _ _ hid)
  unique := ((Log.without_sublist _ _).map _).nodup h.unique
  shown := h.shown
  distinct := h.distinct
  awaited m := by
    rw [awaited_withdraw, ← h.awaited m]
    by_cases hfor : isFor scopes (.dismissed id (some a))
    · have hitems : (Deed.withdraw id a).onItems scopes items = items ++ [.dismissed id (some a)] :=
        Deed.onItems_of_isFor (d := .withdraw id a) hfor items
      rw [hitems, Stream.ahead_append t items _ (by simp), applyFrames_append]
      rw [show applyFrames _ [_] = applyFrame _ _ from rfl, mem_applyFrame_dismissed]
    · rw [Deed.onItems_of_not_isFor (d := .withdraw id a) hfor]
      refine ⟨fun hm => ⟨hm, fun hid => hfor ?_⟩, And.left⟩
      -- What is awaited is at one of the addresses, and so would be what is withdrawn.
      obtain ⟨_, ⟨b, hb, htb⟩, s, hs, rfl⟩ := (h.awaited m).1 hm
      obtain ⟨x, hx, hxid, hxa⟩ := hfit
      obtain rfl := List.inj_on_of_nodup_map h.unique hs hx (hid.trans hxid.symm)
      obtain rfl : a = b := Option.some.inj (hxa.symm.trans htb)
      simpa [isFor, Event.target] using hb

end Reading

end Tidings
