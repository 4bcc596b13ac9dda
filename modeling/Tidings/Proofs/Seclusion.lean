import Tidings.Proofs.Effects
import Tidings.Proofs.Run
/-!
What a call has to do with some addresses. A call for other addresses does nothing that concerns these, and
what a call for them does depends on nothing that is stored elsewhere.
-/
namespace Tidings
open Log

/-- Whether a run sends a notification to somewhere outside some addresses under an identifier. -/
def Step.SentOutside (K : Set Address) (xs : List Step) (id : Id) : Prop :=
  ∃ now target kind mode group payload,
    .call now (.notify id target kind mode group payload) ∈ xs ∧ target ∉ K

/-- A call for others than some addresses: it notifies or dismisses a group there, or dismisses one of the
notifications that were sent there. -/
def Call.IsForeign (K : Set Address) (sentOutside : Id → Prop) : Call → Prop
  | .notify _ target _ _ _ _ => target ∉ K
  | .broadcast .. => False
  | .dismiss id => sentOutside id
  | .dismissGroup a _ => a ∉ K

def Step.IsForeign (K : Set Address) (sentOutside : Id → Prop) : Step → Prop
  | .call _ c => c.IsForeign K sentOutside
  | _ => False

/-- A deed that concerns other addresses only. -/
def Deed.IsElsewhere (K : Set Address) (d : Deed) : Prop := ∃ a, a ∉ K ∧ d.event.target = some a

section Rows
variable (K : Set Address) [DecidablePred (· ∈ K)]

/-- Whether an entry is stored at one of some addresses. -/
def Log.isWithin (s : Stored) : Bool := s.notification.target.any (· ∈ K)

variable {K} {now : Instant} {log log' : Log}

theorem Log.isWithin_of_isAt {a : Address} (ha : a ∈ K) {s : Stored} (hs : isAt a s) : isWithin K s := by
  have hta : s.notification.target = some a := by simpa [isAt] using hs
  simp [isWithin, hta, ha]

/-- What is sought within some addresses is found by their part of a log. -/
theorem Log.find?_congr_within {p : Stored → Bool} (hp : ∀ s, p s → isWithin K s)
    (h : log'.filter (isWithin K) = log.filter (isWithin K)) : log'.find? p = log.find? p := by
  have hpart (l : Log) : l.find? p = (l.filter (isWithin K)).find? p := by
    rw [List.find?_filter]
    refine congrArg (fun q => List.find? q l) (funext fun s => ?_)
    by_cases hs : p s
    · simp [hs, hp s hs]
    · simp [hs]
  rw [hpart log', h, ← hpart log]

/-- What is selected within some addresses is selected from their part of a log. -/
theorem Log.filter_congr_within {p : Stored → Bool} (hp : ∀ s, p s → isWithin K s)
    (h : log'.filter (isWithin K) = log.filter (isWithin K)) : log'.filter p = log.filter p := by
  have hpart (l : Log) : l.filter p = (l.filter (isWithin K)).filter p := by
    rw [List.filter_filter]
    refine List.filter_congr fun s _ => ?_
    by_cases hs : p s
    · simp [hs, hp s hs]
    · simp [hs]
  rw [hpart log', h, ← hpart log]

theorem Log.filter_without_congr (p : Stored → Bool)
    (h : log'.filter (isWithin K) = log.filter (isWithin K)) :
    (without p log').filter (isWithin K) = (without p log).filter (isWithin K) := by
  have hcomm (l : Log) : (without p l).filter (isWithin K) = without p (l.filter (isWithin K)) := by
    rw [without, without, List.filter_filter, List.filter_filter]
    exact List.filter_congr fun s _ => Bool.and_comm _ _
  rw [hcomm, hcomm, h]

namespace Deed

theorem filter_onLog (d : Deed) (h : log'.filter (isWithin K) = log.filter (isWithin K)) :
    (d.onLog now log').filter (isWithin K) = (d.onLog now log).filter (isWithin K) := by
  cases d with
  | post n =>
    by_cases hst : n.isStored
    · rw [onLog, onLog, if_pos hst, if_pos hst, List.filter_append, List.filter_append, h]
    · rw [onLog, onLog, if_neg hst, if_neg hst, h]
  | withdraw id a =>
    rw [onLog, onLog]
    exact filter_without_congr (hasId id) h

theorem filter_logAfter (ds : List Deed) (h : log'.filter (isWithin K) = log.filter (isWithin K)) :
    (logAfter now log' ds).filter (isWithin K) = (logAfter now log ds).filter (isWithin K) := by
  induction ds generalizing log log' with
  | nil => exact h
  | cons d ds ih => exact ih (d.filter_onLog h)

theorem nodup_onLog {d : Deed} (hn : log.ids.Nodup) (hd : d.Fits log) : (d.onLog now log).ids.Nodup := by
  cases d with
  | post n =>
    by_cases hst : n.isStored
    · rw [onLog, if_pos hst, Log.ids, List.map_append]
      refine List.Nodup.append hn (List.nodup_singleton _) ?_
      exact List.disjoint_singleton.2 hd
    · rwa [onLog, if_neg hst]
  | withdraw id a => exact ((without_sublist _ _).map _).nodup hn

theorem filter_onLog_of_isElsewhere {d : Deed} (hn : log.ids.Nodup) (hd : d.Fits log)
    (he : d.IsElsewhere K) : (d.onLog now log).filter (isWithin K) = log.filter (isWithin K) := by
  obtain ⟨a, ha, hta⟩ := he
  cases d with
  | post n =>
    have hta : n.target = some a := hta
    have hout : ¬ isWithin K ⟨n, now⟩ := by simp [isWithin, hta, ha]
    by_cases hst : n.isStored
    · rw [onLog, if_pos hst, List.filter_append, List.filter_cons_of_neg hout, List.filter_nil,
        List.append_nil]
    · rw [onLog, if_neg hst]
  | withdraw id b =>
    obtain rfl : b = a := Option.some.inj hta
    obtain ⟨s, hs, rfl, hsb⟩ := hd
    rw [onLog, without, List.filter_filter]
    refine List.filter_congr fun t ht => ?_
    -- an entry within the addresses is not the one that was withdrawn
    by_cases hid : t.notification.id = s.notification.id
    · have heq : t = s := List.inj_on_of_nodup_map hn ht hs hid
      simp [heq, isWithin, hsb, ha]
    · simp [hasId, hid]

theorem filter_logAfter_of_isElsewhere {ds : List Deed} (hn : log.ids.Nodup) (hfit : AllFit now log ds)
    (he : ∀ d ∈ ds, d.IsElsewhere K) :
    (logAfter now log ds).filter (isWithin K) = log.filter (isWithin K) := by
  induction ds generalizing log with
  | nil => rfl
  | cons d ds ih =>
    obtain ⟨hd, hfit⟩ := hfit
    have hrest := ih (nodup_onLog hn hd) hfit fun d' hd' => he d' (List.mem_cons_of_mem d hd')
    exact hrest.trans (filter_onLog_of_isElsewhere hn hd (he d List.mem_cons_self))

end Deed

end Rows

theorem Service.sendDeeds_of_not_isStored (service : Service Memory) (log log' : Log)
    {n : Notification} (hst : ¬ n.isStored) : service.sendDeeds log' n = service.sendDeeds log n := by
  rw [sendDeeds, sendDeeds, if_neg hst, if_neg hst]

/-- What the sending of a notification does happens at its target. -/
theorem Service.target_of_mem_sendDeeds {service : Service Memory} {log : Log} {n : Notification}
    {d : Deed} (h : d ∈ service.sendDeeds log n) : d.event.target = n.target := by
  unfold sendDeeds at h
  split at h
  · split at h
    · rcases List.mem_append.1 h with h | h
      · cases ha : n.target with
        | none => simp [replacement, ha] at h
        | some a =>
          rw [replacement_eq ha] at h
          obtain ⟨s, _, rfl⟩ := List.mem_map.1 h
          rfl
      · rw [List.mem_singleton.1 h]
        rfl
    · rw [List.mem_singleton.1 h]
      rfl
  · cases h

namespace Call
variable {service : Service Memory} {now : Instant} {log : Log} {recent : Recent} {c : Call}

theorem sent?_of_post_mem {n : Notification} (h : .post n ∈ c.deeds service now log recent) :
    c.sent? service now = some n := by
  have hadmits {m : Notification} (hm : .post n ∈ service.sendDeeds log m) :
      n = m ∧ service.admits m := by
    refine ⟨post_mem_sendDeeds hm, ?_⟩
    by_contra hno
    rw [Service.sendDeeds, if_neg hno] at hm
    cases hm
  cases c with
  | notify fresh target kind mode group payload =>
    rw [deeds] at h
    by_cases ho : target.owner = ""
    · rw [if_pos ho] at h
      cases h
    · rw [if_neg ho] at h
      obtain ⟨rfl, ha⟩ := hadmits h
      simp [sent?, ho, ha]
  | broadcast fresh kind group payload =>
    rw [deeds] at h
    obtain ⟨rfl, ha⟩ := hadmits h
    simp [sent?, ha]
  | dismiss id =>
    simp only [deeds, dismissDeeds] at h
    split at h
    · cases h
    · split at h
      · split at h <;> simp at h
      · cases h
  | dismissGroup a group => simp [deeds, dismissGroupDeeds] at h

theorem fresh?_of_sent? {n : Notification} (h : c.sent? service now = some n) :
    c.fresh? = some n.id := (of_sent? h).2.1

end Call

/-- The identifier of a notification tells whether it was sent outside some addresses. -/
def Step.Tells (K : Set Address) (sentOutside : Id → Prop) : Step → Prop
  | .call _ (.notify fresh target _ _ _ _) => sentOutside fresh ↔ target ∉ K
  | _ => True

/-- What every state of a run keeps besides: what is remembered is not stored, and identifiers tell on which
side an entry is. -/
structure Parted (K : Set Address) (sentOutside : Id → Prop) (used : List Id)
    (s : Service.State Memory) (log : Log) : Prop where
  kept : Kept used s log
  remembered : ∀ id, s.recent.contains id → id ∈ used ∧ id ∉ log.ids
  sides : ∀ x ∈ log, ∀ a, x.notification.target = some a → (sentOutside x.notification.id ↔ a ∉ K)

theorem Recent.contains_remember {r : Recent} {id id' : Id} (h : (r.remember id).contains id') :
    id' = id ∨ r.contains id' := by
  rw [contains, List.contains_iff_mem, remember] at h
  rcases List.mem_cons.1 (List.mem_of_mem_take h) with heq | hm
  · exact .inl heq
  · exact .inr (List.contains_iff_mem.2 (List.mem_of_mem_filter hm))

namespace Parted
variable {K : Set Address} {sentOutside : Id → Prop} {service : Service Memory}
  (hb : service.backend = Backend.inMemory) {used : List Id} {s : Service.State Memory} {log : Log}
  (h : Parted K sentOutside used s log)
include h

theorem mono {used' : List Id} (hu : used ⊆ used') : Parted K sentOutside used' s log :=
  ⟨h.kept.mono hu, fun id hid => ⟨hu (h.remembered id hid).1, (h.remembered id hid).2⟩, h.sides⟩

theorem withRegistry {r : Registry} (hr : r.Sound) :
    Parted K sentOutside used (Step.withRegistry s r) log :=
  ⟨h.kept.withRegistry hr, h.remembered, h.sides⟩

/-- Where the entry of an identifier is stored. -/
theorem isForeign_iff {id : Id} {x : Stored} {a : Address} (hf : log.find? (hasId id) = some x)
    (ha : x.notification.target = some a) : sentOutside id ↔ a ∉ K := by
  obtain ⟨hx, rfl⟩ := (h.kept.store.sound.find?_hasId x id).1 hf
  exact h.sides x hx a ha

/-- What a foreign call does happens elsewhere. -/
theorem isElsewhere_of_isForeign (service : Service Memory) (now : Instant) {c : Call}
    (hc : c.IsForeign K sentOutside) :
    ∀ d ∈ c.deeds service now log s.recent, d.IsElsewhere K := by
  intro d hd
  cases c with
  | notify fresh target kind mode group payload =>
    rw [Call.deeds] at hd
    split at hd
    · cases hd
    · exact ⟨target, hc, Service.target_of_mem_sendDeeds hd⟩
  | broadcast fresh kind group payload => exact hc.elim
  | dismissGroup a group =>
    obtain ⟨x, _, rfl⟩ := List.mem_map.1 hd
    exact ⟨a, hc, rfl⟩
  | dismiss id =>
    rw [Call.deeds, dismissDeeds] at hd
    split at hd
    · cases hd
    · cases hf : log.find? (hasId id) with
      | none => simp [hf] at hd
      | some x =>
        simp only [hf] at hd
        split at hd
        · obtain ⟨a, ha, rfl⟩ := List.mem_map.1 hd
          have ha := Option.mem_toList.1 ha
          exact ⟨a, (h.isForeign_iff hf ha).1 hc, rfl⟩
        · cases hd

include hb

theorem done (now : Instant) {c : Call} (hfresh : ∀ id, c.fresh? = some id → id ∉ used) :
    Done now log s (c.deeds service now log s.recent) (c.run service now s) :=
  c.run_done hb h.kept.store fun id hid hm => hfresh id hid (h.kept.used hm)

theorem call {now : Instant} {c : Call} (hfresh : ∀ id, c.fresh? = some id → id ∉ used)
    (htells : (Step.call now c).Tells K sentOutside) :
    Parted K sentOutside (c.fresh?.toList ++ used) (c.run service now s)
      (Deed.logAfter now log (c.deeds service now log s.recent)) := by
  obtain ⟨es, hes, _⟩ := c.perform_does service now s
  rw [← c.run_eq_perform] at hes
  refine ⟨h.kept.call hb now c hfresh, fun id hid => ?_, fun x hx a ha => ?_⟩
  · rw [hes.recent] at hid
    have hnew : (∃ n, c.sent? service now = some n ∧ n.id = id ∧ ¬ n.isStored) ∨
        s.recent.contains id := by
      cases hsent : c.sent? service now with
      | none => exact .inr (by simpa [hsent] using hid)
      | some n =>
        by_cases hst : n.isStored
        · exact .inr (by simpa [hsent, Notification.passingId?, hst] using hid)
        · simp only [hsent, Option.bind_some, Notification.passingId?, hst] at hid
          rcases Recent.contains_remember hid with rfl | hold
          · exact .inl ⟨n, rfl, rfl, hst⟩
          · exact .inr hold
    have hposted {n : Notification} (hn : .post n ∈ c.deeds service now log s.recent) :
        c.sent? service now = some n := Call.sent?_of_post_mem hn
    rcases hnew with ⟨n, hsent, rfl, hst⟩ | hold
    · have hn := Call.fresh?_of_sent? hsent
      refine ⟨List.mem_append_left _ (by simp [hn]), fun hm => ?_⟩
      obtain ⟨y, hy, hid⟩ := List.mem_map.1 hm
      rcases Deed.of_mem_logAfter hy with hy | ⟨m, hm, hstm, rfl⟩
      · exact hfresh n.id hn (h.kept.used (hid ▸ List.mem_map_of_mem hy))
      · rw [hposted hm] at hsent
        cases hsent
        exact hst hstm
    · obtain ⟨hu, hno⟩ := h.remembered id hold
      refine ⟨List.mem_append_right _ hu, fun hm => ?_⟩
      obtain ⟨y, hy, rfl⟩ := List.mem_map.1 hm
      rcases Deed.of_mem_logAfter hy with hy | ⟨m, hpost, _, rfl⟩
      · exact hno (List.mem_map_of_mem hy)
      · exact hfresh _ (Call.fresh?_of_sent? (hposted hpost)) hu
  · rcases Deed.of_mem_logAfter hx with hx | ⟨n, hn, _, rfl⟩
    · exact h.sides x hx a ha
    · have hsent := Call.sent?_of_post_mem hn
      cases c with
      | notify fresh target kind mode group payload =>
        simp only [Call.sent?] at hsent
        split at hsent
        · cases hsent
          cases ha
          exact htells
        · cases hsent
      | broadcast fresh kind group payload =>
        simp only [Call.sent?] at hsent
        split at hsent
        · cases hsent
          cases ha
        · cases hsent
      | dismiss id => cases hsent
      | dismissGroup a group => cases hsent

omit h in
/-- A sweep takes the same entries out of every log. -/
theorem sweep (K : Set Address) (sentOutside : Id → Prop) (now : Instant) : ∃ old : Stored → Bool, ∀ {used : List Id} {s : Service.State Memory}
    {log : Log}, Parted K sentOutside used s log →
      Parted K sentOutside used ((Step.sweep now).run service s) (without old log) := by
  have hstore {old : Stored → Bool} {used : List Id} {s : Service.State Memory} {log : Log} {m : Memory}
      (h : Parted K sentOutside used s log) (hm : m.Represents (without old log)) :
      Parted K sentOutside used (s.withStore m) (without old log) := by
    have hids := ids_without_subset old log
    refine ⟨⟨hm, h.kept.registry, fun id hid => h.kept.used (hids hid)⟩, fun id hid => ?_,
      fun x hx => h.sides x (mem_without.1 hx).1⟩
    obtain ⟨hu, hno⟩ := h.remembered id hid
    exact ⟨hu, fun hm => hno (hids hm)⟩
  rcases sweep_inMemory service.settings now with hm | ⟨q, t, hm⟩
  · refine ⟨fun _ => false, fun {used s log} h => ?_⟩
    rw [Step.run_sweep hb, hm]
    refine hstore h ?_
    have hall : without (fun _ => false) log = log := by simp [without]
    rw [hall]
    exact h.kept.store
  · refine ⟨isOld q t, fun {used s log} h => ?_⟩
    rw [Step.run_sweep hb, hm]
    exact hstore h (h.kept.store.purge q t).2

end Parted

end Tidings
