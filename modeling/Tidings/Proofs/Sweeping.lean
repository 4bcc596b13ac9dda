import Tidings.Backend.InMemory
import Tidings.Expiry
import Tidings.Proofs.Representation
/-!
Sweeping out. A sweep takes out exactly what was stored before the cutoff of its mode, or nothing if a
cutoff is no point in time; and of two sweeps the later one alone would have done.
-/
namespace Tidings

namespace Instant

/-- A point in time so many seconds before another. In a leap second lies only what is no seconds before. -/
structure IsBefore (t now : Instant) (seconds : Nat) : Prop where
  count : t.toNanos + seconds * billion = now.toNanos
  regular : t = now ∨ 0 < seconds ∧ t.nanos < billion

theorem minusSeconds?_eq_some_iff {t now : Instant} {seconds : Nat} :
    now.minusSeconds? seconds = some t ↔ t.IsBefore now seconds := by
  have ht := t.nanos_lt
  have hnow := now.nanos_lt
  unfold minusSeconds?
  split
  · next h0 =>
    subst h0
    constructor
    · intro h
      cases h
      exact ⟨by simp, .inl rfl⟩
    · rintro ⟨_, rfl | ⟨hpos, _⟩⟩
      · rfl
      · exact absurd hpos (Nat.lt_irrefl 0)
  · next h0 =>
    have hne : t.toNanos + seconds * billion = now.toNanos → t ≠ now := by
      rintro hcount rfl
      unfold billion at hcount
      omega
    split
    · next hreg =>
      rw [ofParts?_eq_some_iff]
      constructor
      · rintro ⟨hs, hn⟩
        refine ⟨?_, .inr ⟨by omega, by omega⟩⟩
        unfold toNanos billion
        omega
      · rintro ⟨hcount, heq | ⟨_, hlt⟩⟩
        · exact absurd heq (hne hcount)
        · unfold toNanos billion at *
          omega
    · next hleap =>
      rw [ofParts?_eq_some_iff]
      constructor
      · rintro ⟨hs, hn⟩
        unfold billion at *
        refine ⟨?_, .inr ⟨by omega, by unfold billion; omega⟩⟩
        unfold toNanos billion
        omega
      · rintro ⟨hcount, heq | ⟨_, hlt⟩⟩
        · exact absurd heq (hne hcount)
        · unfold toNanos billion at *
          omega

/-- There is one unless it would be before all points in time. -/
theorem exists_isBefore_iff {now : Instant} {seconds : Nat} :
    (∃ t : Instant, t.IsBefore now seconds) ↔ (earliestSecond + seconds) * billion ≤ now.toNanos := by
  constructor
  · rintro ⟨t, h, _⟩
    have hrange := t.in_range
    unfold toNanos billion at *
    omega
  · intro h
    have hrange := now.in_range
    have hlt := now.nanos_lt
    by_cases h0 : seconds = 0
    · exact ⟨now, by simp [h0], .inl rfl⟩
    · by_cases hreg : now.nanos < billion
      · refine ⟨⟨now.seconds - seconds, now.nanos, ?_, hlt, fun hle => absurd hreg (by omega)⟩,
          ?_, .inr ⟨by omega, hreg⟩⟩
        · unfold toNanos billion at *
          omega
        · simp only [toNanos, billion]
          omega
      · -- a leap second is left by going back at least one second
        refine ⟨⟨now.seconds + 1 - seconds, now.nanos - billion, ?_, by omega, fun hle => ?_⟩,
          ?_, .inr ⟨by omega, by show now.nanos - billion < billion; omega⟩⟩
        · unfold toNanos billion at *
          omega
        · omega
        · simp only [toNanos, billion] at hreg ⊢
          omega

/-- Outside of leap seconds the order of time is that of the nanoseconds. -/
theorem toNanos_le_of_le {t₁ t₂ : Instant} (hle : t₁ ≤ t₂) (hreg : t₁.nanos < billion) :
    t₁.toNanos ≤ t₂.toNanos := by
  have horder : t₁.order ≤ t₂.order := hle
  have hlt := t₂.nanos_lt
  unfold order at horder
  unfold toNanos billion at *
  omega

/-- So many seconds before a later point in time is later. Of a point in a leap second, which counts past
the end of its minute, it is asked that it is no later by that count either. -/
theorem IsBefore.mono {q₁ q₂ t₁ t₂ : Instant} {seconds : Nat} (h₁ : q₁.IsBefore t₁ seconds)
    (h₂ : q₂.IsBefore t₂ seconds) (hle : t₁ ≤ t₂) (hcount : t₁.toNanos ≤ t₂.toNanos) : q₁ ≤ q₂ := by
  rcases h₁.regular with rfl | ⟨hpos, hreg₁⟩
  · rcases h₂.regular with rfl | ⟨hpos, _⟩
    · exact hle
    · have h0 := h₁.count
      unfold billion at h0
      omega
  · rcases h₂.regular with rfl | ⟨_, hreg₂⟩
    · have h0 := h₂.count
      unfold billion at h0
      omega
    · have hq : q₁.toNanos ≤ q₂.toNanos := by
        have hc₁ := h₁.count
        have hc₂ := h₂.count
        omega
      show q₁.order ≤ q₂.order
      unfold toNanos order billion at *
      omega

end Instant

section Cutoff
variable {now t : Instant} {ttlSecs : Nat} {name : String}

theorem cutoff_eq_ok_iff : cutoff now ttlSecs name = .ok t ↔ t.IsBefore now ttlSecs := by
  rw [← Instant.minusSeconds?_eq_some_iff]
  unfold cutoff
  by_cases hle : ttlSecs ≤ greatestTtlSecs
  · rw [if_pos hle]
    cases now.minusSeconds? ttlSecs <;> simp
  · -- what cannot be reckoned with is longer than all time
    rw [if_neg hle]
    refine ⟨fun h => by simp at h, fun h => ?_⟩
    have hcount := (Instant.minusSeconds?_eq_some_iff.1 h).count
    have ht := t.in_range
    have hnow := now.in_range
    have hnanos := now.nanos_lt
    unfold Instant.toNanos billion earliestSecond latestSecond greatestTtlSecs at *
    omega

theorem exists_cutoff_eq_error (name : String) (h : ¬ ∃ t : Instant, t.IsBefore now ttlSecs) :
    ∃ fault, cutoff now ttlSecs name = .error fault ∧ fault.kind = .config := by
  unfold cutoff
  split
  · next t heq =>
    have ht : cutoff now ttlSecs name = .ok t := by rw [cutoff, heq]
    exact absurd ⟨t, cutoff_eq_ok_iff.1 ht⟩ h
  · exact ⟨_, rfl, rfl⟩

end Cutoff

/-- Whether both times to live lead back from a point in time to another one. -/
def Settings.HasCutoffs (settings : Settings) (now : Instant) : Prop :=
  (∃ q : Instant, q.IsBefore now settings.queuedTtlSecs) ∧
    ∃ t : Instant, t.IsBefore now settings.timeseriesTtlSecs

section Sweep
variable {settings : Settings} {now q t : Instant}

theorem sweep_of_isBefore (hq : q.IsBefore now settings.queuedTtlSecs)
    (ht : t.IsBefore now settings.timeseriesTtlSecs) (m : Memory) :
    Backend.inMemory.sweep settings now m = (.ok (m.purge q t).1, (m.purge q t).2) := by
  unfold Backend.sweep
  rw [cutoff_eq_ok_iff.2 hq, cutoff_eq_ok_iff.2 ht]
  rfl

/-- Without a cutoff nothing is taken out, also not of the mode that has one. -/
theorem sweep_of_not_hasCutoffs (h : ¬ settings.HasCutoffs now) (m : Memory) :
    ∃ fault, Backend.inMemory.sweep settings now m = (.error fault, m) ∧ fault.kind = .config := by
  unfold Backend.sweep
  by_cases hq : ∃ q : Instant, q.IsBefore now settings.queuedTtlSecs
  · obtain ⟨fault, hfault, hkind⟩ :=
      exists_cutoff_eq_error "timeseries" fun ht => h ⟨hq, ht⟩
    obtain ⟨q, hq⟩ := hq
    rw [cutoff_eq_ok_iff.2 hq, hfault]
    exact ⟨fault, rfl, hkind⟩
  · obtain ⟨fault, hfault, hkind⟩ := exists_cutoff_eq_error "queued" hq
    rw [hfault]
    exact ⟨fault, rfl, hkind⟩

theorem Settings.HasCutoffs.mono {t₁ t₂ : Instant} (h : settings.HasCutoffs t₁)
    (hcount : t₁.toNanos ≤ t₂.toNanos) : settings.HasCutoffs t₂ := by
  have hearlier (seconds : Nat) (hs : ∃ t : Instant, t.IsBefore t₁ seconds) :
      ∃ t : Instant, t.IsBefore t₂ seconds :=
    Instant.exists_isBefore_iff.2 ((Instant.exists_isBefore_iff.1 hs).trans hcount)
  exact ⟨hearlier _ h.1, hearlier _ h.2⟩

end Sweep

theorem Log.isOld_mono {q₁ q₂ t₁ t₂ : Instant} (hq : q₁ ≤ q₂) (ht : t₁ ≤ t₂) {s : Stored}
    (h : isOld q₁ t₁ s) : isOld q₂ t₂ s := by
  have hlater {c c' : Instant} (hc : c ≤ c') (hs : s.storedAt < c) : s.storedAt < c' :=
    Int.lt_of_lt_of_le hs hc
  simp only [isOld, Bool.or_eq_true, Bool.and_eq_true, decide_eq_true_eq] at h ⊢
  rcases h with ⟨hmode, hs⟩ | ⟨hmode, hs⟩
  · exact .inl ⟨hmode, hlater hq hs⟩
  · exact .inr ⟨hmode, hlater ht hs⟩

/-- What two cutoffs take out one after the other is what the later ones take out. -/
theorem Log.without_isOld {q₁ q₂ t₁ t₂ : Instant} (hq : q₁ ≤ q₂) (ht : t₁ ≤ t₂) (log : Log) :
    without (isOld q₂ t₂) (without (isOld q₁ t₁) log) = without (isOld q₂ t₂) log := by
  unfold without
  rw [List.filter_filter]
  refine List.filter_congr fun s _ => ?_
  by_cases h : isOld q₁ t₁ s
  · simp [isOld_mono hq ht h]
  · simp [h]

theorem Log.purge_count (q t : Instant) (log : Log) :
    (log.purge q t).1 + (log.purge q t).2.length = log.length :=
  (List.length_eq_length_filter_add (isOld q t)).symm

namespace Memory

/-- What is left when the rows of some kind have been taken out: the others stand under their addresses in
their order, are found by their identifiers, and hold their groups. -/
structure LeftBy (gone : Stored → Bool) (m m' : Memory) : Prop where
  entries : ∀ a, m'.entries a = (m.entries a).filter fun s => !gone s
  found : ∀ s ∈ m.rows, m'.get s.notification.id = if gone s then none else some s.notification
  holder : ∀ a group, ∀ s ∈ m'.entries a, s.notification.group = some group →
    m'.groupHolder a group none = some s.notification.id
  size : m'.size + (m.rows.filter gone).length = m.size

structure SameRows (m m' : Memory) : Prop where
  entries : ∀ a, m'.entries a = m.entries a
  index : ∀ id, m'.index.get? id = m.index.get? id

namespace Represents
variable {m m' : Memory} {log : Log}

theorem sameRows (h : m.Represents log) (h' : m'.Represents log) : SameRows m m' where
  entries a := by rw [h.entries_eq, h'.entries_eq]
  index id := by rw [h.index_eq, h'.index_eq]

theorem leftBy {gone : Stored → Bool} (h : m.Represents log)
    (h' : m'.Represents (Log.without gone log)) : LeftBy gone m m' where
  entries a := by
    rw [h.entries_eq, h'.entries_eq, Log.without, List.filter_filter, List.filter_filter]
    exact List.filter_congr fun s _ => Bool.and_comm _ _
  found s hs := by
    have hlog : s ∈ log := h.values_perm.mem_iff.1 hs
    rw [h'.get_eq, Log.get]
    by_cases hgone : gone s
    · have hnone : (Log.without gone log).find? (Log.hasId s.notification.id) = none := by
        rw [List.find?_eq_none]
        intro x hx hid
        obtain ⟨hxl, hkept⟩ := Log.mem_without.1 hx
        rw [h.sound.eq_of_id hxl hlog (by simpa [Log.hasId] using hid), hgone] at hkept
        cases hkept
      rw [hnone, if_pos hgone, Option.map_none]
    · have hkept : s ∈ Log.without gone log := Log.mem_without.2 ⟨hlog, by simpa using hgone⟩
      rw [(h'.sound.find?_hasId s _).2 ⟨hkept, rfl⟩, if_neg hgone, Option.map_some]
  holder a group s hs hgroup := by
    rw [h'.entries_eq] at hs
    obtain ⟨hlog, hat⟩ := List.mem_filter.1 hs
    have hholds : Log.holds a group s := by simp [Log.holds, hat, hgroup]
    rw [h'.groupHolder_eq]
    simp only [Option.all_none, Bool.and_true]
    rw [(h'.sound.find?_holds a group s).2 ⟨hlog, hholds⟩, Option.map_some]
  size := by
    have hrows : (m.rows.filter gone).length = (log.filter gone).length :=
      (h.values_perm.filter gone).length_eq
    rw [h.size_eq, h'.size_eq, hrows, Log.without, List.length_eq_length_filter_add gone (l := log),
      Nat.add_comm]

end Represents

end Memory

/-- How many rows went; none in a sweep that failed. -/
def removed (result : Except Fault Nat) : Nat := result.toOption.getD 0

namespace Memory.Represents
variable {m : Memory} {log : Log} (h : m.Represents log) {settings : Settings}
include h

/-- A sweep whose cutoffs are points in time. -/
theorem sweep_of_hasCutoffs {now q t : Instant} (hq : q.IsBefore now settings.queuedTtlSecs)
    (ht : t.IsBefore now settings.timeseriesTtlSecs) :
    let swept := Backend.inMemory.sweep settings now m
    swept.1 = .ok (m.rows.filter (Log.isOld q t)).length ∧ m.LeftBy (Log.isOld q t) swept.2 := by
  intro swept
  have hswept : swept = (.ok (m.purge q t).1, (m.purge q t).2) := sweep_of_isBefore hq ht m
  obtain ⟨hcount, hleft⟩ := h.purge q t
  have hrows : (log.filter (Log.isOld q t)).length = (m.rows.filter (Log.isOld q t)).length :=
    ((h.values_perm.filter (Log.isOld q t)).length_eq).symm
  rw [hswept]
  exact ⟨congrArg Except.ok (hcount.trans hrows), h.leftBy hleft⟩

/-- After one sweep another takes out what the first has left of what it would take out alone. -/
theorem sweep_sweep {t₁ t₂ : Instant} (hle : t₁ ≤ t₂) (hcount : t₁.toNanos ≤ t₂.toNanos) :
    let first := Backend.inMemory.sweep settings t₁ m
    let second := Backend.inMemory.sweep settings t₂ first.2
    let alone := Backend.inMemory.sweep settings t₂ m
    alone.2.SameRows second.2 ∧ removed first.1 + removed second.1 = removed alone.1 := by
  by_cases h₁ : settings.HasCutoffs t₁
  · obtain ⟨⟨q₂, hq₂⟩, c₂, hc₂⟩ := h₁.mono hcount
    obtain ⟨⟨q₁, hq₁⟩, c₁, hc₁⟩ := h₁
    simp only [sweep_of_isBefore hq₁ hc₁, sweep_of_isBefore hq₂ hc₂]
    obtain ⟨hn₁, hr₁⟩ := h.purge q₁ c₁
    obtain ⟨hn₂, hr₂⟩ := hr₁.purge q₂ c₂
    obtain ⟨hn, hr⟩ := h.purge q₂ c₂
    have hlog : ((log.purge q₁ c₁).2.purge q₂ c₂).2 = (log.purge q₂ c₂).2 :=
      Log.without_isOld (hq₁.mono hq₂ hle hcount) (hc₁.mono hc₂ hle hcount) log
    rw [hlog] at hr₂
    refine ⟨hr.sameRows hr₂, ?_⟩
    show (m.purge q₁ c₁).1 + ((m.purge q₁ c₁).2.purge q₂ c₂).1 = (m.purge q₂ c₂).1
    rw [hn₁, hn₂, hn]
    have hfirst := Log.purge_count q₁ c₁ log
    have hsecond := Log.purge_count q₂ c₂ (log.purge q₁ c₁).2
    have halone := Log.purge_count q₂ c₂ log
    rw [hlog] at hsecond
    omega
  · -- the first sweep fails and leaves everything to the second
    obtain ⟨fault, hfault, _⟩ := sweep_of_not_hasCutoffs h₁ m
    simp only [hfault]
    exact ⟨⟨fun _ => rfl, fun _ => rfl⟩, Nat.zero_add _⟩

end Memory.Represents

/-- A sweep fails with a configuration fault just when one of the times to live leads back to no point in
time, and then everything stays. Otherwise it takes out the rows stored before the cutoff of their mode, says
how many they were, and leaves the others as they are. After a sweep a later one leaves what it would have left
alone, and both together take out as many. A leap second counts past the end of its minute, so besides being
later the second sweep is asked to be later in nanoseconds: a clock shows no leap second, and for what it shows
that is the same. -/
theorem sweeps_are_exact_and_compose {m : Memory} (hm : m.Reachable) (settings : Settings) :
    (∀ now, let swept := Backend.inMemory.sweep settings now m
      ((∃ fault, swept.1 = .error fault) ↔ ¬ settings.HasCutoffs now) ∧
      (∀ fault, swept.1 = .error fault → fault.kind = .config ∧ swept.2 = m) ∧
      ∀ q t : Instant, q.IsBefore now settings.queuedTtlSecs → t.IsBefore now settings.timeseriesTtlSecs →
        swept.1 = .ok (m.rows.filter (Log.isOld q t)).length ∧ m.LeftBy (Log.isOld q t) swept.2) ∧
    ∀ t₁ t₂ : Instant, t₁ ≤ t₂ → t₁.toNanos ≤ t₂.toNanos →
      let first := Backend.inMemory.sweep settings t₁ m
      let second := Backend.inMemory.sweep settings t₂ first.2
      let alone := Backend.inMemory.sweep settings t₂ m
      alone.2.SameRows second.2 ∧ removed first.1 + removed second.1 = removed alone.1 := by
  obtain ⟨log, h⟩ := hm.represents
  refine ⟨fun now => ?_, fun t₁ t₂ hle hcount => h.sweep_sweep hle hcount⟩
  by_cases hcut : settings.HasCutoffs now
  · refine ⟨⟨?_, fun hnot => absurd hcut hnot⟩, ?_, fun q t hq ht => h.sweep_of_hasCutoffs hq ht⟩
    all_goals
      obtain ⟨⟨q, hq⟩, t, ht⟩ := hcut
      rw [(h.sweep_of_hasCutoffs hq ht).1]
    · exact fun ⟨_, herror⟩ => (nomatch herror)
    · exact fun _ herror => (nomatch herror)
  · obtain ⟨fault, hfault, hkind⟩ := sweep_of_not_hasCutoffs hcut m
    rw [hfault]
    refine ⟨⟨fun _ => hcut, fun _ => ⟨fault, rfl⟩⟩, ?_, fun q t hq ht => absurd ⟨⟨q, hq⟩, t, ht⟩ hcut⟩
    rintro _ ⟨⟩
    exact ⟨hkind, rfl⟩

/-- Three rows, of which the first sweep takes out one and the second sweep another. -/
theorem sweeps_are_exact_and_compose_of_two_modes :
    let a : Address := ⟨.user, "u"⟩
    let later : Instant := ⟨5, 0, by decide, by decide, by decide⟩
    let t₁ : Instant := ⟨8, 0, by decide, by decide, by decide⟩
    let t₂ : Instant := ⟨11, 0, by decide, by decide, by decide⟩
    let settings : Settings := { queuedTtlSecs := 5, timeseriesTtlSecs := 20 }
    let m := (((Memory.empty.store .epoch (.create ⟨1⟩ later (some a) "note" .queued (some "g") [])).2.store
      .epoch (.create ⟨2⟩ .epoch (some a) "note" .timeseries none [])).2.store
      later (.create ⟨3⟩ .epoch (some a) "note" .queued none [])).2
    let first := Backend.inMemory.sweep settings t₁ m
    let second := Backend.inMemory.sweep settings t₂ first.2
    m.Reachable ∧ t₁ ≤ t₂ ∧ t₁.toNanos ≤ t₂.toNanos ∧ settings.HasCutoffs t₁ ∧
      first.1 = .ok 1 ∧ second.1 = .ok 1 ∧ removed (Backend.inMemory.sweep settings t₂ m).1 = 2 := by
  intro a later t₁ t₂ settings m first second
  have hm : m.Reachable := .store (.store (.store .empty _ _ rfl) _ _ (by decide)) _ _ (by decide)
  have hle : t₁ ≤ t₂ := by decide
  have hcount : t₁.toNanos ≤ t₂.toNanos := Instant.toNanos_le_of_le hle (by decide)
  obtain ⟨hexact, hcompose⟩ := sweeps_are_exact_and_compose hm settings
  obtain ⟨_, htotal⟩ := hcompose t₁ t₂ hle hcount
  have hcut : settings.HasCutoffs t₁ :=
    ⟨Instant.exists_isBefore_iff.2 (by decide), Instant.exists_isBefore_iff.2 (by decide)⟩
  have hfirst : first.1 = .ok 1 := by decide
  have hsecond : second.1 = .ok 1 := by decide
  refine ⟨hm, hle, hcount, hcut, hfirst, hsecond, htotal.symm.trans ?_⟩
  show removed first.1 + removed second.1 = 2
  rw [hfirst, hsecond]
  rfl

/-- A sweep in a leap second goes further than one at the beginning of the next minute. -/
theorem leap_second_sweep_goes_further :
    let stored : Instant := ⟨50, 500000000, by decide, by decide, by decide⟩
    let t₁ : Instant := ⟨59, 1900000000, by decide, by decide, by decide⟩
    let t₂ : Instant := ⟨60, 0, by decide, by decide, by decide⟩
    let settings : Settings := { queuedTtlSecs := 10 }
    let m := (Memory.empty.store stored
      (.create ⟨1⟩ stored (some ⟨.user, "u"⟩) "note" .queued none [])).2
    let first := Backend.inMemory.sweep settings t₁ m
    let second := Backend.inMemory.sweep settings t₂ first.2
    let alone := Backend.inMemory.sweep settings t₂ m
    m.Reachable ∧ t₁ ≤ t₂ ∧ ¬ t₁.toNanos ≤ t₂.toNanos ∧ first.1 = .ok 1 ∧ second.1 = .ok 0 ∧
      alone.1 = .ok 0 ∧ ¬ alone.2.SameRows second.2 := by
  intro stored t₁ t₂ settings m first second alone
  have hm : m.Reachable := .store .empty _ _ rfl
  have hgone : (second.2.entries ⟨.user, "u"⟩).length = 0 := by decide
  have hkept : (alone.2.entries ⟨.user, "u"⟩).length = 1 := by decide
  refine ⟨hm, by decide, by decide, by decide, by decide, by decide, fun hsame => ?_⟩
  rw [hsame.entries, hkept] at hgone
  cases hgone

end Tidings
