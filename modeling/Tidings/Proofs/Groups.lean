import Tidings.Proofs.Run
/-!
Groups. In one target a group has one holder, and whoever listens there hears of the holder's withdrawal
right before the notice of what takes its place.
-/
namespace Tidings
open Log

/-- The stored notifications of a group at an address, wherever they are kept. -/
def Memory.holders (m : Memory) (a : Address) (group : String) : List Stored :=
  m.byAddress.values.flatten.filter (holds a group)

/-- A call that sends, but stores nothing at an address. -/
def Call.passesBy (a : Address) : Call → Prop
  | .notify _ target _ mode _ _ => mode = .ephemeral ∨ target ≠ a
  | .broadcast .. => True
  | .dismiss _ | .dismissGroup _ _ => False

theorem Memory.Represents.holders_eq {m : Memory} {log : Log} (h : m.Represents log) (a : Address)
    (group : String) : m.holders a group = (log.find? (holds a group)).toList := by
  have hp : (m.holders a group).Perm (log.filter (holds a group)) := h.values_perm.filter _
  have hlen := h.sound.single a group
  rw [← List.head?_filter]
  cases hl : log.filter (holds a group) with
  | nil =>
    rw [hl] at hp
    rw [hp.eq_nil]
    rfl
  | cons s rest =>
    have hrest : rest = [] := by
      rw [hl, List.length_cons] at hlen
      exact List.eq_nil_of_length_eq_zero (by omega)
    rw [hl, hrest] at hp
    rw [hp.eq_singleton]
    rfl

theorem Memory.Represents.length_holders_le {m : Memory} {log : Log} (h : m.Represents log)
    (a : Address) (group : String) : (m.holders a group).length ≤ 1 := by
  rw [h.holders_eq]
  cases log.find? (holds a group) <;> simp

/-- Only what holds its group at its target gives way to a notification. -/
theorem mem_replacement {log : Log} {n : Notification} {id : Id} {b : Address}
    (h : Deed.withdraw id b ∈ replacement log n) : n.target = some b ∧ ∃ s ∈ log,
      s.notification.id = id ∧ s.notification.target = some b ∧
        ∃ group, n.group = some group ∧ s.notification.group = some group := by
  cases ha : n.target with
  | none => simp [replacement, ha] at h
  | some a =>
    rw [replacement_eq ha] at h
    obtain ⟨s, hs, heq⟩ := List.mem_map.1 h
    cases heq
    have hf := Option.mem_toList.1 hs
    have hyields := List.find?_some hf
    cases hg : n.group with
    | none => simp [yields, hg] at hyields
    | some group =>
      simp only [yields, ha, hg, holds, isAt, Bool.and_eq_true, decide_eq_true_eq] at hyields
      exact ⟨rfl, s, List.mem_of_find?_eq_some hf, rfl, hyields.1, group, rfl, hyields.2⟩

/-- Nothing gives way to what is not stored. -/
theorem Service.withdraw_mem_sendDeeds {service : Service Memory} {log : Log} {n : Notification} {id : Id}
    {b : Address} (h : Deed.withdraw id b ∈ service.sendDeeds log n) :
    n.isStored ∧ Deed.withdraw id b ∈ replacement log n := by
  unfold sendDeeds at h
  split at h
  · split at h
    · next hst =>
      rcases List.mem_append.1 h with h | h
      · exact ⟨hst, h⟩
      · simp at h
    · simp at h
  · cases h

/-- A call that passes an address by withdraws nothing there. -/
theorem Call.withdraw_of_passesBy {service : Service Memory} {now : Instant} {log : Log}
    {recent : Recent} {c : Call} {a b : Address} {id : Id} (hc : c.passesBy a)
    (h : Deed.withdraw id b ∈ c.deeds service now log recent) :
    b ≠ a ∧ ∃ s ∈ log, s.notification.id = id ∧ s.notification.target = some b := by
  cases c with
  | notify fresh target kind mode group payload =>
    simp only [deeds] at h
    split at h
    · cases h
    · obtain ⟨hst, hreplaced⟩ := Service.withdraw_mem_sendDeeds h
      obtain ⟨ht, s, hs, hid, hat, _⟩ := mem_replacement hreplaced
      obtain rfl : target = b := by simpa [Notification.create] using ht
      rcases hc with rfl | hne
      · simp [Notification.isStored, Notification.create, Mode.isPersisted] at hst
      · exact ⟨hne, s, hs, hid, hat⟩
  | broadcast fresh kind group payload =>
    obtain ⟨ht, _⟩ := mem_replacement (Service.withdraw_mem_sendDeeds h).2
    simp [Notification.create] at ht
  | dismiss id' => exact hc.elim
  | dismissGroup a' group => exact hc.elim

section Reached
variable {service : Service Memory} (hb : service.backend = Backend.inMemory) {now : Instant}
  {used : List Id} {log : Log} {s : Service.State Memory} (h : Kept used s log)
include hb h

/-- A notification that was sent passed the checks, and its sending did no more than it should. -/
theorem Service.notify_ok {fresh : Id} {a : Address} {kind : String} {mode : Mode}
    {group : Option String} {payload : Json.Members} {n : Notification} {s' : Service.State Memory}
    (hfresh : fresh ∉ used)
    (hr : service.notify now fresh a kind mode group payload s = (.ok (some n), s')) :
    n = .create fresh now (some a) kind mode group payload ∧ service.admits n ∧
      Done now log s (service.sendDeeds log n) s' := by
  unfold Service.notify at hr
  split at hr
  · cases hr
  · obtain ⟨hd, hn⟩ := dispatch_done hb h.store
      (n := .create fresh now a kind mode group payload) fun hm => hfresh (h.used hm)
    rw [hr] at hd hn
    obtain ⟨heq, hadmits⟩ := hn n rfl
    rw [heq]
    exact ⟨rfl, hadmits, hd⟩

omit hb in
theorem got_of_done {ds : List Deed} {s' : Service.State Memory} (hd : Done now log s ds s') :
    s.registry.Got s'.registry (Deed.events ds) := by
  rw [hd.registry]
  exact Registry.got_deliverAll now _ h.registry

/-- What a grouped notification does when it is sent. -/
theorem Service.notify_grouped {fresh : Id} {a : Address} {kind : String} {mode : Mode}
    {group : String} {payload : Json.Members} {n : Notification} {s' : Service.State Memory}
    (hfresh : fresh ∉ used) (hmode : mode.isPersisted)
    (hr : service.notify now fresh a kind mode (some group) payload s = (.ok (some n), s')) :
    s'.store.holders a group = [⟨n, now⟩] ∧ s.registry.Got s'.registry
      ((s.store.holders a group).map (fun old => .dismissed old.notification.id (some a)) ++
        [.notify n]) := by
  obtain ⟨rfl, hadmits, hd⟩ := Service.notify_ok hb h hfresh hr
  have hst : (Notification.create fresh now (some a) kind mode (some group) payload).isStored := by
    simp [Notification.isStored, Notification.create, hmode]
  have hyields : yields (.create fresh now (some a) kind mode (some group) payload) =
      holds a group := rfl
  rw [Service.sendDeeds, if_pos hadmits, if_pos hst, replacement_eq rfl, hyields] at hd
  constructor
  · rw [hd.store.holders_eq, Option.toList_eq_singleton_iff, hd.store.sound.find?_holds]
    refine ⟨?_, by simp [holds, isAt, Notification.create]⟩
    simp [Deed.logAfter, Deed.onLog, hst]
  · have hgot := got_of_done h hd
    rw [h.store.holders_eq]
    simpa [Deed.events, Deed.event, Function.comp_def] using hgot

/-- A call that passes an address by leaves its holders alone. -/
theorem Call.holder_of_passesBy {c : Call} {a : Address} {group : String} (hc : c.passesBy a)
    (hfresh : ∀ id, c.fresh? = some id → id ∉ used) {old : Stored}
    (hold : old ∈ s.store.holders a group) :
    old ∈ (c.run service now s).store.holders a group ∧
      ∃ es, s.registry.Got (c.run service now s).registry es ∧
        ∀ t, .dismissed old.notification.id t ∉ es := by
  have hd : Done now log s _ (c.run service now s) :=
    c.run_done hb h.store fun id hid hm => hfresh id hid (h.used hm)
  rw [h.store.holders_eq, Option.mem_toList, h.store.sound.find?_holds] at hold
  obtain ⟨hmem, hheld⟩ := hold
  have ha : old.notification.target = some a := by
    simpa [isAt] using (Bool.and_eq_true_iff.1 hheld).1
  have hother : ∀ b, Deed.withdraw old.notification.id b ∉ c.deeds service now log s.recent := by
    intro b hb'
    obtain ⟨hne, t, ht, hid, htb⟩ := Call.withdraw_of_passesBy hc hb'
    rw [h.store.sound.eq_of_id ht hmem hid, ha] at htb
    exact hne (Option.some.inj htb).symm
  constructor
  · rw [hd.store.holders_eq, Option.mem_toList, hd.store.sound.find?_holds]
    exact ⟨Deed.mem_logAfter hmem hother, hheld⟩
  · refine ⟨_, got_of_done h hd, fun t ht => ?_⟩
    obtain ⟨d, hdm, heq⟩ := List.mem_map.1 ht
    cases d with
    | post n => cases heq
    | withdraw id b =>
      cases heq
      exact hother b hdm

end Reached

/-- Over every run a group keeps one holder; a notification that takes its place is announced right after
the holder's withdrawal to everyone who listens there; and what is sent past a holder leaves it alone. -/
theorem one_holder_over_runs (id : Id) (settings : Settings) (hooks : Hooks) (xs : List Step)
    (hn : (Step.freshIds xs).Nodup) :
    let service := Service.overMemory id settings hooks
    let s := Step.runAll service xs (Service.initial settings Memory.empty)
    (∀ a group, (s.store.holders a group).length ≤ 1) ∧
    (∀ now fresh a kind mode group payload n s', fresh ∉ Step.freshIds xs → mode.isPersisted →
      service.notify now fresh a kind mode (some group) payload s = (.ok (some n), s') →
      s'.store.holders a group = [⟨n, now⟩] ∧
      ∀ c as, s.registry.addresses c = some as → ∃ q, s.registry.queues.get? c = some q ∧
        s'.registry.queues.get? c = some (
          if a ∈ as then
            match s.store.holders a group with
            | [] => q.push (.notify n)
            | old :: _ => (q.push (.dismissed old.notification.id (some a))).push (.notify n)
          else q)) ∧
    (∀ now (call : Call) a group, call.passesBy a →
      (∀ fresh, call.fresh? = some fresh → fresh ∉ Step.freshIds xs) →
      ∀ old ∈ s.store.holders a group,
        old ∈ (call.run service now s).store.holders a group ∧
        ∃ es, s.registry.Got (call.run service now s).registry es ∧
          ∀ t, .dismissed old.notification.id t ∉ es) := by
  intro service s
  obtain ⟨log, h⟩ : ∃ log, Kept (Step.freshIds xs) s log := Kept.reached rfl xs hn
  refine ⟨h.store.length_holders_le, ?_, fun now call a group hc hfresh old hold => ?_⟩
  · intro now fresh a kind mode group payload n s' hfresh hmode hr
    obtain ⟨hheld, hgot⟩ := Service.notify_grouped rfl h hfresh hmode hr
    obtain ⟨rfl, _⟩ := Service.notify_ok rfl h hfresh hr
    refine ⟨hheld, fun c as hc => ?_⟩
    obtain ⟨q, hq, hq'⟩ := hgot.queue h.registry hc
    refine ⟨q, hq, hq'.trans ?_⟩
    have hone := h.store.length_holders_le a group
    cases hs : s.store.holders a group with
    | nil => by_cases ha : a ∈ as <;> simp [Event.target, Notification.create, ha]
    | cons old rest =>
      rw [hs, List.length_cons] at hone
      have hrest : rest = [] := List.eq_nil_of_length_eq_zero (by omega)
      rw [hrest]
      by_cases ha : a ∈ as <;> simp [Event.target, Notification.create, ha]
  · exact Call.holder_of_passesBy rfl h hc hfresh hold

/-- A series takes the place of a queued holder, and someone listens. -/
theorem one_holder_over_runs_of_change_of_mode :
    let a : Address := ⟨.session, "s"⟩
    let xs : List Step := [.connect .epoch [a],
      .call .epoch (.notify ⟨1⟩ a "note" .queued (some "g") [])]
    let service := Service.overMemory ⟨0⟩ {} Hooks.none
    let s := Step.runAll service xs (Service.initial {} Memory.empty)
    let n := Notification.create ⟨2⟩ .epoch (some a) "note" .timeseries (some "g") []
    let r := service.notify .epoch ⟨2⟩ a "note" .timeseries (some "g") [] s
    (Step.freshIds xs).Nodup ∧ r.1 = .ok (some n) ∧ r.2.store.holders a "g" = [⟨n, .epoch⟩] ∧
      ∃ q : Queue Event, r.2.registry.queues.get? 0 =
        some ((q.push (.dismissed ⟨1⟩ (some a))).push (.notify n)) := by
  intro a xs service s n r
  have hn : (Step.freshIds xs).Nodup := by decide
  obtain ⟨_, hsent, _⟩ := one_holder_over_runs ⟨0⟩ {} Hooks.none xs hn
  obtain ⟨hheld, hqueues⟩ := hsent .epoch ⟨2⟩ a "note" .timeseries "g" [] n r.2 (by decide) rfl rfl
  obtain ⟨q, _, hq⟩ := hqueues 0 [a] rfl
  exact ⟨hn, rfl, hheld, q, hq⟩

end Tidings
