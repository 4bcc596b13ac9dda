import Tidings.Expiry
import Tidings.Proofs.Deeds
import Tidings.Proofs.Registration
/-!
Runs of a service over the backend without a database: calls one after the other, sweeps, and connections
that come, read and go.
-/
namespace Tidings

inductive Step where
  | call (now : Instant) (c : Call)
  | sweep (now : Instant)
  | connect (now : Instant) (as : List Address)
  | unregister (c : ConnectionId)
  | drop (c : ConnectionId)
  | closeAll
  | receive (c : ConnectionId)

namespace Step

def withRegistry (s : Service.State Memory) (registry : Registry) : Service.State Memory :=
  { s with registry }

def run (service : Service Memory) : Step → Service.State Memory → Service.State Memory
  | .call now c, s => c.run service now s
  | .sweep now, s => (Service.access (service.backend.sweep service.settings now) s).2
  | .connect now as, s => withRegistry s (s.registry.register now as).2
  | .unregister c, s => withRegistry s (s.registry.unregister c)
  | .drop c, s => withRegistry s (s.registry.drop c)
  | .closeAll, s => withRegistry s s.registry.closeAll.2
  | .receive c, s => withRegistry s (s.registry.receive c).2

/-- The identifier that is given to a new notification. -/
def fresh? : Step → Option Id
  | .call _ c => c.fresh?
  | _ => none

def runAll (service : Service Memory) (xs : List Step) (s : Service.State Memory) :
    Service.State Memory :=
  xs.foldl (fun s x => x.run service s) s

def freshIds (xs : List Step) : List Id := xs.filterMap fresh?

theorem freshIds_cons (x : Step) (xs : List Step) :
    freshIds (x :: xs) = x.fresh?.toList ++ freshIds xs := by
  cases hx : x.fresh? <;> simp [freshIds, hx]

end Step

/-- Identifiers that are given once each, and were not given before. -/
structure Fresh (ids used : List Id) : Prop where
  nodup : ids.Nodup
  unused : ∀ id ∈ ids, id ∉ used

theorem Fresh.cons {first : Option Id} {ids used : List Id} (h : Fresh (first.toList ++ ids) used) :
    (∀ id, first = some id → id ∉ used) ∧ Fresh ids (first.toList ++ used) := by
  obtain ⟨_, hids, hdis⟩ := List.nodup_append.1 h.nodup
  refine ⟨fun id hid => h.unused id (List.mem_append_left _ (by simp [hid])), hids, ?_⟩
  intro id hid hm
  rcases List.mem_append.1 hm with hm | hm
  · exact hdis id hm id hid rfl
  · exact h.unused id (List.mem_append_right _ hid) hm

/-- What every state of a run keeps: the memory keeps a log, in which only identifiers of the run occur,
and the register is in step. -/
structure Kept (used : List Id) (s : Service.State Memory) (log : Log) : Prop where
  store : s.store.Represents log
  registry : s.registry.Sound
  used : log.ids ⊆ used

namespace Deed

/-- Where an entry of the log comes from. -/
theorem of_mem_logAfter {now : Instant} {log : Log} {ds : List Deed} {s : Stored}
    (h : s ∈ logAfter now log ds) : s ∈ log ∨ ∃ n, .post n ∈ ds ∧ n.isStored ∧ s = ⟨n, now⟩ := by
  induction ds generalizing log with
  | nil => exact .inl h
  | cons d ds ih =>
    rcases ih h with hs | ⟨n, hn, hst, rfl⟩
    · cases d with
      | post n =>
        by_cases hst : n.isStored
        · rw [onLog, if_pos hst] at hs
          rcases List.mem_append.1 hs with hs | hs
          · exact .inl hs
          · exact .inr ⟨n, List.mem_cons_self, hst, List.mem_singleton.1 hs⟩
        · rw [onLog, if_neg hst] at hs
          exact .inl hs
      | withdraw id a => exact .inl (Log.mem_without.1 hs).1
    · exact .inr ⟨n, List.mem_cons_of_mem d hn, hst, rfl⟩

theorem ids_logAfter (now : Instant) (log : Log) (ds : List Deed) :
    ∀ id ∈ (logAfter now log ds).ids, id ∈ log.ids ∨ ∃ n, .post n ∈ ds ∧ n.id = id := by
  intro id hid
  obtain ⟨s, hs, rfl⟩ := List.mem_map.1 hid
  rcases of_mem_logAfter hs with hs | ⟨n, hn, _, rfl⟩
  · exact .inl (List.mem_map_of_mem hs)
  · exact .inr ⟨n, hn, rfl⟩

/-- What is not withdrawn stays. -/
theorem mem_logAfter {now : Instant} {log : Log} {ds : List Deed} {s : Stored} (hs : s ∈ log)
    (h : ∀ b, .withdraw s.notification.id b ∉ ds) : s ∈ logAfter now log ds := by
  induction ds generalizing log with
  | nil => exact hs
  | cons d ds ih =>
    refine ih ?_ fun b hb => h b (List.mem_cons_of_mem d hb)
    cases d with
    | post n =>
      by_cases hst : n.isStored
      · rw [onLog, if_pos hst]
        exact List.mem_append_left _ hs
      · rw [onLog, if_neg hst]
        exact hs
    | withdraw id a =>
      refine Log.mem_without.2 ⟨hs, ?_⟩
      have hne : ¬ s.notification.id = id := fun heq => h a (by rw [heq]; exact List.mem_cons_self)
      simp [Log.hasId, hne]

end Deed

theorem post_mem_sendDeeds {service : Service Memory} {log : Log} {n n' : Notification}
    (h : Deed.post n' ∈ service.sendDeeds log n) : n' = n := by
  unfold Service.sendDeeds at h
  split at h
  · split at h
    · rcases List.mem_append.1 h with h | h
      · unfold replacement at h
        split at h <;> simp at h
      · simpa using h
    · simpa using h
  · cases h

/-- A call posts nothing but the notification that it makes. -/
theorem Call.post_mem_deeds {service : Service Memory} {now : Instant} {log : Log} {recent : Recent}
    {c : Call} {n : Notification} (h : Deed.post n ∈ c.deeds service now log recent) :
    c.fresh? = some n.id := by
  cases c with
  | notify fresh target kind mode group payload =>
    simp only [deeds] at h
    split at h
    · cases h
    · rw [post_mem_sendDeeds h]
      rfl
  | broadcast fresh kind group payload =>
    rw [post_mem_sendDeeds h]
    rfl
  | dismiss id =>
    simp only [deeds, dismissDeeds] at h
    split at h
    · cases h
    · split at h
      · split at h <;> simp at h
      · cases h
  | dismissGroup a group => simp [deeds, dismissGroupDeeds] at h

/-- A sweep purges the memory, or leaves it alone when a cutoff is out of range. -/
theorem sweep_inMemory (settings : Settings) (now : Instant) :
    (∀ m, (Backend.inMemory.sweep settings now m).2 = m) ∨
      ∃ q t, ∀ m, (Backend.inMemory.sweep settings now m).2 = (m.purge q t).2 := by
  unfold Backend.sweep
  cases cutoff now settings.queuedTtlSecs "queued" with
  | error fault => exact .inl fun _ => rfl
  | ok q =>
    cases cutoff now settings.timeseriesTtlSecs "timeseries" with
    | error fault => exact .inl fun _ => rfl
    | ok t => exact .inr ⟨q, t, fun _ => rfl⟩

theorem Step.run_sweep {service : Service Memory} (hb : service.backend = Backend.inMemory)
    (now : Instant) (s : Service.State Memory) : (Step.sweep now).run service s =
      s.withStore (Backend.inMemory.sweep service.settings now s.store).2 := by
  rw [← hb]
  rfl

namespace Kept
variable {service : Service Memory} (hb : service.backend = Backend.inMemory) {used : List Id}
  {s : Service.State Memory} {log : Log} (h : Kept used s log)

theorem initial (settings : Settings) : Kept [] (Service.initial settings Memory.empty) [] :=
  ⟨Memory.empty_represents, Registry.sound_ofCapacity _, List.Subset.refl _⟩

include h

theorem mono {used' : List Id} (hu : used ⊆ used') : Kept used' s log :=
  ⟨h.store, h.registry, fun _ hid => hu (h.used hid)⟩

theorem withRegistry {r : Registry} (hr : r.Sound) : Kept used (Step.withRegistry s r) log :=
  ⟨h.store, hr, h.used⟩

include hb

theorem call (now : Instant) (c : Call) (hfresh : ∀ id, c.fresh? = some id → id ∉ used) :
    Kept (c.fresh?.toList ++ used) (c.run service now s)
      (Deed.logAfter now log (c.deeds service now log s.recent)) := by
  have hd : Done now log s _ _ := c.run_done hb h.store fun id hid hm => hfresh id hid (h.used hm)
  refine ⟨hd.store, ?_, fun id hid => ?_⟩
  · rw [hd.registry]
    exact (Registry.deliverAll_spec now _ h.registry).1
  · rcases Deed.ids_logAfter _ _ _ id hid with hid | ⟨n, hn, rfl⟩
    · exact List.mem_append_right _ (h.used hid)
    · exact List.mem_append_left _ (by rw [Call.post_mem_deeds hn]; exact List.mem_cons_self)

/-- A sweep drops entries and does nothing else. -/
theorem sweep (now : Instant) : ∃ log' : Log, log'.Sublist log ∧
    Kept used ((Step.sweep now).run service s) log' ∧
      ((Step.sweep now).run service s).registry = s.registry := by
  rw [Step.run_sweep hb]
  rcases sweep_inMemory service.settings now with hm | ⟨q, t, hm⟩
  · rw [hm]
    exact ⟨log, List.Sublist.refl _, ⟨h.store, h.registry, h.used⟩, rfl⟩
  · rw [hm]
    refine ⟨(log.purge q t).2, Log.without_sublist _ _, ⟨(h.store.purge q t).2, h.registry, ?_⟩, rfl⟩
    exact fun id hid => h.used (Log.ids_without_subset _ _ hid)

/-- Each step keeps the invariant. -/
theorem step (x : Step) (hfresh : ∀ id, x.fresh? = some id → id ∉ used) :
    ∃ log', Kept (x.fresh?.toList ++ used) (x.run service s) log' := by
  cases x with
  | call now c => exact ⟨_, h.call hb now c hfresh⟩
  | sweep now =>
    obtain ⟨log', _, hk, _⟩ := h.sweep hb now
    exact ⟨log', hk⟩
  | connect now as => exact ⟨log, h.withRegistry (h.registry.register now as)⟩
  | unregister c => exact ⟨log, h.withRegistry (h.registry.unregister c)⟩
  | drop c => exact ⟨log, h.withRegistry (h.registry.drop c)⟩
  | closeAll => exact ⟨log, h.withRegistry h.registry.closeAll⟩
  | receive c => exact ⟨log, h.withRegistry (h.registry.receive c)⟩

/-- And so does a run in which no identifier is given twice. -/
theorem runAll (xs : List Step) (hf : Fresh (Step.freshIds xs) used) :
    ∃ log', Kept (Step.freshIds xs ++ used) (Step.runAll service xs s) log' := by
  induction xs generalizing s log used with
  | nil => exact ⟨log, h⟩
  | cons x xs ih =>
    rw [Step.freshIds_cons] at hf ⊢
    obtain ⟨hx, hxs⟩ := hf.cons
    obtain ⟨log₁, h₁⟩ := h.step hb x hx
    obtain ⟨log₂, h₂⟩ := ih h₁ hxs
    refine ⟨log₂, h₂.mono fun id hid => ?_⟩
    simp only [List.mem_append] at hid ⊢
    tauto

omit h in
/-- Every state that a run reaches from the start. -/
theorem reached (xs : List Step) (hn : (Step.freshIds xs).Nodup) :
    ∃ log, Kept (Step.freshIds xs)
      (Step.runAll service xs (Service.initial service.settings Memory.empty)) log := by
  obtain ⟨log, h⟩ := (initial service.settings).runAll hb xs ⟨hn, by simp⟩
  exact ⟨log, by simpa using h⟩

end Kept

end Tidings
