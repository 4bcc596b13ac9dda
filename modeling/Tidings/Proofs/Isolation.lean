import Mathlib.Data.List.Pairwise
import Tidings.Proofs.Routing
import Tidings.Proofs.Seclusion
/-!
Addresses do not leak into one another. Two runs that differ in calls for other addresses, and in how
connections are read that nobody watches, are the same to those who are at some addresses.
-/
namespace Tidings
open Log

/-- One run is another in which foreign steps may be left out, and in which connections that are not watched
may be read less or more. -/
inductive Edited (foreign : Step → Prop) (unwatched : ConnectionId → Prop) :
    List Step → List Step → Prop where
  | done : Edited foreign unwatched [] []
  | keep {xs ys : List Step} (x : Step) (h : Edited foreign unwatched xs ys) :
    Edited foreign unwatched (x :: xs) (x :: ys)
  | leaveOut {xs ys : List Step} {x : Step} (hx : foreign x) (h : Edited foreign unwatched xs ys) :
    Edited foreign unwatched (x :: xs) ys
  | unread {xs ys : List Step} {c : ConnectionId} (hc : unwatched c)
    (h : Edited foreign unwatched xs ys) : Edited foreign unwatched (.receive c :: xs) ys
  | reread {xs ys : List Step} {c : ConnectionId} (hc : unwatched c)
    (h : Edited foreign unwatched xs ys) : Edited foreign unwatched xs (.receive c :: ys)

namespace Registry

/-- Two registers with the same connections, of which the watched ones belong to some addresses only and
have the same queues. -/
structure Alike (K : Set Address) (W : Set ConnectionId) (r r' : Registry) : Prop where
  shape : SameShape r r'
  addresses : ∀ c, r'.addresses c = r.addresses c
  queues : ∀ c ∈ W, r'.queues.get? c = r.queues.get? c
  scopes : ∀ c ∈ W, ∀ as, r.addresses c = some as → ∀ a ∈ as, a ∈ K

namespace Alike
variable {K : Set Address} {W : Set ConnectionId} {r r' r'' : Registry} (h : Alike K W r r')

theorem refl (h : ∀ c ∈ W, ∀ as, r.addresses c = some as → ∀ a ∈ as, a ∈ K) : Alike K W r r :=
  ⟨⟨rfl, rfl⟩, fun _ => rfl, fun _ _ => rfl, h⟩

include h

theorem symm : Alike K W r' r :=
  ⟨h.shape.symm, fun c => (h.addresses c).symm, fun c hc => (h.queues c hc).symm,
    fun c hc as ha => h.scopes c hc as ((h.addresses c).symm.trans ha)⟩

theorem trans (h' : Alike K W r' r'') : Alike K W r r'' :=
  ⟨h.shape.trans h'.shape, fun c => (h'.addresses c).trans (h.addresses c),
    fun c hc => (h'.queues c hc).trans (h.queues c hc), h.scopes⟩

theorem hears (c : ConnectionId) (target : Option Address) : r'.hears c target = r.hears c target := by
  rw [Registry.hears, Registry.hears, h.addresses]

/-- An event for another address does not reach a watched connection. -/
theorem not_hears {c : ConnectionId} (hc : c ∈ W) {a : Address} (ha : a ∉ K) :
    r.hears c (some a) = false := by
  cases has : r.addresses c with
  | none => simp [Registry.hears, has]
  | some as =>
    have hnot : a ∉ as := fun hm => ha (h.scopes c hc as has a hm)
    simp [Registry.hears, has, hnot]

theorem deliverAll (hr : r.Sound) (hr' : r'.Sound) (now : Instant) (es : List Event) :
    Alike K W (r.deliverAll now es) (r'.deliverAll now es) := by
  obtain ⟨_, hroll, hq⟩ := deliverAll_spec now es hr
  obtain ⟨_, hroll', hq'⟩ := deliverAll_spec now es hr'
  have hshape := sameShape_deliverAll r now es
  have hshape' := sameShape_deliverAll r' now es
  refine ⟨hshape.symm.trans (h.shape.trans hshape'), fun c => ?_, fun c hc => ?_, fun c hc as ha => ?_⟩
  · rw [hroll'.addresses, h.addresses, hroll.addresses]
  · simp only [hq', h.queues c hc, h.hears, hq]
  · exact h.scopes c hc as ((hroll.addresses c).symm.trans ha)

/-- Deliveries to other addresses on one side only. -/
theorem deliverElsewhere (hr : r.Sound) (now : Instant) {es : List Event}
    (he : ∀ e ∈ es, ∃ a, a ∉ K ∧ e.target = some a) : Alike K W (r.deliverAll now es) r' := by
  obtain ⟨_, hroll, hq⟩ := deliverAll_spec now es hr
  have hshape := sameShape_deliverAll r now es
  have hnone {c : ConnectionId} (hc : c ∈ W) : es.filter (fun e => r.hears c e.target) = [] := by
    refine List.filter_eq_nil_iff.2 fun e hm => ?_
    obtain ⟨a, ha, hta⟩ := he e hm
    rw [hta, h.not_hears hc ha]
    exact Bool.false_ne_true
  have hsame : Alike K W (r.deliverAll now es) r := by
    refine ⟨hshape.symm, fun c => (hroll.addresses c).symm, fun c hc => ?_,
      fun c hc as ha => h.scopes c hc as ((hroll.addresses c).symm.trans ha)⟩
    rw [hq, hnone hc]
    simp
  exact hsame.trans h

theorem register (now : Instant) {as : List Address} (has : r.next ∈ W → ∀ a ∈ as, a ∈ K) :
    Alike K W (r.register now as).2 (r'.register now as).2 := by
  refine ⟨⟨h.shape.capacity, congrArg (· + 1) h.shape.next⟩, fun c => ?_, fun c hc => ?_,
    fun c hc bs hbs => ?_⟩
  · rw [addresses_register, addresses_register, h.shape.next, h.addresses]
  · rw [queues_register, queues_register, h.shape.next, h.shape.capacity, h.queues c hc]
  · rw [addresses_register] at hbs
    by_cases hnext : r.next = c
    · rw [if_pos hnext] at hbs
      cases hbs
      exact has (hnext ▸ hc)
    · rw [if_neg hnext] at hbs
      exact h.scopes c hc bs hbs

theorem unregister (d : ConnectionId) : Alike K W (r.unregister d) (r'.unregister d) := by
  have hshape := sameShape_unregister r d
  have hshape' := sameShape_unregister r' d
  refine ⟨hshape.symm.trans (h.shape.trans hshape'), fun c => ?_, fun c hc => ?_, fun c hc as ha => ?_⟩
  · rw [addresses_unregister, addresses_unregister, h.addresses]
  · rw [queues_unregister, queues_unregister, h.queues c hc, h.addresses]
  · rw [addresses_unregister] at ha
    by_cases heq : d = c
    · rw [if_pos heq] at ha
      cases ha
    · rw [if_neg heq] at ha
      exact h.scopes c hc as ha

theorem drop (d : ConnectionId) : Alike K W (r.drop d) (r'.drop d) := by
  have hu := h.unregister d
  refine ⟨⟨hu.shape.capacity, hu.shape.next⟩, hu.addresses, fun c hc => ?_, hu.scopes⟩
  rw [queues_drop, queues_drop, h.queues c hc]

theorem closeAll : Alike K W r.closeAll.2 r'.closeAll.2 := by
  have hshape := sameShape_closeAll r
  have hshape' := sameShape_closeAll r'
  refine ⟨hshape.symm.trans (h.shape.trans hshape'), fun c => ?_, fun c hc => ?_, fun c hc as ha => ?_⟩
  · rw [addresses_closeAll, addresses_closeAll]
  · rw [queues_closeAll, queues_closeAll, h.queues c hc, h.addresses]
  · rw [addresses_closeAll] at ha
    cases ha

theorem receive (d : ConnectionId) : Alike K W (r.receive d).2 (r'.receive d).2 := by
  have hshape := sameShape_receive r d
  have hshape' := sameShape_receive r' d
  refine ⟨hshape.symm.trans (h.shape.trans hshape'), fun c => ?_, fun c hc => ?_, fun c hc as ha => ?_⟩
  · rw [(receive_sameRoll r' d).addresses, h.addresses, (receive_sameRoll r d).addresses]
  · rw [queues_receive, queues_receive, h.queues c hc]
  · exact h.scopes c hc as (((receive_sameRoll r d).addresses c).symm.trans ha)

/-- A reading of a connection that is not watched, on one side only. -/
theorem receiveElsewhere {d : ConnectionId} (hd : d ∉ W) : Alike K W (r.receive d).2 r' := by
  have hroll := receive_sameRoll r d
  have hshape := sameShape_receive r d
  have hsame : Alike K W (r.receive d).2 r := by
    refine ⟨hshape.symm, fun c => (hroll.addresses c).symm, fun c hc => ?_,
      fun c hc as ha => h.scopes c hc as ((hroll.addresses c).symm.trans ha)⟩
    have hne : d ≠ c := fun heq => hd (heq ▸ hc)
    rw [queues_receive]
    simp [hne]
  exact hsame.trans h

/-- A watched connection is told the same. -/
theorem receive_eq {c : ConnectionId} (hc : c ∈ W) : (r'.receive c).1 = (r.receive c).1 := by
  unfold Registry.receive
  rw [h.queues c hc]
  cases r.queues.get? c <;> rfl

end Alike

end Registry

section Rows
variable {K : Set Address} [DecidablePred (· ∈ K)] {log log' : Log}

theorem Log.queued_congr_within (h : log'.filter (isWithin K) = log.filter (isWithin K)) {a : Address}
    (ha : a ∈ K) : log'.queued a = log.queued a := by
  unfold queued
  rw [filter_congr_within (fun s hs => isWithin_of_isAt ha (Bool.and_eq_true_iff.1 hs).1) h]

theorem Log.since_congr_within (h : log'.filter (isWithin K) = log.filter (isWithin K)) {a : Address}
    (ha : a ∈ K) (t : Instant) : log'.since a t = log.since a t := by
  unfold since
  rw [filter_congr_within (fun s hs => isWithin_of_isAt ha (Bool.and_eq_true_iff.1 hs).1) h]

end Rows

/-- What a foreign call does to the rows and to the register. -/
theorem Parted.call_of_isForeign {K : Set Address} [DecidablePred (· ∈ K)] {sentOutside : Id → Prop}
    {W : Set ConnectionId} {service : Service Memory} (hb : service.backend = Backend.inMemory)
    {used : List Id} {s : Service.State Memory} {log : Log} (h : Parted K sentOutside used s log)
    {now : Instant} {c : Call} (hc : c.IsForeign K sentOutside)
    (hfresh : ∀ id, c.fresh? = some id → id ∉ used) :
    (Deed.logAfter now log (c.deeds service now log s.recent)).filter (isWithin K) =
        log.filter (isWithin K) ∧
      ∀ {r : Registry}, s.registry.Alike K W r → (c.run service now s).registry.Alike K W r := by
  have hd := h.done hb now hfresh
  have hout := h.isElsewhere_of_isForeign service now hc
  refine ⟨Deed.filter_logAfter_of_isElsewhere h.kept.store.sound.distinct hd.fit hout, fun ha => ?_⟩
  rw [hd.registry]
  refine ha.deliverElsewhere h.kept.registry now fun e he => ?_
  obtain ⟨d, hdm, rfl⟩ := List.mem_map.1 he
  exact hout d hdm

/-- Two states between which those who are at some addresses cannot tell. -/
structure Twin (K : Set Address) [DecidablePred (· ∈ K)] (sentOutside : Id → Prop)
    (W : Set ConnectionId) (used : List Id) (s t : Service.State Memory) (log log' : Log) : Prop where
  left : Parted K sentOutside used s log
  right : Parted K sentOutside used t log'
  rows : log'.filter (isWithin K) = log.filter (isWithin K)
  registry : s.registry.Alike K W t.registry

namespace Twin
variable {K : Set Address} [DecidablePred (· ∈ K)] {sentOutside : Id → Prop} {W : Set ConnectionId}
  {service : Service Memory} (hb : service.backend = Backend.inMemory) {used : List Id}
  {s t : Service.State Memory} {log log' : Log} (h : Twin K sentOutside W used s t log log')
include h

theorem withRegistry {r r' : Registry} (hr : r.Sound) (hr' : r'.Sound) (ha : r.Alike K W r') :
    Twin K sentOutside W used (Step.withRegistry s r) (Step.withRegistry t r') log log' :=
  ⟨h.left.withRegistry hr, h.right.withRegistry hr', h.rows, ha⟩

/-- What is not known to have been sent outside is found on both sides or on neither. -/
theorem find?_hasId {id : Id} (hid : ¬ sentOutside id) :
    log'.find? (hasId id) = log.find? (hasId id) := by
  have hwithin {u : Service.State Memory} {l : Log} (hp : Parted K sentOutside used u l) (x : Stored)
      (hx : l.find? (hasId id) = some x) : isWithin K x := by
    obtain ⟨hm, rfl⟩ := (hp.kept.store.sound.find?_hasId x id).1 hx
    obtain ⟨a, ha, _⟩ := exists_target (hp.kept.store.sound.stored x hm)
    have hin : a ∈ K := by
      by_contra hout
      exact hid ((hp.sides x hm a ha).2 hout)
    simp [isWithin, ha, hin]
  have hfind {u : Service.State Memory} {l l' : Log} (hp : Parted K sentOutside used u l)
      (hp' : Log.Sound l') (hrows : l'.filter (isWithin K) = l.filter (isWithin K)) (x : Stored)
      (hx : l.find? (hasId id) = some x) : l'.find? (hasId id) = some x := by
    obtain ⟨hm, hid⟩ := (hp.kept.store.sound.find?_hasId x id).1 hx
    have hpart : x ∈ l'.filter (isWithin K) := by
      rw [hrows]
      exact List.mem_filter.2 ⟨hm, hwithin hp x hx⟩
    exact (hp'.find?_hasId x id).2 ⟨(List.mem_filter.1 hpart).1, hid⟩
  cases hx : log.find? (hasId id) with
  | some x => exact hfind h.left h.right.kept.store.sound h.rows x hx
  | none =>
    cases hy : log'.find? (hasId id) with
    | none => rfl
    | some y =>
      have hback := hfind h.right h.left.kept.store.sound h.rows.symm y hy
      rw [hx] at hback
      cases hback

/-- A call that is not for others does the same on both sides. -/
theorem deeds_eq {now : Instant} {c : Call} (hc : ¬ c.IsForeign K sentOutside) :
    c.deeds service now log' t.recent = c.deeds service now log s.recent := by
  cases c with
  | notify fresh target kind mode group payload =>
    have hin : target ∈ K := not_not.1 hc
    have hyields (n : Notification) (hn : n.target = some target) :
        log'.find? (yields n) = log.find? (yields n) := by
      refine find?_congr_within (fun x hx => isWithin_of_isAt hin ?_) h.rows
      exact (Bool.and_eq_true_iff.1 (holds_of_yields hn hx)).1
    rw [Call.deeds, Call.deeds]
    unfold Service.sendDeeds replacement
    rw [hyields _ rfl]
  | broadcast fresh kind group payload =>
    refine service.sendDeeds_of_not_isStored log log' ?_
    simp [Notification.create, Notification.isStored]
  | dismiss id =>
    have hrecent {u : Service.State Memory} {l : Log} (hp : Parted K sentOutside used u l) {x : Stored}
        (hx : l.find? (hasId id) = some x) : u.recent.contains id = false := by
      obtain ⟨hm, rfl⟩ := (hp.kept.store.sound.find?_hasId x id).1 hx
      by_contra hrec
      exact (hp.remembered _ (by simpa using hrec)).2 (List.mem_map_of_mem hm)
    have hfind := h.find?_hasId hc
    rw [Call.deeds, Call.deeds, dismissDeeds, dismissDeeds, hfind]
    cases hx : log.find? (hasId id) with
    | none => simp
    | some x => rw [hrecent h.left hx, hrecent h.right (hfind.trans hx)]
  | dismissGroup a group =>
    have hin : a ∈ K := not_not.1 hc
    rw [Call.deeds, Call.deeds, dismissGroupDeeds, dismissGroupDeeds]
    rw [find?_congr_within (fun x hx => isWithin_of_isAt hin ?_) h.rows]
    exact (Bool.and_eq_true_iff.1 (Bool.and_eq_true_iff.1 hx).2).1

theorem reading?_eq {c : ConnectionId} (hc : c ∈ W) (x : Step) :
    x.reading? c t.registry = x.reading? c s.registry := by
  cases x with
  | receive d => rw [Step.reading?, Step.reading?, h.registry.receive_eq hc]
  | call now call => rfl
  | sweep now => rfl
  | connect now as => rfl
  | unregister d => rfl
  | drop d => rfl
  | closeAll => rfl

include hb

/-- A call for others on one side only. -/
theorem callElsewhere {now : Instant} {c : Call} (hc : c.IsForeign K sentOutside)
    (hfresh : ∀ id, c.fresh? = some id → id ∉ used) (htells : (Step.call now c).Tells K sentOutside) :
    ∃ log₁, Twin K sentOutside W (c.fresh?.toList ++ used) (c.run service now s) t log₁ log' := by
  obtain ⟨hrows, hregistry⟩ := h.left.call_of_isForeign hb (W := W) hc hfresh
  exact ⟨_, h.left.call hb hfresh htells, h.right.mono (List.subset_append_right _ _),
    h.rows.trans hrows.symm, hregistry h.registry⟩

/-- A call on both sides. -/
theorem call {now : Instant} {c : Call} (hfresh : ∀ id, c.fresh? = some id → id ∉ used)
    (htells : (Step.call now c).Tells K sentOutside) :
    ∃ log₁ log₂, Twin K sentOutside W (c.fresh?.toList ++ used) (c.run service now s)
      (c.run service now t) log₁ log₂ := by
  suffices hsame : _ ∧ _ from
    ⟨_, _, h.left.call hb hfresh htells, h.right.call hb hfresh htells, hsame.1, hsame.2⟩
  by_cases hc : c.IsForeign K sentOutside
  · obtain ⟨hrows, hregistry⟩ := h.left.call_of_isForeign hb (W := W) hc hfresh
    obtain ⟨hrows', hregistry'⟩ := h.right.call_of_isForeign hb (W := W) hc hfresh
    exact ⟨hrows'.trans (h.rows.trans hrows.symm), (hregistry' (hregistry h.registry).symm).symm⟩
  · have hd := h.left.done hb now hfresh
    have hd' := h.right.done hb now hfresh
    rw [h.deeds_eq hc] at hd' ⊢
    refine ⟨Deed.filter_logAfter _ h.rows, ?_⟩
    rw [hd.registry, hd'.registry]
    exact h.registry.deliverAll h.left.kept.registry h.right.kept.registry now _

/-- Each step is taken by both sides alike. -/
theorem step (x : Step) (hfresh : ∀ id, x.fresh? = some id → id ∉ used) (htells : x.Tells K sentOutside)
    (hW : ∀ now as, x = .connect now as → s.registry.next ∈ W → ∀ a ∈ as, a ∈ K) :
    ∃ log₁ log₂, Twin K sentOutside W (x.fresh?.toList ++ used) (x.run service s) (x.run service t)
      log₁ log₂ := by
  have hl := h.left.kept.registry
  have hr := h.right.kept.registry
  cases x with
  | call now c => exact h.call hb hfresh htells
  | sweep now =>
    obtain ⟨old, hold⟩ := Parted.sweep hb K sentOutside now
    refine ⟨_, _, hold h.left, hold h.right, ?_, ?_⟩
    · exact filter_without_congr old h.rows
    · rw [Step.run_sweep hb, Step.run_sweep hb]
      exact h.registry
  | connect now as =>
    exact ⟨_, _, h.withRegistry (hl.register now as) (hr.register now as)
      (h.registry.register now (hW now as rfl))⟩
  | unregister c =>
    exact ⟨_, _, h.withRegistry (hl.unregister c) (hr.unregister c) (h.registry.unregister c)⟩
  | drop c => exact ⟨_, _, h.withRegistry (hl.drop c) (hr.drop c) (h.registry.drop c)⟩
  | closeAll => exact ⟨_, _, h.withRegistry hl.closeAll hr.closeAll h.registry.closeAll⟩
  | receive c => exact ⟨_, _, h.withRegistry (hl.receive c) (hr.receive c) (h.registry.receive c)⟩

end Twin

namespace Step

/-- Connections to come that are watched belong to some addresses only. -/
def Watched (K : Set Address) (W : Set ConnectionId) (next : ConnectionId) (xs : List Step) : Prop :=
  ∀ c ∈ W, next ≤ c → ∀ as, (connected xs)[c - next]? = some as → ∀ a ∈ as, a ∈ K

variable {K : Set Address} {W : Set ConnectionId} {s : Service.State Memory} {x : Step}
  {xs : List Step} (h : Watched K W s.registry.next (x :: xs))
include h

theorem Watched.connect {now : Instant} {as : List Address} (hx : x = .connect now as)
    (hc : s.registry.next ∈ W) : ∀ a ∈ as, a ∈ K := by
  subst hx
  refine h _ hc (Nat.le_refl _) as ?_
  rw [Nat.sub_self]
  rfl

theorem Watched.cons (service : Service Memory) : Watched K W (x.run service s).registry.next xs := by
  intro c hc hle as has
  rw [next_run] at hle has
  refine h c hc (Nat.le_trans (Nat.le_add_right _ _) hle) as ?_
  rw [connected_cons, List.getElem?_append_right (Nat.le_sub_of_add_le' hle), Nat.sub_sub]
  exact has

end Step

/-- Two runs, one of them edited, from states that cannot be told apart. -/
theorem Twin.runAll {K : Set Address} [DecidablePred (· ∈ K)] {sentOutside : Id → Prop}
    {W : Set ConnectionId} {service : Service Memory} (hb : service.backend = Backend.inMemory)
    {used : List Id} {s t : Service.State Memory} {log log' : Log}
    (h : Twin K sentOutside W used s t log log') {xs ys : List Step}
    (he : Edited (Step.IsForeign K sentOutside) (· ∉ W) xs ys) (hf : Fresh (Step.freshIds xs) used)
    (htells : ∀ x ∈ xs, x.Tells K sentOutside) (hw : Step.Watched K W s.registry.next xs) :
    (∀ c ∈ W, Step.received service c ys t = Step.received service c xs s) ∧
      ∃ used' log₁ log₂, Twin K sentOutside W used' (Step.runAll service xs s)
        (Step.runAll service ys t) log₁ log₂ := by
  have hunread {c d : ConnectionId} (hd : d ∉ W) (hc : c ∈ W) (r : Registry) :
      (Step.receive d).reading? c r = none := if_neg fun (heq : d = c) => hd (heq ▸ hc)
  induction he generalizing s t log log' used with
  | done => exact ⟨fun c _ => rfl, used, log, log', h⟩
  | @keep xs ys x he ih =>
    rw [Step.freshIds_cons] at hf
    obtain ⟨hx, hxs⟩ := hf.cons
    obtain ⟨log₁, log₂, h₁⟩ := h.step hb x hx (htells x List.mem_cons_self) fun now as => hw.connect
    obtain ⟨hrec, hrest⟩ := ih h₁ hxs (fun y hy => htells y (List.mem_cons_of_mem x hy)) (hw.cons service)
    refine ⟨fun c hc => ?_, hrest⟩
    rw [Step.received, Step.received, hrec c hc, h.reading?_eq hc]
  | @leaveOut xs ys x hx he ih =>
    rw [Step.freshIds_cons] at hf
    obtain ⟨hfresh, hxs⟩ := hf.cons
    have hx' := htells x List.mem_cons_self
    cases x with
    | call now c =>
      obtain ⟨log₁, h₁⟩ := h.callElsewhere hb hx hfresh hx'
      exact ih h₁ hxs (fun y hy => htells y (List.mem_cons_of_mem _ hy)) (hw.cons service)
    | _ => exact hx.elim
  | @unread xs ys d hd he ih =>
    have h₁ := h.withRegistry (h.left.kept.registry.receive d) h.right.kept.registry
      (h.registry.receiveElsewhere hd)
    obtain ⟨hrec, hrest⟩ := ih h₁ hf (fun y hy => htells y (List.mem_cons_of_mem _ hy))
      (hw.cons service)
    refine ⟨fun c hc => ?_, hrest⟩
    rw [Step.received, hunread hd hc]
    exact hrec c hc
  | @reread xs ys d hd he ih =>
    have h₁ := h.withRegistry h.left.kept.registry (h.right.kept.registry.receive d)
      (h.registry.symm.receiveElsewhere hd).symm
    obtain ⟨hrec, hrest⟩ := ih h₁ hf htells hw
    refine ⟨fun c hc => ?_, hrest⟩
    rw [Step.received, hunread hd hc]
    exact hrec c hc

/-- A list in which nothing is given twice gives each thing in one place. -/
theorem Step.eq_of_fresh? {xs : List Step} (hn : (Step.freshIds xs).Nodup) {x y : Step} (hx : x ∈ xs)
    (hy : y ∈ xs) {id : Id} (hxid : x.fresh? = some id) (hyid : y.fresh? = some id) : x = y := by
  have hp : xs.Pairwise fun x y => x.fresh? = some id → y.fresh? = some id → x = y :=
    (List.pairwise_filterMap.1 hn).imp fun h hxid hyid => absurd rfl (h id hxid id hyid)
  have : Std.Symm fun x y : Step => x.fresh? = some id → y.fresh? = some id → x = y :=
    ⟨fun _ _ h hyid hxid => (h hxid hyid).symm⟩
  exact hp.forall_of_forall (fun _ _ _ _ => rfl) hx hy hxid hyid

/-- Where the notification of an identifier is sent is told by the run. -/
theorem Step.tells_of_mem {xs : List Step} (hn : (Step.freshIds xs).Nodup) (K : Set Address) :
    ∀ x ∈ xs, x.Tells K (Step.SentOutside K xs) := by
  intro x hx
  cases x with
  | call now c =>
    cases c with
    | notify fresh target kind mode group payload =>
      refine ⟨fun ⟨now', target', kind', mode', group', payload', hy, hout⟩ => ?_, fun hout =>
        ⟨now, target, kind, mode, group, payload, hx, hout⟩⟩
      cases Step.eq_of_fresh? hn hx hy rfl rfl
      exact hout
    | _ => trivial
  | _ => trivial

/-- Addresses do not leak into one another. Suppose calls for others than some addresses are left out of a
run, and connections that nobody watches are read less or more. At every point of the run the watched
connections, if they belong to those addresses only, have been told the same, and the stores of those
addresses have the same answers. What a connection is told is for one of its own addresses or for everyone. -/
theorem addresses_do_not_leak (id : Id) (settings : Settings) (hooks : Hooks) (xs : List Step)
    (hn : (Step.freshIds xs).Nodup) (K : Set Address) (W : Set ConnectionId)
    (hW : ∀ c ∈ W, ∀ as, (Step.connected xs)[c]? = some as → ∀ a ∈ as, a ∈ K) (k : Nat) (ys : List Step)
    (he : Edited (Step.IsForeign K (Step.SentOutside K xs)) (· ∉ W) (xs.take k) ys) :
    let service := Service.overMemory id settings hooks
    let start := Service.initial settings Memory.empty
    let s := Step.runAll service (xs.take k) start
    let t := Step.runAll service ys start
    (∀ c ∈ W, Step.received service c ys start = Step.received service c (xs.take k) start) ∧
    (∀ a ∈ K, (service.queued a t).1 = (service.queued a s).1 ∧
      ∀ after, (service.since a after t).1 = (service.since a after s).1) ∧
    (∀ c e, .item e ∈ Step.received service c xs start → ∀ a, e.target = some a →
      ∃ as, (Step.connected xs)[c]? = some as ∧ a ∈ as) := by
  classical
  intro service start s t
  have hsub : (xs.take k).Sublist xs := List.take_sublist k xs
  have hfresh : Fresh (Step.freshIds (xs.take k)) [] := ⟨(hsub.filterMap _).nodup hn, by simp⟩
  have htells : ∀ x ∈ xs.take k, x.Tells K (Step.SentOutside K xs) := fun x hx =>
    Step.tells_of_mem hn K x (hsub.subset hx)
  have hwatched : Step.Watched K W 0 (xs.take k) := by
    intro c hc _ as has
    have hpre : Step.connected (xs.take k) <+: Step.connected xs :=
      (List.take_prefix k xs).filterMap _
    obtain ⟨hlt, hget⟩ := List.getElem?_eq_some_iff.1 has
    refine hW c hc as (List.getElem?_eq_some_iff.2 ⟨hlt.trans_le hpre.length_le, ?_⟩)
    exact (hpre.getElem hlt).symm.trans hget
  have hstart : Twin K (Step.SentOutside K xs) W [] start start [] [] := by
    have hparted : Parted K (Step.SentOutside K xs) [] start [] :=
      ⟨Kept.initial settings, fun _ hid => (nomatch hid), fun _ hx => (nomatch hx)⟩
    exact ⟨hparted, hparted, rfl, Registry.Alike.refl fun _ _ _ ha => (nomatch ha)⟩
  have hb : service.backend = Backend.inMemory := rfl
  obtain ⟨hreceived, used, log, log', hend⟩ := hstart.runAll hb he hfresh htells hwatched
  refine ⟨hreceived, fun a ha => ?_, fun c e hc a ha => ?_⟩
  · have hs : s.store.Represents log := hend.left.kept.store
    have ht : t.store.Represents log' := hend.right.kept.store
    have hqueued (u : Service.State Memory) : (service.queued a u).1 = .ok (u.store.queued a) := rfl
    have hsince (u : Service.State Memory) (after : Instant) :
        (service.since a after u).1 = .ok (u.store.since a after) := rfl
    refine ⟨?_, fun after => ?_⟩
    · rw [hqueued, hqueued, hs.queued_eq, ht.queued_eq, queued_congr_within hend.rows ha]
    · rw [hsince, hsince, hs.since_eq, ht.since_eq, since_congr_within hend.rows ha]
  · exact Step.target_of_mem_received (Registry.Routed.ofCapacity _) hc ha

/-- A user and a session of the same name: the session's notification is left out with its dismissal, and
the session's connection is not read. -/
theorem addresses_do_not_leak_of_one_name :
    let user : Address := ⟨.user, "x"⟩
    let session : Address := ⟨.session, "x"⟩
    let service := Service.overMemory ⟨0⟩ {} Hooks.none
    let start := Service.initial {} Memory.empty
    let opening : List Step := [.connect .epoch [user], .connect .epoch [session],
      .call .epoch (.notify ⟨1⟩ user "note" .queued none [])]
    let ending : List Step := [.call .epoch (.broadcast ⟨3⟩ "note" none []), .receive 0, .receive 0]
    let xs := opening ++ [.call .epoch (.notify ⟨2⟩ session "note" .ephemeral none []), .receive 1,
      .call .epoch (.dismiss ⟨2⟩)] ++ ending
    let ys := opening ++ ending
    (Step.freshIds xs).Nodup ∧
      Edited (Step.IsForeign {user} (Step.SentOutside {user} xs)) (· ∉ ({0} : Set ConnectionId)) xs ys ∧
      Step.received service 0 ys start = Step.received service 0 xs start ∧
      (Step.received service 0 xs start).length = 2 ∧
      (service.queued user (Step.runAll service ys start)).1 =
        (service.queued user (Step.runAll service xs start)).1 := by
  intro user session service start opening ending xs ys
  have hn : (Step.freshIds xs).Nodup := by decide
  have hne : session ∉ ({user} : Set Address) := by simp [user, session]
  have hsent : Step.SentOutside {user} xs ⟨2⟩ :=
    ⟨.epoch, session, "note", .ephemeral, none, [], by simp [xs], hne⟩
  have he : Edited (Step.IsForeign {user} (Step.SentOutside {user} xs)) (· ∉ ({0} : Set ConnectionId))
      xs ys :=
    .keep _ <| .keep _ <| .keep _ <| .leaveOut hne <| .unread (by simp) <| .leaveOut hsent <|
      .keep _ <| .keep _ <| .keep _ .done
  have hW : ∀ c ∈ ({0} : Set ConnectionId), ∀ as, (Step.connected xs)[c]? = some as → ∀ a ∈ as,
      a ∈ ({user} : Set Address) := by
    rintro c rfl as has a ha
    cases has
    exact List.mem_singleton.1 ha
  obtain ⟨hreceived, hstores, _⟩ :=
    addresses_do_not_leak ⟨0⟩ {} Hooks.none xs hn {user} {0} hW xs.length ys (List.take_length ▸ he)
  rw [List.take_length] at hreceived hstores
  exact ⟨hn, he, hreceived 0 rfl, rfl, (hstores user rfl).1⟩

end Tidings
