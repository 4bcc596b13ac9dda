import Tidings.Http.Routes
import Tidings.Proofs.Dismissal
import Tidings.Proofs.Groups
/-!
The dismissal of a group. It takes the queued holder of the group out from under an address, and nothing
else; done again, it finds nothing. A request does this for the caller's session and then for its user.
-/
namespace Tidings
open Log

/-- An entry holds a group at an address, and may be dismissed. -/
def Memory.HoldsQueued (m : Memory) (a : Address) (group : String) (x : Stored) : Prop :=
  m.holders a group = [x] ∧ x.notification.mode = .queued

namespace Memory.Represents
variable {m : Memory} {log : Log} (h : m.Represents log)
include h

theorem holdsQueued_iff (a : Address) (group : String) (x : Stored) :
    m.HoldsQueued a group x ↔ log.find? (holdsQueued a group) = some x := by
  rw [HoldsQueued, h.holders_eq, Option.toList_eq_singleton_iff, h.sound.find?_holds,
    h.sound.find?_holdsQueued, holdsQueued, Bool.and_eq_true, decide_eq_true_eq]
  tauto

/-- Without its holder a group has none, and the others have theirs. -/
theorem holders_without {m' : Memory} {x : Stored} {a : Address} {group : String} (hx : x ∈ log)
    (hheld : holds a group x) (h' : m'.Represents (without (hasId x.notification.id) log)) (b : Address)
    (g : String) : m'.holders b g = if b = a ∧ g = group then [] else m.holders b g := by
  have hsame : ∀ y ∈ log, (hasId x.notification.id y = false ↔ y ≠ x) := by
    intro y hy
    simp only [hasId, decide_eq_false_iff_not]
    exact not_congr ⟨fun hid => h.sound.eq_of_id hy hx hid, fun heq => heq ▸ rfl⟩
  have hfind : ∀ y, (without (hasId x.notification.id) log).find? (holds b g) = some y ↔
      y ≠ x ∧ log.find? (holds b g) = some y := by
    intro y
    rw [h'.sound.find?_holds, h.sound.find?_holds, mem_without]
    constructor
    · rintro ⟨⟨hy, hne⟩, hg⟩
      exact ⟨(hsame y hy).1 hne, hy, hg⟩
    · rintro ⟨hne, hy, hg⟩
      exact ⟨⟨hy, (hsame y hy).2 hne⟩, hg⟩
  rw [h'.holders_eq, h.holders_eq]
  split
  · next heq =>
    obtain ⟨rfl, rfl⟩ := heq
    rw [Option.toList_eq_nil_iff, Option.eq_none_iff_forall_ne_some]
    intro y hy
    obtain ⟨hne, hg⟩ := (hfind y).1 hy
    rw [(h.sound.find?_holds b g x).2 ⟨hx, hheld⟩] at hg
    exact hne (Option.some.inj hg).symm
  · next hother =>
    refine congrArg Option.toList (Option.ext fun y => (hfind y).trans ⟨And.right, fun hg => ⟨?_, hg⟩⟩)
    rintro rfl
    obtain ⟨_, hg⟩ := (h.sound.find?_holds b g y).1 hg
    simp only [holds, isAt, Bool.and_eq_true, decide_eq_true_eq] at hg hheld
    exact hother ⟨Option.some.inj (hg.1.symm.trans hheld.1), Option.some.inj (hg.2.symm.trans hheld.2)⟩

end Memory.Represents

namespace Service
variable {service : Service Memory} (hb : service.backend = Backend.inMemory) {log : Log}
  {s : Service.State Memory}
include hb

/-- A group without a queued holder is left alone, and so is everything else. -/
theorem dismissGroup_of_none (h : s.store.Represents log) (now : Instant) {a : Address} {group : String}
    (hnone : log.find? (holdsQueued a group) = none) :
    service.dismissGroup now a group s = (.ok none, s) := by
  rw [dismissGroup_eq hb h, hnone]

/-- What is stored after the dismissal of a group. -/
theorem dismissGroup_leaves (h : s.store.Represents log) (now : Instant) (a : Address) (group : String) :
    (∃ id, (service.dismissGroup now a group s).1 = .ok id) ∧
      (service.dismissGroup now a group s).2.store.Represents (without (holdsQueued a group) log) := by
  rw [dismissGroup_eq hb h]
  cases hf : log.find? (holdsQueued a group) with
  | none =>
    rw [without_of_find?_none hf]
    exact ⟨⟨_, rfl⟩, h⟩
  | some x =>
    obtain ⟨hx, hp⟩ := (h.sound.find?_holdsQueued a group x).1 hf
    rw [h.sound.without_holdsQueued hf]
    have hdone : Done now log s _ _ :=
      emitDismissed_done hb hx (target_of_holdsQueued hp) (h.remove x.notification.id).2
    exact ⟨⟨_, rfl⟩, hdone.store⟩

/-- Nothing is left of a group that may be dismissed for a second time. -/
theorem dismissGroup_again (h : s.store.Represents log) (now later : Instant) (a : Address) (group : String) :
    service.dismissGroup later a group (service.dismissGroup now a group s).2 =
      (.ok none, (service.dismissGroup now a group s).2) := by
  obtain ⟨_, hleft⟩ := dismissGroup_leaves hb h now a group
  refine dismissGroup_of_none hb hleft later (List.find?_eq_none.2 fun x hx => ?_)
  simp [(mem_without.1 hx).2]

/-- The queued holder of a group is taken out, and the holders of other groups stay. -/
theorem dismissGroup_of_holder (h : s.store.Represents log) (hreg : s.registry.Sound) (now : Instant)
    {a : Address} {group : String} {x : Stored} (hf : log.find? (holdsQueued a group) = some x) :
    (service.dismissGroup now a group s).1 = .ok (some x.notification.id) ∧
      s.TookOut a x (service.dismissGroup now a group s).2 ∧
      ∀ b g, (service.dismissGroup now a group s).2.store.holders b g =
        if b = a ∧ g = group then [] else s.store.holders b g := by
  obtain ⟨hx, hp⟩ := (h.sound.find?_holdsQueued a group x).1 hf
  have hheld : holds a group x := (Bool.and_eq_true_iff.1 hp).2
  have hresult : service.dismissGroup now a group s = (.ok (some x.notification.id),
      service.emitDismissed now x.notification.id a (s.withStore (s.store.remove x.notification.id).2)) := by
    rw [dismissGroup_eq hb h, hf]
  have hleft : (service.dismissGroup now a group s).2.store.Represents
      (without (hasId x.notification.id) log) := by
    rw [← h.sound.without_holdsQueued hf]
    exact (dismissGroup_leaves hb h now a group).2
  refine ⟨by rw [hresult], ?_, h.holders_without hx hheld hleft⟩
  rw [hresult]
  exact tookOut_of_dismissed hb h hreg hx (target_of_holdsQueued hp)

/-- Dismisses a group at one address after the other. -/
def dismissEach (service : Service Memory) (now : Instant) (group : String) (as : List Address)
    (s : State Memory) : State Memory :=
  as.foldl (fun s a => (service.dismissGroup now a group s).2) s

/-- Dismissing at several addresses never stops halfway, and leaves no queued holder at any of them. -/
theorem dismissEach_clears (h : s.store.Represents log) (now : Instant) (group : String)
    (as : List Address) :
    Http.dismissAt service now group as s = (.ok (), service.dismissEach now group as s) ∧
      ∃ log' : Log, (service.dismissEach now group as s).store.Represents log' ∧ log' ⊆ log ∧
        ∀ a ∈ as, log'.find? (holdsQueued a group) = none := by
  induction as generalizing s log with
  | nil => exact ⟨rfl, log, h, List.Subset.refl log, fun a ha => absurd ha List.not_mem_nil⟩
  | cons a as ih =>
    obtain ⟨⟨id, hid⟩, hleft⟩ := dismissGroup_leaves hb h now a group
    obtain ⟨hat, log', hlog', hsub, hclear⟩ := ih hleft
    have hone : service.dismissGroup now a group s =
        (.ok id, (service.dismissGroup now a group s).2) := Prod.ext hid rfl
    refine ⟨?_, log', hlog', fun x hx => (mem_without.1 (hsub hx)).1, ?_⟩
    · rw [Http.dismissAt, Access.bind_of_ok hone, hat]
      rfl
    · refine List.forall_mem_cons.2 ⟨List.find?_eq_none.2 fun x hx => ?_, hclear⟩
      simp [(mem_without.1 (hsub hx)).2]

theorem dismissEach_of_none (h : s.store.Represents log) (now : Instant) (group : String)
    {as : List Address} (hclear : ∀ a ∈ as, log.find? (holdsQueued a group) = none) :
    service.dismissEach now group as s = s := by
  induction as with
  | nil => rfl
  | cons a as ih =>
    obtain ⟨ha, has⟩ := List.forall_mem_cons.1 hclear
    rw [dismissEach, List.foldl_cons, dismissGroup_of_none hb h now ha]
    exact ih has

end Service

/-- A request of a caller to dismiss a group. -/
structure Http.Request.Dismisses (request : Http.Request) (caller : Http.Identity) (group : String) :
    Prop where
  method : request.method = "DELETE"
  path : ∃ raw, Http.Route.ofPath (Http.splitUri request.uri).1 = .group raw ∧
    Http.parameter "group" raw = .ok group
  headers : Http.Identity.ofHeaders request.headers = .ok caller

theorem Http.handle_of_dismisses {σ : Type} (service : Service σ) (now : Instant) (timer : Nat)
    {request : Request} {caller : Identity} {group : String} (h : request.Dismisses caller group)
    (s : Service.State σ) : handle service now timer request s =
      answer (dismissAt service now group caller.addresses) (fun _ => .empty 204) s := by
  obtain ⟨raw, hroute, hraw⟩ := h.path
  have hmany : handle service now timer request s =
      onlyFor "DELETE" request.method (dismissMany service now request.headers raw) s := by
    unfold handle
    simp only [hroute]
  rw [hmany, onlyFor, if_pos h.method, dismissMany, h.headers]
  simp only [hraw]

/-- After any run the dismissal of a group answers with the holder that is queued there, takes it out and
tells of that; with no such holder it does nothing; and nothing is left for a second one. A request does
the same for the caller's session and then for its user, and repeating it changes nothing. -/
theorem group_dismissal_exact (self : Id) (settings : Settings) (hooks : Hooks) (xs : List Turn)
    (hn : (Turn.freshIds xs).Nodup) :
    let service := Service.overMemory self settings hooks
    let s := Turn.runAll service xs (Service.initial settings Memory.empty)
    (∀ now a group,
      let r := service.dismissGroup now a group s
      (∀ id, r.1 = .ok (some id) ↔ ∃ x, s.store.HoldsQueued a group x ∧ x.notification.id = id) ∧
      (∀ x, s.store.HoldsQueued a group x → s.TookOut a x r.2 ∧ ∀ b g,
        r.2.store.holders b g = if b = a ∧ g = group then [] else s.store.holders b g) ∧
      ((∀ x, ¬ s.store.HoldsQueued a group x) → r = (.ok none, s)) ∧
      ∀ later, service.dismissGroup later a group r.2 = (.ok none, r.2)) ∧
    ∀ now timer request caller group, Http.Request.Dismisses request caller group →
      let s₁ := (service.dismissGroup now ⟨.session, caller.session⟩ group s).2
      let s₂ := match caller.user with
        | none => s₁
        | some user => (service.dismissGroup now ⟨.user, user⟩ group s₁).2
      Http.handle service now timer request s = (.empty 204, s₂) ∧
      ∀ later timer', Http.handle service later timer' request s₂ = (.empty 204, s₂) := by
  intro service s
  have hb : service.backend = Backend.inMemory := rfl
  obtain ⟨used, log, h⟩ : ∃ used log, Kept used s log :=
    Turn.kept_runAll hb (Kept.initial settings) xs ⟨hn, by simp⟩
  refine ⟨fun now a group => ?_, fun now timer request caller group hrequest => ?_⟩
  · intro r
    simp only [h.store.holdsQueued_iff]
    refine ⟨fun id => ?_, fun x hx => ?_, fun hno => ?_, fun later => ?_⟩
    · cases hf : log.find? (holdsQueued a group) with
      | none => simp [r, Service.dismissGroup_of_none hb h.store now hf]
      | some x => simp [r, (Service.dismissGroup_of_holder hb h.store h.registry now hf).1]
    · exact (Service.dismissGroup_of_holder hb h.store h.registry now hx).2
    · exact Service.dismissGroup_of_none hb h.store now (Option.eq_none_iff_forall_ne_some.2 hno)
    · exact Service.dismissGroup_again hb h.store now later a group
  · intro s₁ s₂
    obtain ⟨hat, log', hlog', _, hclear⟩ :=
      Service.dismissEach_clears hb h.store now group caller.addresses
    have hs₂ : service.dismissEach now group caller.addresses s = s₂ := by
      obtain ⟨session, user⟩ := caller
      cases user <;> rfl
    rw [hs₂] at hat hlog'
    refine ⟨?_, fun later timer' => ?_⟩
    · rw [Http.handle_of_dismisses service now timer hrequest, Http.answer, hat]
    · obtain ⟨hlater, _⟩ := Service.dismissEach_clears hb hlog' later group caller.addresses
      rw [Service.dismissEach_of_none hb hlog' later group hclear] at hlater
      rw [Http.handle_of_dismisses service later timer' hrequest, Http.answer, hlater]

/-- A caller with a session and a user: the session has a queued holder, the user one of a series. -/
theorem group_dismissal_exact_of_two_holders :
    let a : Address := ⟨.session, "s"⟩
    let xs : List Turn := [.own (.connect .epoch [a]),
      .own (.call .epoch (.notify ⟨1⟩ a "note" .queued (some "g") [])),
      .own (.call .epoch (.notify ⟨2⟩ ⟨.user, "u"⟩ "note" .timeseries (some "g") []))]
    let service := Service.overMemory ⟨0⟩ {} Hooks.none
    let s := Turn.runAll service xs (Service.initial {} Memory.empty)
    let request : Http.Request :=
      ⟨"DELETE", "/notifications/group/g", [("X-Session-Id", "s"), ("X-User-Id", "u")]⟩
    let r := service.dismissGroup .epoch a "g" s
    let s' := (service.dismissGroup .epoch ⟨.user, "u"⟩ "g" r.2).2
    (Turn.freshIds xs).Nodup ∧ request.Dismisses ⟨"s", some "u"⟩ "g" ∧
      (∃ x, s.store.HoldsQueued a "g" x ∧ x.notification.id = ⟨1⟩ ∧ s.TookOut a x r.2) ∧
      service.dismissGroup .epoch ⟨.user, "u"⟩ "g" s = (.ok none, s) ∧
      Http.handle service .epoch 0 request s = (.empty 204, s') ∧
      Http.handle service .epoch 0 request s' = (.empty 204, s') := by
  intro a xs service s request r s'
  have hn : (Turn.freshIds xs).Nodup := by decide
  have hrequest : request.Dismisses ⟨"s", some "u"⟩ "g" :=
    ⟨rfl, ⟨"g", by decide +kernel, by rfl⟩, by decide +kernel⟩
  obtain ⟨hdismiss, hhandle⟩ := group_dismissal_exact ⟨0⟩ {} Hooks.none xs hn
  obtain ⟨hanswer, htook, _⟩ := hdismiss .epoch a "g"
  obtain ⟨hseries, _, hnothing, _⟩ := hdismiss .epoch ⟨.user, "u"⟩ "g"
  obtain ⟨x, hx, hid⟩ := (hanswer ⟨1⟩).1 rfl
  obtain ⟨hfirst, hagain⟩ := hhandle .epoch 0 request ⟨"s", some "u"⟩ "g" hrequest
  refine ⟨hn, hrequest, ⟨x, hx, hid, (htook x hx).1⟩, hnothing fun y hy => ?_, hfirst, hagain .epoch 0⟩
  cases (hseries y.notification.id).2 ⟨y, hy, rfl⟩

end Tidings
