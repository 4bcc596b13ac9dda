import Tidings.Envelope
import Tidings.Proofs.Journal
import Tidings.Proofs.Network
/-!
What a failure to publish means. Whether messages reach the other instances is nothing that the callers of a
service, the clients connected to it or its backend could tell from what it does.
-/
namespace Tidings

variable {σ τ : Type}

/-- What is asked of a service, by those who use it or by another instance. -/
inductive Request where
  | step (x : Step)
  | remote (now : Instant) (m : Message)
  | queued (a : Address)
  | since (a : Address) (t : Instant)
  | mode (id : Id)

inductive Answer where
  | called (r : Except Fault Reply)
  | swept (r : Except Fault Nat)
  | connected (c : ConnectionId)
  | closed (count : Nat)
  | received (r : Received Event)
  | listed (r : Except Fault (List Notification))
  | found (r : Except Fault (Option Mode))
  | done

def Step.serve (service : Service σ) : Step → Service.State σ → Answer × Service.State σ
  | .call now c, s =>
    let (r, s) := c.answer service now s
    (.called r, s)
  | .sweep now, s =>
    let (r, s) := Service.access (service.backend.sweep service.settings now) s
    (.swept r, s)
  | .connect now as, s =>
    let (c, registry) := s.registry.register now as
    (.connected c, { s with registry })
  | .unregister c, s => (.done, { s with registry := s.registry.unregister c })
  | .drop c, s => (.done, { s with registry := s.registry.drop c })
  | .closeAll, s =>
    let (count, registry) := s.registry.closeAll
    (.closed count, { s with registry })
  | .receive c, s =>
    let (r, registry) := s.registry.receive c
    (.received r, { s with registry })

namespace Request

def serve (service : Service σ) : Request → Service.State σ → Answer × Service.State σ
  | .step x, s => x.serve service s
  | .remote now m, s => (.done, service.receiveRemote now m s)
  | .queued a, s =>
    let (r, s) := service.queued a s
    (.listed r, s)
  | .since a t, s =>
    let (r, s) := service.since a t s
    (.listed r, s)
  | .mode id, s =>
    let (r, s) := service.mode id s
    (.found r, s)

def serveAll (service : Service σ) : List Request → Service.State σ → List Answer × Service.State σ
  | [], s => ([], s)
  | r :: rs, s =>
    let (answer, s) := r.serve service s
    let (answers, s) := serveAll service rs s
    (answer :: answers, s)

/-- What the backend is used for in a run, in order. -/
def uses (service : Service σ) (rs : List Request) (s : Service.State σ) : List Backend.Use :=
  (serveAll service.journaled rs s.noted).2.store.uses

end Request

/-- The state of a backend, with the number of messages that it was to publish. -/
structure Counted (σ : Type) where
  store : σ
  published : Nat

def Counted.setStore (c : Counted σ) (store : σ) : Counted σ := { c with store }

/-- A backend over which it is settled beforehand what comes of each publishing. -/
def Backend.settled (b : Backend σ) (outcome : Nat → Except Fault Unit) : Backend (Counted σ) :=
  { b.within Counted.store Counted.setStore with
    publish := fun m c => (outcome c.published, ⟨(b.publish m c.store).2, c.published + 1⟩) }

theorem Step.serve_snd (service : Service σ) (x : Step) (s : Service.State σ) :
    (x.serve service s).2 = x.perform service s := by
  cases x with
  | call now c => exact c.answer_snd service now s
  | sweep now => rfl
  | connect now as => rfl
  | unregister c => rfl
  | drop c => rfl
  | closeAll => rfl
  | receive c => rfl

/-- What is settled about publishing does not show in the answers. -/
theorem Backend.replies_settled (b : Backend σ) (f g : Nat → Except Fault Unit) (us : List Use)
    (c : Counted σ) : (b.settled g).replies us c = (b.settled f).replies us c := by
  induction us generalizing c with
  | nil => rfl
  | cons u us ih =>
    cases u with
    | asked q =>
      have hask : (b.settled g).ask q = (b.settled f).ask q := by cases q <;> rfl
      rw [replies, replies, hask, ih]
    | published m => exact ih _

namespace Service
variable {R : σ → τ → Prop} {s : State σ} {t : State τ} (service : Service σ) {b : Backend τ}
  (hb : service.backend.Matches b R) (h : s.Matched R t)
include hb h

/-- Each request is answered alike over two backends that answer alike. -/
theorem step_agree (x : Step) : Agree R (x.serve service s) (x.serve (service.over b) t) := by
  cases x with
  | call now c =>
    have hcall := c.answer_agree service hb now h
    simp only [Step.serve]
    generalize c.answer service now s = x, c.answer (service.over b) now t = y at hcall ⊢
    obtain ⟨r, hs⟩ := hcall
    exact ⟨_, hs⟩
  | sweep now =>
    have hsweep := service.sweep_agree hb now h
    have hover : (service.over b).backend.sweep (service.over b).settings now =
      b.sweep service.settings now := rfl
    simp only [Step.serve, hover]
    generalize access (service.backend.sweep service.settings now) s = x,
      access (b.sweep service.settings now) t = y at hsweep ⊢
    obtain ⟨r, hs⟩ := hsweep
    exact ⟨_, hs⟩
  | connect _ _ | unregister _ | drop _ | closeAll | receive _ =>
    simp only [Step.serve, h.registry]
    exact ⟨_, h.withRegistry _⟩

theorem request_agree (r : Request) : Agree R (r.serve service s) (r.serve (service.over b) t) := by
  have hquery {α : Type} {x : Access σ α} {y : Access τ α} (f : Except Fault α → Answer)
      (hxy : (y t.store).1 = (x s.store).1 ∧ R (x s.store).2 (y t.store).2) :
      Agree R (f (access x s).1, (access x s).2) (f (access y t).1, (access y t).2) := by
    have hagree := access_agree h hxy
    generalize access x s = x, access y t = y at hagree ⊢
    obtain ⟨r, hs⟩ := hagree
    exact ⟨_, hs⟩
  cases r with
  | step x => exact service.step_agree hb h x
  | remote now m => exact .intro Answer.done (service.receiveRemote_matched now h m)
  | queued a => exact hquery .listed (hb.ask (.queued a) h.store)
  | since a time => exact hquery .listed (hb.ask (.since a time) h.store)
  | mode id => exact hquery .found (hb.ask (.mode id) h.store)

/-- And so is a whole run. -/
theorem requests_agree (rs : List Request) :
    Agree R (Request.serveAll service rs s) (Request.serveAll (service.over b) rs t) := by
  induction rs generalizing s t with
  | nil => exact ⟨_, h⟩
  | cons r rs ih =>
    have hfirst := service.request_agree hb h r
    simp only [Request.serveAll]
    generalize r.serve service s = x, r.serve (service.over b) t = y at hfirst ⊢
    obtain @⟨answer, s, t, hs⟩ := hfirst
    have hrest := ih hs
    dsimp only
    generalize Request.serveAll service rs s = x, Request.serveAll (service.over b) rs t = y at hrest ⊢
    obtain ⟨answers, hs⟩ := hrest
    exact ⟨_, hs⟩

end Service

/-- Taking down the uses of a backend changes nothing. -/
theorem Request.serveAll_journaled (service : Service σ) (rs : List Request) (s : Service.State σ) :
    Service.Agree (fun j t => t = j.store) (serveAll service.journaled rs s.noted)
      (serveAll service rs s) :=
  service.journaled.requests_agree service.backend.matches_journaled ⟨rfl, rfl, rfl, rfl⟩ rs

/-- Two runs of a service over backends with the same answers, however the publishing comes out in each:
the same answers, the same in every queue, the same identifiers remembered, and the same uses of the
backend, the attempts to publish among them. -/
theorem publishing_goes_unnoticed (service : Service σ) (b : Backend τ) (store : σ) (store' : τ)
    (hreplies : ∀ us, b.replies us store' = service.backend.replies us store) (rs : List Request) :
    let start := Service.initial service.settings store
    let start' := Service.initial service.settings store'
    let run := Request.serveAll service rs start
    let run' := Request.serveAll (service.over b) rs start'
    run'.1 = run.1 ∧ run'.2.registry = run.2.registry ∧ run'.2.recent = run.2.recent ∧
      run'.2.told = run.2.told ∧ Request.uses (service.over b) rs start' = Request.uses service rs start := by
  intro start start' run run'
  have hplain := Request.serveAll_journaled service rs start
  have hplain' := Request.serveAll_journaled (service.over b) rs start'
  have hstart : start.noted.Matched (fun j k =>
      k.uses = j.uses ∧ ∀ us, b.replies us k.store = service.backend.replies us j.store) start'.noted :=
    ⟨⟨rfl, hreplies⟩, rfl, rfl, rfl⟩
  have hnoted := service.journaled.requests_agree (service.backend.matches_of_replies b) hstart rs
  have hresult := hnoted.result
  obtain ⟨⟨huses, _⟩, hregistry, hrecent, htold⟩ := hnoted.matched
  refine ⟨?_, ?_, ?_, ?_, huses⟩
  · exact hplain'.result.trans (hresult.trans hplain.result.symm)
  · exact hplain'.matched.registry.trans (hregistry.trans hplain.matched.registry.symm)
  · exact hplain'.matched.recent.trans (hrecent.trans hplain.matched.recent.symm)
  · exact hplain'.matched.told.trans (htold.trans hplain.matched.told.symm)

/-- One holder of a group takes the place of another, and the message of the withdrawal is too long for the
database's channel: what comes after it is sent all the same. -/
theorem publishing_goes_unnoticed_of_refusal :
    let a : Address := ⟨.session, "s"⟩
    let refused := Envelope.encode.tooLong "withdrawal"
    let b := Backend.inMemory.settled fun k => if k = 1 then .error refused else .ok ()
    let service : Service (Counted Memory) :=
      ⟨⟨0⟩, {}, Backend.inMemory.settled fun _ => .ok (), Hooks.none⟩
    let store : Counted Memory := ⟨Memory.empty, 0⟩
    let start := Service.initial service.settings store
    let rs : List Request := [.step (.connect .epoch [a]),
      .step (.call .epoch (.notify ⟨1⟩ a "note" .queued (some "g") [])),
      .step (.call .epoch (.notify ⟨2⟩ a "note" .queued (some "g") [])), .step (.receive 0)]
    (∀ us, b.replies us store = service.backend.replies us store) ∧
      (Request.serveAll (service.over b) rs start).1 = (Request.serveAll service rs start).1 ∧
      (Request.uses (service.over b) rs start).length = 5 := by
  intro a refused b service store start rs
  have hreplies : ∀ us, b.replies us store = service.backend.replies us store := fun us =>
    Backend.inMemory.replies_settled (fun _ => .ok ()) (fun k => if k = 1 then .error refused else .ok ())
      us store
  obtain ⟨hanswers, _, _, _, huses⟩ := publishing_goes_unnoticed service b store store hreplies rs
  have hfive : (Request.uses service rs start).length = 5 := by decide +kernel
  exact ⟨hreplies, hanswers, (congrArg List.length huses).trans hfive⟩

end Tidings
