import Tidings.Proofs.Reading
import Tidings.Proofs.Run
/-!
Following a service. A connection is registered, the store is read for it piece by piece, and its frames go
to a client, while anything else goes on in between.
-/
namespace Tidings

/-- How far a client has come: the store is being read for it, or it reads its stream, or the store could
not be read and the connection was given up. -/
inductive Client where
  | opening (left : List Fetch) (found : List Notification)
  | reading (t : Stream) (held : List Notification)
  | gone

structure Scene where
  state : Service.State Memory
  client : Client

/-- The scene when a connection has just been registered and nothing has been read for it. -/
def Scene.opened (s : Service.State Memory) (now : Instant) (scopes : List Address)
    (since : Option Instant) : Scene :=
  ⟨Step.withRegistry s (s.registry.register now scopes).2, .opening (fetches since scopes) []⟩

inductive Move where
  /-- Something else happens. -/
  | step (x : Step)
  /-- The store is read for the client; when everything has been read the stream starts. -/
  | fetch
  | read (limit : Option Nat)

namespace Move

def run (service : Service Memory) (c : ConnectionId) : Move → Scene → Scene
  | .step x, w => ⟨x.run service w.state, w.client⟩
  | .fetch, ⟨s, .opening (f :: rest) found⟩ =>
    match f.run service s with
    | (.ok ns, s) => ⟨s, .opening rest (found ++ ns)⟩
    | (.error _, s) => ⟨Step.withRegistry s (s.registry.drop c), .gone⟩
  | .fetch, ⟨s, .opening [] found⟩ => ⟨s, .reading (.ofFound c found) []⟩
  | .fetch, w => w
  | .read limit, ⟨s, .reading t held⟩ =>
    let (result, t, r) := t.read limit s.registry
    ⟨Step.withRegistry s r, .reading t (applyFrames held result.1)⟩
  | .read _, w => w

def fresh? : Move → Option Id
  | .step x => x.fresh?
  | _ => none

def runAll (service : Service Memory) (c : ConnectionId) (ms : List Move) (w : Scene) : Scene :=
  ms.foldl (fun w m => m.run service c w) w

def freshIds (ms : List Move) : List Id := ms.filterMap fresh?

end Move

/-- What a client holds when it has read everything that its stream has now: without repetition the queued
notifications that the store returns for its addresses. -/
def Scene.Agrees (service : Service Memory) (scopes : List Address) (w : Scene) : Prop :=
  ∀ t held, w.client = .reading t held →
    let held' := applyFrames held (t.read none w.state.registry).1.1
    (held'.map (·.id)).Nodup ∧ ∀ n, n ∈ held' ↔
      ∃ a ∈ scopes, ∃ ns, (service.queued a w.state).1 = .ok ns ∧ n ∈ ns

section Start
variable {service : Service Memory} (hb : service.backend = Backend.inMemory)
include hb

theorem Fetch.run_eq (f : Fetch) (s : Service.State Memory) :
    f.run service s = (.ok (f.onMemory s.store), s) := by
  cases f with
  | queued a =>
    rw [run, Service.queued, hb]
    rfl
  | since a t =>
    rw [run, Service.since, hb]
    rfl

theorem load_eq (since : Option Instant) (scopes : List Address) (s : Service.State Memory) :
    Stream.load service since scopes s =
      (.ok ((fetches since scopes).flatMap fun f => f.onMemory s.store), s) := by
  have hone (a : Address) : Stream.loadOne service since a s =
      (.ok ((Fetch.queued a :: (since.map (Fetch.since a)).toList).flatMap fun f => f.onMemory s.store),
        s) := by
    have hqueued : service.queued a s = (.ok (s.store.queued a), s) :=
      (Fetch.queued a).run_eq hb s
    unfold Stream.loadOne
    rw [Access.bind_of_ok hqueued]
    cases since with
    | none => simp [Fetch.onMemory, Access.pure_apply]
    | some t =>
      have hsince : service.since a t s = (.ok (s.store.since a t), s) :=
        (Fetch.since a t).run_eq hb s
      show (service.since a t >>= _) s = _
      rw [Access.bind_of_ok hsince]
      simp [Fetch.onMemory, Access.pure_apply]
  induction scopes with
  | nil => rfl
  | cons a scopes ih =>
    have hcons : fetches since (a :: scopes) =
        (.queued a :: (since.map (.since a)).toList) ++ fetches since scopes := List.flatMap_cons
    rw [Stream.load, Access.bind_of_ok (hone a), Access.bind_of_ok ih, Access.pure_apply, hcons,
      List.flatMap_append]

theorem runAll_fetch (c : ConnectionId) (s : Service.State Memory) (left : List Fetch)
    (found : List Notification) :
    Move.runAll service c (List.replicate (left.length + 1) .fetch) ⟨s, .opening left found⟩ =
      ⟨s, .reading (.ofFound c (found ++ left.flatMap fun f => f.onMemory s.store)) []⟩ := by
  induction left generalizing found with
  | nil =>
    rw [List.flatMap_nil, List.append_nil]
    rfl
  | cons f rest ih =>
    rw [List.length_cons, List.replicate_succ, Move.runAll, List.foldl_cons, Move.run, f.run_eq hb]
    refine (ih (found ++ f.onMemory s.store)).trans ?_
    rw [List.flatMap_cons, List.append_assoc]

/-- With nothing in between, this is how a stream starts. -/
theorem runAll_fetch_eq_start (now : Instant) (scopes : List Address) (since : Option Instant)
    (s : Service.State Memory) :
    ∃ t s', Stream.start service now scopes since s = (.ok t, s') ∧
      Move.runAll service (s.registry.register now scopes).1
        (List.replicate ((fetches since scopes).length + 1) .fetch) (.opened s now scopes since) =
          ⟨s', .reading t []⟩ := by
  refine ⟨_, _, ?_, runAll_fetch hb _ _ _ _⟩
  unfold Stream.start
  simp only [load_eq hb]
  rfl

end Start

/-- Whether a step leaves a connection open and its queue unread. -/
def Step.Spares (c : ConnectionId) : Step → Prop
  | .unregister c' | .drop c' | .receive c' => c' ≠ c
  | .closeAll => False
  | _ => True

/-- A move that spares the connection, loses nothing from its queue, and purges nothing at its addresses. -/
structure Move.Undisturbing (service : Service Memory) (c : ConnectionId) (scopes : List Address)
    (w : Scene) (m : Move) : Prop where
  spares : ∀ x, m = .step x → x.Spares c
  lossless : ∀ q, (m.run service c w).state.registry.queues.get? c = some q → q.lost = 0
  unpurged : ∀ now, m = .step (.sweep now) → ∀ a ∈ scopes,
    (m.run service c w).state.store.entries a = w.state.store.entries a

/-- Moves that are all undisturbing where they are made. -/
def Undisturbed (service : Service Memory) (c : ConnectionId) (scopes : List Address) :
    Scene → List Move → Prop
  | _, [] => True
  | w, m :: ms =>
    m.Undisturbing service c scopes w ∧ Undisturbed service c scopes (m.run service c w) ms

theorem Queue.lost_le_foldl_push {α : Type} (q : Queue α) (as : List α) :
    q.lost ≤ (as.foldl Queue.push q).lost := by
  induction as generalizing q with
  | nil => exact Nat.le_refl _
  | cons a as ih =>
    refine Nat.le_trans ?_ (ih (q.push a))
    unfold Queue.push
    split
    · exact Nat.le_refl _
    · exact Nat.le_succ _

/-- A queue that lost nothing has all that was added to it. -/
theorem Queue.items_foldl_push {α : Type} {q : Queue α} {as : List α}
    (h : (as.foldl Queue.push q).lost = 0) : (as.foldl Queue.push q).items = q.items ++ as := by
  induction as generalizing q with
  | nil => exact (List.append_nil _).symm
  | cons a as ih =>
    have hpush : (q.push a).lost = 0 := Nat.le_zero.1 (h ▸ lost_le_foldl_push (q.push a) as)
    have hitems : (q.push a).items = q.items ++ [a] := by
      unfold Queue.push at hpush ⊢
      split at hpush
      · next hroom => rw [if_pos hroom]
      · simp at hpush
    rw [List.foldl_cons, ih h, hitems, List.append_assoc, List.singleton_append]

/-- What every client keeps that follows undisturbed. -/
def Client.Follows (scopes : List Address) (used : List Id) (log : Log) (items : List Event)
    (c : ConnectionId) : Client → Prop
  | .opening left found => Opening scopes used log items left found
  | .reading t held => t.connection = c ∧ Reading scopes used log items t held
  | .gone => False

namespace Deed

/-- What is posted is new to everyone, and stored if it is queued. -/
def IsNew (used : List Id) : Deed → Prop
  | .post n => n.id ∉ used ∧ (n.mode = .queued → n.isStored)
  | .withdraw _ _ => True

def AllNew : List Id → List Deed → Prop
  | _, [] => True
  | used, .post n :: ds => IsNew used (.post n) ∧ AllNew (n.id :: used) ds
  | used, .withdraw _ _ :: ds => AllNew used ds

theorem foldl_onItems (scopes : List Address) (items : List Event) (ds : List Deed) :
    ds.foldl (onItems scopes) items = items ++ (events ds).filter (isFor scopes) := by
  induction ds generalizing items with
  | nil => exact (List.append_nil _).symm
  | cons d ds ih =>
    rw [List.foldl_cons, ih, onItems, List.append_assoc, ← List.filter_append]
    rfl

end Deed

theorem allNew_sendDeeds {service : Service Memory} {used : List Id} {log : Log} {n : Notification}
    (hfresh : n.id ∉ used) (hst : n.mode = .queued → n.isStored) :
    Deed.AllNew used (service.sendDeeds log n) := by
  have hpost : Deed.AllNew used [.post n] := ⟨⟨hfresh, hst⟩, trivial⟩
  unfold Service.sendDeeds
  split
  · split
    · unfold replacement
      split
      · exact hpost
      · exact hpost
    · exact hpost
  · trivial

theorem Call.allNew {service : Service Memory} {now : Instant} {log : Log} {recent : Recent}
    {used : List Id} {c : Call} (hfresh : ∀ id, c.fresh? = some id → id ∉ used) :
    Deed.AllNew used (c.deeds service now log recent) := by
  cases c with
  | notify fresh target kind mode group payload =>
    simp only [deeds]
    split
    · trivial
    · refine allNew_sendDeeds (hfresh fresh rfl) fun hq => ?_
      have hq : mode = .queued := hq
      rw [hq]
      rfl
  | broadcast fresh kind group payload =>
    exact allNew_sendDeeds (hfresh fresh rfl) fun hq => by cases hq
  | dismiss id =>
    simp only [deeds, dismissDeeds]
    split
    · trivial
    · split
      · next s _ =>
        split
        · cases s.notification.target <;> trivial
        · trivial
      · trivial
  | dismissGroup a group =>
    simp only [deeds, dismissGroupDeeds]
    cases log.find? (Log.holdsQueued a group) <;> trivial

namespace Client.Follows
variable {scopes : List Address} {used : List Id} {log : Log} {items : List Event} {c : ConnectionId}
  {client : Client} (h : client.Follows scopes used log items c)
include h

theorem mono {used' : List Id} (hu : used ⊆ used') : client.Follows scopes used' log items c := by
  cases client with
  | opening left found =>
    have h : Opening scopes used log items left found := h
    exact { h with
      known := fun n hn => hu (h.known n hn)
      gone := fun id target hd => hu (h.gone id target hd) }
  | reading t held =>
    obtain ⟨hc, h⟩ := h
    exact ⟨hc, { h with
      known := List.Subset.trans h.known hu
      shown := List.Subset.trans h.shown hu }⟩
  | gone => exact h

theorem forget {log' : Log} (hsub : log'.Sublist log)
    (hkeep : ∀ s ∈ log, ∀ a ∈ scopes, s.notification.target = some a → s ∈ log') :
    client.Follows scopes used log' items c := by
  cases client with
  | opening left found => exact Opening.forget h hsub.subset hkeep
  | reading t held => exact ⟨h.1, h.2.forget hsub hkeep⟩
  | gone => exact h

/-- A client follows through some deeds, one after the other. -/
theorem deeds {now : Instant} {ds : List Deed} (hfit : Deed.AllFit now log ds)
    (hnew : Deed.AllNew used ds) {used' : List Id} (hu : used ⊆ used')
    (hpost : ∀ n, .post n ∈ ds → n.id ∈ used') :
    client.Follows scopes used' (Deed.logAfter now log ds) (ds.foldl (Deed.onItems scopes) items) c := by
  induction ds generalizing used log items with
  | nil => exact h.mono hu
  | cons d ds ih =>
    obtain ⟨hd, hfit⟩ := hfit
    have hrest : ∀ n, .post n ∈ ds → n.id ∈ used' := fun n hn =>
      hpost n (List.mem_cons_of_mem d hn)
    cases d with
    | post n =>
      obtain ⟨⟨hfresh, hst⟩, hnew⟩ := hnew
      refine ih ?_ hfit hnew (List.cons_subset.2 ⟨hpost n List.mem_cons_self, hu⟩) hrest
      cases client with
      | opening left found => exact Opening.post h hfresh hst
      | reading t held => exact ⟨h.1, h.2.post hfresh hst⟩
      | gone => exact h
    | withdraw id a =>
      refine ih ?_ hfit hnew hu hrest
      cases client with
      | opening left found => exact Opening.withdraw h hd
      | reading t held => exact ⟨h.1, h.2.withdraw hd⟩
      | gone => exact h

end Client.Follows

end Tidings
