import Tidings.Backend.Durable
import Tidings.Proofs.Attempts
import Tidings.Proofs.Roll
import Tidings.Service
/-!
Notifications kept in a database. What clients and other instances are told is what one committed
transaction did.
-/
namespace Tidings
open Database

/-- Stores its notifications in a database that is a part of its state. -/
def Backend.StoresRows {σ : Type} (b : Backend σ) (part : σ → Session)
    (replace : σ → Session → σ) : Prop :=
  ∀ now n, b.store now n = (Database.store n).within part replace

theorem Backend.storesRows_ofRows {σ : Type} (kind : BackendKind) (part : σ → Session)
    (replace : σ → Session → σ) (publish : Message → Access σ Unit) (check : Access σ Unit) :
    (Backend.ofRows kind part replace publish check).StoresRows part replace :=
  fun _ _ => rfl

/-- Publishes the messages of an instance for some events, one after the other, whatever comes of each. -/
def Backend.publishAll {σ : Type} (b : Backend σ) (origin : Id) (es : List Event) (store : σ) : σ :=
  es.foldl (fun store e => (b.publish ⟨origin, e⟩ store).2) store

/-- The channel and the text of a statement that publishes. -/
def Database.Statement.published? : Statement → Option (String × String)
  | .notify channel payload => some (channel, payload)
  | _ => none

namespace Service
variable {σ : Type} (service : Service σ)

/-- Emits some events, one after the other. -/
def emitAll (now : Instant) (es : List Event) (s : State σ) : State σ :=
  es.foldl (fun s e => service.emit now e s) s

/-- What is emitted is delivered here and published. -/
theorem emitAll_eq (now : Instant) (es : List Event) (s : State σ) :
    service.emitAll now es s = { s with
      store := service.backend.publishAll service.id es s.store
      registry := s.registry.deliverAll now es } := by
  induction es generalizing s with
  | nil => rfl
  | cons e es ih => exact ih (service.emit now e s)

theorem dispatch_eq {n : Notification} {a : Address} (ha : n.target = some a)
    (hmode : n.mode.isPersisted) (hp : problem? n = none)
    (hv : service.hooks.beforeSend n ≠ .suppress) (now : Instant) (s : State σ) :
    service.dispatch now n s =
      match access (service.backend.store now n) s with
      | (.error fault, s) => (.error fault, s)
      | (.ok replaced, s) => (.ok (some n),
          (service.emitAll now ((replaced.map fun old => .dismissed old (some a)).toList ++
            [.notify n]) s).tell (.notify n)) := by
  simp only [dispatch, hp, if_neg hv, send, ha, hmode, if_true, sendStored]
  rcases access (service.backend.store now n) s with ⟨r, s⟩
  cases r with
  | error fault => rfl
  | ok replaced => cases replaced <;> rfl

/-- Storing makes one to three attempts, each in the order of the statements and no further than its first
failure; another one comes after a conflict, and after nothing else. The result is what the last attempt
committed. If there is none, nobody is told anything; otherwise every connection gets the withdrawal of what
that attempt deleted and then the notice, as far as they are for it, and the same two are published. -/
theorem dispatch_of_one_commit {part : σ → Session} {replace : σ → Session → σ}
    (hb : service.backend.StoresRows part replace) {n : Notification} {a : Address}
    (ha : n.target = some a) (hmode : n.mode.isPersisted) (hp : problem? n = none)
    (hv : service.hooks.beforeSend n ≠ .suppress) (now : Instant) (s : State σ) (capacity : Nat)
    (xs : List Registry.Act) (hreached : s.registry = Registry.Act.runAll xs (.ofCapacity capacity)) :
    ∃ (ts : List Attempt) (db : Session) (r : Except Fault (Option Id)),
      Database.store n (part s.store) = (r, db) ∧ Conducted (part s.store) ts db ∧
      ((part s.store).link = .up → db.sent = (part s.store).sent ++ ts.flatMap fun t =>
        t.statements ++ if t.rolledBack then [.rollback] else []) ∧
      db.pauses = (part s.store).pauses ++ [20, 40].take (ts.length - 1) ∧
      ts ≠ [] ∧ ts.length ≤ 3 ∧ (∀ t ∈ ts, t.Follows (storePlan a n)) ∧
      (∀ i (hi : i < ts.length), i + 1 < ts.length ↔ ts[i].isConflict ∧ i + 1 < 3) ∧
      ts.map (·.pause) = ([20, 40].take (ts.length - 1)).map some ++ [none] ∧
      (∀ replaced, r = .ok replaced ↔
        ∃ t ∈ ts.getLast?, t.isCommitted ∧ t.deleted? = replaced) ∧
      match r with
      | .error fault => service.dispatch now n s = (.error fault, s.withStore (replace s.store db))
      | .ok replaced =>
        let events : List Event := match replaced with
          | none => [.notify n]
          | some old => [.dismissed old (some a), .notify n]
        ∃ s', service.dispatch now n s = (.ok (some n), s') ∧
          (∀ c, s'.registry.queues.get? c = (s.registry.queues.get? c).map fun q =>
            (events.filter fun e => s.registry.hears c e.target).foldl Queue.push q) ∧
          s'.store = service.backend.publishAll service.id events (replace s.store db) ∧
          s'.recent = s.recent ∧ s'.told = s.told ++ [.notify n] := by
  obtain ⟨ts, hts, htried, hlast⟩ := store_tried ha hmode (part s.store)
  obtain ⟨r, db, hr⟩ : ∃ r db, Database.store n (part s.store) = (r, db) := ⟨_, _, rfl⟩
  rw [hr] at hts hlast
  have hpauses := hts.pauses_eq
  rw [htried.filterMap_pause] at hpauses
  refine ⟨ts, db, r, hr, hts, hts.sent_eq, hpauses, htried.ne_nil, htried.length_le, htried.follows,
    ?_, htried.pauses_eq, hlast, ?_⟩
  · intro i hi
    exact (htried.again_iff i hi).trans (and_congr_right fun _ => Nat.succ_lt_succ_iff.symm)
  · have haccess : access (service.backend.store now n) s =
        (r, s.withStore (replace s.store db)) := by
      rw [hb now n, access, Access.within, Access.within, hr]
    have hsound : s.registry.Sound := hreached ▸ (Registry.sound_ofCapacity capacity).runAll xs
    rw [dispatch_eq service ha hmode hp hv, haccess]
    cases r with
    | error fault => rfl
    | ok replaced =>
      dsimp only
      rw [emitAll_eq]
      cases replaced with
      | none => exact ⟨_, rfl, Registry.got_deliverAll now _ hsound, rfl, rfl, rfl⟩
      | some old => exact ⟨_, rfl, Registry.got_deliverAll now _ hsound, rfl, rfl, rfl⟩

/-- The first attempt deletes a holder and loses against another transaction; the second deletes another. The
only connection and the other instances hear of that one, and of the first not at all. -/
theorem dispatch_of_one_commit_of_conflict :
    let a : Address := ⟨.session, "s"⟩
    let n : Notification := .create ⟨1⟩ .epoch (some a) "note" .queued (some "g") []
    let service : Service Session := ⟨⟨0⟩, {}, Backend.postgres, Hooks.none⟩
    let db : Session := ⟨.up, [⟨none, .empty⟩, ⟨none, .rows [[("id", .id ⟨2⟩)]] none⟩,
      ⟨none, .empty⟩, ⟨some "COMMIT", .refused (some "40001") "could not serialize access"⟩,
      ⟨none, .empty⟩, ⟨none, .rows [[("id", .id ⟨3⟩)]] none⟩], [], []⟩
    let xs : List Registry.Act := [.register .epoch [a]]
    let s : State Session := { initial {} db with registry := Registry.Act.runAll xs (.ofCapacity 256) }
    let events : List Event := [.dismissed ⟨3⟩ (some a), .notify n]
    service.backend.StoresRows (fun db => db) (fun _ db => db) ∧ n.target = some a ∧
      n.mode.isPersisted ∧ problem? n = none ∧ service.hooks.beforeSend n ≠ .suppress ∧
      ∃ (ts : List Attempt) (s' : State Session), ts.length = 2 ∧
        (∃ t ∈ ts.getLast?, t.isCommitted ∧ t.deleted? = some ⟨3⟩) ∧
        service.dispatch .epoch n s = (.ok (some n), s') ∧
        s'.registry.queues.get? 0 = some (events.foldl Queue.push (Queue.ofSize 256)) ∧
        s'.store.sent.filterMap Statement.published? = events.map fun e =>
          (Defaults.notifyChannel, (Envelope.inline ⟨⟨0⟩, e⟩).text) := by
  intro a n service db xs s events
  have hb : service.backend.StoresRows (fun db => db) (fun _ db => db) :=
    Backend.storesRows_ofRows _ _ _ _ _
  have hp : problem? n = none := by decide
  have hv : service.hooks.beforeSend n ≠ .suppress := by decide
  obtain ⟨ts, db', r, hr, hts, _, hpauses, _, _, _, _, _, hlast, hresult⟩ :=
    dispatch_of_one_commit service hb (a := a) rfl rfl hp hv .epoch s 256 xs rfl
  have hok : r = .ok (some ⟨3⟩) := (congrArg Prod.fst hr).symm
  have hdb : db' = (Database.store n db).2 := (congrArg Prod.snd hr).symm
  have hpaused : db'.pauses = [20] := hdb ▸ rfl
  have htaken : [20] = [20, 40].take (ts.length - 1) := hpaused.symm.trans hpauses
  have hlen : 1 = min (ts.length - 1) 2 := by simpa using congrArg List.length htaken
  subst hok
  obtain ⟨s', hdispatch, hqueues, hstore, _⟩ := hresult
  have hpublished : (Backend.postgres.publishAll ⟨0⟩ events (Database.store n db).2).sent.filterMap
      Statement.published? = events.map fun e =>
        (Defaults.notifyChannel, (Envelope.inline ⟨⟨0⟩, e⟩).text) := by
    decide +kernel
  refine ⟨hb, rfl, rfl, hp, hv, ts, s', by omega, (hlast (some ⟨3⟩)).1 rfl, hdispatch, hqueues 0, ?_⟩
  rw [hstore, hdb]
  exact hpublished

end Service

end Tidings
