import Tidings.Proofs.Clients
import Tidings.Proofs.Deeds
/-!
Between the registration of a connection and the first frame the store is read, one address after the
other, while deeds go on. What was found and what came into the queue together account for the log.
-/
namespace Tidings

/-- A reading of the store. -/
inductive Fetch where
  | queued (a : Address)
  | since (a : Address) (t : Instant)

namespace Fetch

def address : Fetch → Address
  | .queued a | .since a _ => a

def run {σ : Type} (service : Service σ) : Fetch → Service.Action σ (List Notification)
  | .queued a => service.queued a
  | .since a t => service.since a t

def onMemory (m : Memory) : Fetch → List Notification
  | .queued a => m.queued a
  | .since a t => m.since a t

def onLog (log : Log) : Fetch → List Notification
  | .queued a => log.queued a
  | .since a t => log.since a t

theorem onMemory_eq {m : Memory} {log : Log} (h : m.Represents log) (f : Fetch) :
    f.onMemory m = f.onLog log := by
  cases f with
  | queued a => exact h.queued_eq a
  | since a t => exact h.since_eq a t

end Fetch

theorem Log.mem_queued {a : Address} {log : Log} {n : Notification} :
    n ∈ log.queued a ↔ n.mode = .queued ∧ n.target = some a ∧ ∃ s ∈ log, s.notification = n := by
  rw [queued, byCreation, List.mem_insertionSort, List.mem_map]
  constructor
  · rintro ⟨s, hs, rfl⟩
    obtain ⟨hs, hp⟩ := List.mem_filter.1 hs
    simp only [isAt, Bool.and_eq_true, decide_eq_true_eq] at hp
    exact ⟨hp.2, hp.1, s, hs, rfl⟩
  · rintro ⟨hq, ha, s, hs, rfl⟩
    exact ⟨s, List.mem_filter.2 ⟨hs, by simp [isAt, hq, ha]⟩, rfl⟩

theorem Fetch.mem_onLog (log : Log) (f : Fetch) (n : Notification) (hn : n ∈ f.onLog log) :
    n.target = some f.address ∧ ∃ s ∈ log, s.notification = n := by
  cases f with
  | queued a => exact (Log.mem_queued.1 hn).2
  | since a t =>
    rw [onLog, Log.since, Log.byCreation, List.mem_insertionSort, List.mem_map] at hn
    obtain ⟨s, hs, rfl⟩ := hn
    obtain ⟨hs, hp⟩ := List.mem_filter.1 hs
    simp only [Log.isAt, Bool.and_eq_true, decide_eq_true_eq] at hp
    exact ⟨hp.1, s, hs, rfl⟩

/-- The readings that the opening of a stream makes, in their order. -/
def fetches (since : Option Instant) (scopes : List Address) : List Fetch :=
  scopes.flatMap fun a => .queued a :: (since.map (.since a)).toList

/-- Whether an event goes to a connection that belongs to some addresses. -/
def isFor (scopes : List Address) (e : Event) : Bool := e.target.all (· ∈ scopes)

/-- What stands in the queue of such a connection after a deed. -/
def Deed.onItems (scopes : List Address) (items : List Event) (d : Deed) : List Event :=
  items ++ [d.event].filter (isFor scopes)

theorem Deed.onItems_of_isFor {scopes : List Address} {d : Deed} (h : isFor scopes d.event)
    (items : List Event) : d.onItems scopes items = items ++ [d.event] := by
  rw [onItems, List.filter_cons_of_pos h, List.filter_nil]

theorem Deed.onItems_of_not_isFor {scopes : List Address} {d : Deed} (h : ¬ isFor scopes d.event)
    (items : List Event) : d.onItems scopes items = items := by
  rw [onItems, List.filter_cons_of_neg h, List.filter_nil, List.append_nil]

theorem Deed.mem_onItems {scopes : List Address} {items : List Event} {d : Deed} {e : Event} :
    e ∈ d.onItems scopes items ↔ e ∈ items ∨ e = d.event ∧ isFor scopes d.event := by
  rw [onItems, List.mem_append, List.mem_filter, List.mem_singleton]
  constructor
  · rintro (h | ⟨rfl, h⟩)
    · exact .inl h
    · exact .inr ⟨rfl, h⟩
  · rintro (h | ⟨rfl, h⟩)
    · exact .inl h
    · exact .inr ⟨rfl, h⟩

theorem Deed.notify_mem_onItems_post {scopes : List Address} {items : List Event} {m n : Notification} :
    .notify m ∈ (Deed.post n).onItems scopes items ↔
      .notify m ∈ items ∨ m = n ∧ isFor scopes (.notify n) := by
  rw [Deed.mem_onItems, Deed.event, Event.notify.injEq]

theorem Deed.dismissed_mem_onItems_post {scopes : List Address} {items : List Event}
    {n : Notification} {id : Id} {target : Option Address} :
    .dismissed id target ∈ (Deed.post n).onItems scopes items ↔ .dismissed id target ∈ items := by
  simp [Deed.mem_onItems, Deed.event]

theorem Deed.notify_mem_onItems_withdraw {scopes : List Address} {items : List Event} {id : Id}
    {a : Address} {m : Notification} :
    .notify m ∈ (Deed.withdraw id a).onItems scopes items ↔ .notify m ∈ items := by
  simp [Deed.mem_onItems, Deed.event]

theorem Deed.dismissed_mem_onItems_withdraw {scopes : List Address} {items : List Event}
    {id id' : Id} {a : Address} {target : Option Address} :
    .dismissed id' target ∈ (Deed.withdraw id a).onItems scopes items ↔
      .dismissed id' target ∈ items ∨
        (id' = id ∧ target = some a) ∧ isFor scopes (.dismissed id (some a)) := by
  rw [Deed.mem_onItems, Deed.event, Event.dismissed.injEq]

theorem Deed.mem_onLog_post {now : Instant} {log : Log} {n : Notification} {s : Stored} :
    s ∈ (Deed.post n).onLog now log ↔ s ∈ log ∨ n.isStored ∧ s = ⟨n, now⟩ := by
  by_cases hst : n.isStored
  · simp [onLog, hst]
  · simp [onLog, hst]

theorem Deed.mem_onLog_withdraw {now : Instant} {log : Log} {id : Id} {a : Address} {s : Stored} :
    s ∈ (Deed.withdraw id a).onLog now log ↔ s ∈ log ∧ s.notification.id ≠ id := by
  rw [onLog, Log.mem_without, Log.hasId, decide_eq_false_iff_not]

/-- A queued notification that is stored at one of some addresses. -/
def Awaited (scopes : List Address) (log : Log) (n : Notification) : Prop :=
  n.mode = .queued ∧ (∃ a ∈ scopes, n.target = some a) ∧ ∃ s ∈ log, s.notification = n

/-- A notification was found, came into the queue, or is stored. -/
def Known (log : Log) (items : List Event) (found : List Notification) (n : Notification) : Prop :=
  n ∈ found ∨ .notify n ∈ items ∨ ∃ s ∈ log, s.notification = n

namespace Known
variable {scopes : List Address} {log : Log} {items : List Event} {found : List Notification}
  {now : Instant} {m : Notification}

/-- A reading brings up nothing that is not stored. -/
theorem of_fetch {f : Fetch} (h : Known log items (found ++ f.onLog log) m) :
    Known log items found m := by
  rcases h with hm | hm
  · rcases List.mem_append.1 hm with hm | hm
    · exact .inl hm
    · exact .inr (.inr (f.mem_onLog log m hm).2)
  · exact .inr hm

theorem of_subset {log' : Log} (hsub : log' ⊆ log) (h : Known log' items found m) :
    Known log items found m := by
  rcases h with hm | hm | ⟨s, hs, rfl⟩
  · exact .inl hm
  · exact .inr (.inl hm)
  · exact .inr (.inr ⟨s, hsub hs, rfl⟩)

theorem of_post {n : Notification}
    (h : Known ((Deed.post n).onLog now log) ((Deed.post n).onItems scopes items) found m) :
    Known log items found m ∨ m = n := by
  rcases h with hm | hm | ⟨s, hs, rfl⟩
  · exact .inl (.inl hm)
  · rcases Deed.notify_mem_onItems_post.1 hm with hm | ⟨rfl, _⟩
    · exact .inl (.inr (.inl hm))
    · exact .inr rfl
  · rcases Deed.mem_onLog_post.1 hs with hs | ⟨_, rfl⟩
    · exact .inl (.inr (.inr ⟨s, hs, rfl⟩))
    · exact .inr rfl

theorem of_withdraw {id : Id} {a : Address}
    (h : Known ((Deed.withdraw id a).onLog now log) ((Deed.withdraw id a).onItems scopes items) found m) :
    Known log items found m := by
  rcases h with hm | hm | ⟨s, hs, rfl⟩
  · exact .inl hm
  · exact .inr (.inl (Deed.notify_mem_onItems_withdraw.1 hm))
  · exact .inr (.inr ⟨s, (Deed.mem_onLog_withdraw.1 hs).1, rfl⟩)

end Known

/-- What an opening keeps. Everything queued that is stored was found, came into the queue or will be
found; of what is not stored any more the queue has the withdrawal, and it stands behind the notice. -/
structure Opening (scopes : List Address) (used : List Id) (log : Log) (items : List Event)
    (left : List Fetch) (found : List Notification) : Prop where
  inScopes : ∀ f ∈ left, f.address ∈ scopes
  known : ∀ n, Known log items found n → n.id ∈ used
  unique : ∀ n m, Known log items found n → Known log items found m → n.id = m.id → n = m
  gone : ∀ id target, .dismissed id target ∈ items → id ∈ used
  stored : ∀ s ∈ log, ∀ target, .dismissed s.notification.id target ∉ items
  reached : ∀ n, Awaited scopes log n →
    n ∈ found ∨ .notify n ∈ items ∨ ∃ a, n.target = some a ∧ .queued a ∈ left
  heard : ∀ n, n.mode = .queued → n ∈ found ∨ .notify n ∈ items → ∃ a ∈ scopes, n.target = some a
  withdrawn : ∀ n, n.mode = .queued → n ∈ found ∨ .notify n ∈ items →
    (∃ s ∈ log, s.notification = n) ∨ ∃ target, .dismissed n.id target ∈ items
  order : items.Pairwise fun e e' => ∀ id target n, e = .dismissed id target → e' = .notify n → n.id ≠ id

namespace Opening
variable {scopes : List Address} {used : List Id} {log : Log} {items : List Event}
  {left : List Fetch} {found : List Notification}

/-- At the registration nothing was read and nothing has happened. -/
theorem initial (hlog : log.Sound) (hused : log.ids ⊆ used) (since : Option Instant) :
    Opening scopes used log [] (fetches since scopes) [] where
  inScopes f hf := by
    obtain ⟨a, ha, hf⟩ := List.mem_flatMap.1 hf
    cases since with
    | none => rwa [List.mem_singleton.1 hf]
    | some t =>
      rcases List.mem_cons.1 hf with rfl | hf
      · exact ha
      · rwa [List.mem_singleton.1 hf]
  known n hn := by
    obtain ⟨s, hs, rfl⟩ : ∃ s ∈ log, s.notification = n := by simpa [Known] using hn
    exact hused (List.mem_map_of_mem hs)
  unique n m hn hm hid := by
    obtain ⟨s, hs, rfl⟩ : ∃ s ∈ log, s.notification = n := by simpa [Known] using hn
    obtain ⟨t, ht, rfl⟩ : ∃ s ∈ log, s.notification = m := by simpa [Known] using hm
    rw [hlog.eq_of_id hs ht hid]
  gone _ _ h := absurd h List.not_mem_nil
  stored _ _ _ := List.not_mem_nil
  reached n hn := by
    obtain ⟨_, ⟨a, ha, hta⟩, _⟩ := hn
    refine .inr (.inr ⟨a, hta, List.mem_flatMap.2 ⟨a, ha, List.mem_cons_self⟩⟩)
  heard _ _ h := by simp at h
  withdrawn _ _ h := by simp at h
  order := List.Pairwise.nil

variable (h : Opening scopes used log items left found)
include h

/-- The order of the queue only asks something of a notice that is added to it. -/
theorem order_onItems {d : Deed}
    (hd : ∀ n, d.event = .notify n → ∀ id target, .dismissed id target ∈ items → n.id ≠ id) :
    (d.onItems scopes items).Pairwise fun e e' =>
      ∀ id target n, e = .dismissed id target → e' = .notify n → n.id ≠ id := by
  refine List.pairwise_append.2 ⟨h.order, (List.pairwise_singleton _ _).filter _, ?_⟩
  rintro e he e' he' id target n rfl rfl
  exact hd n (List.mem_singleton.1 (List.mem_filter.1 he').1).symm id target he

/-- A reading finds what is stored. -/
theorem fetch {f : Fetch} {rest : List Fetch} (hl : left = f :: rest) :
    Opening scopes used log items rest (found ++ f.onLog log) := by
  have hscope : f.address ∈ scopes := h.inScopes f (by rw [hl]; exact List.mem_cons_self)
  exact {
    inScopes := fun f' hf' => h.inScopes f' (by rw [hl]; exact List.mem_cons_of_mem f hf')
    known := fun n hn => h.known n hn.of_fetch
    unique := fun n m hn hm => h.unique n m hn.of_fetch hm.of_fetch
    gone := h.gone
    stored := h.stored
    reached := by
      intro n hn
      rcases h.reached n hn with hfound | hitem | ⟨a, ha, hleft⟩
      · exact .inl (List.mem_append_left _ hfound)
      · exact .inr (.inl hitem)
      · rw [hl] at hleft
        rcases List.mem_cons.1 hleft with hf | hleft
        · -- This is the reading that finds it.
          left
          rw [← hf]
          exact List.mem_append_right _ (Log.mem_queued.2 ⟨hn.1, ha, hn.2.2⟩)
        · exact .inr (.inr ⟨a, ha, hleft⟩)
    heard := by
      rintro n hq (hn | hn)
      · rcases List.mem_append.1 hn with hn | hn
        · exact h.heard n hq (.inl hn)
        · exact ⟨f.address, hscope, (f.mem_onLog log n hn).1⟩
      · exact h.heard n hq (.inr hn)
    withdrawn := by
      rintro n hq (hn | hn)
      · rcases List.mem_append.1 hn with hn | hn
        · exact h.withdrawn n hq (.inl hn)
        · exact .inl (f.mem_onLog log n hn).2
      · exact h.withdrawn n hq (.inr hn)
    order := h.order }

/-- That fewer things are stored at other addresses makes no difference. -/
theorem forget {log' : Log} (hsub : log' ⊆ log)
    (hkeep : ∀ s ∈ log, ∀ a ∈ scopes, s.notification.target = some a → s ∈ log') :
    Opening scopes used log' items left found where
  inScopes := h.inScopes
  known n hn := h.known n (hn.of_subset hsub)
  unique n m hn hm := h.unique n m (hn.of_subset hsub) (hm.of_subset hsub)
  gone := h.gone
  stored s hs := h.stored s (hsub hs)
  reached := fun n ⟨hq, ha, s, hs, heq⟩ => h.reached n ⟨hq, ha, s, hsub hs, heq⟩
  heard := h.heard
  withdrawn n hq hn := by
    rcases h.withdrawn n hq hn with ⟨s, hs, rfl⟩ | hgone
    · obtain ⟨a, ha, hta⟩ := h.heard s.notification hq hn
      exact .inl ⟨s, hkeep s hs a ha hta, rfl⟩
    · exact .inr hgone
  order := h.order

/-- A new identifier is not that of anything known. -/
theorem unique_post {n : Notification} {now : Instant} (hfresh : n.id ∉ used) (m m' : Notification)
    (hm : Known ((Deed.post n).onLog now log) ((Deed.post n).onItems scopes items) found m)
    (hm' : Known ((Deed.post n).onLog now log) ((Deed.post n).onItems scopes items) found m')
    (hid : m.id = m'.id) : m = m' := by
  have hnew : ∀ m, Known log items found m → m.id ≠ n.id := fun m hm heq =>
    hfresh (heq ▸ h.known m hm)
  rcases hm.of_post with hold | rfl
  · rcases hm'.of_post with hold' | rfl
    · exact h.unique m m' hold hold' hid
    · exact absurd hid (hnew m hold)
  · rcases hm'.of_post with hold' | rfl
    · exact absurd hid.symm (hnew m' hold')
    · rfl

/-- A notification with a new identifier comes into the queue of whoever it is for. -/
theorem post {n : Notification} {now : Instant} (hfresh : n.id ∉ used)
    (hst : n.mode = .queued → n.isStored) :
    Opening scopes (n.id :: used) ((Deed.post n).onLog now log)
      ((Deed.post n).onItems scopes items) left found where
  inScopes := h.inScopes
  known m hm := by
    rcases hm.of_post with hm | rfl
    · exact List.mem_cons_of_mem _ (h.known m hm)
    · exact List.mem_cons_self
  unique := h.unique_post hfresh
  gone id target hd :=
    List.mem_cons_of_mem _ (h.gone id target (Deed.dismissed_mem_onItems_post.1 hd))
  stored s hs target hd := by
    have hd := Deed.dismissed_mem_onItems_post.1 hd
    rcases Deed.mem_onLog_post.1 hs with hs | ⟨_, rfl⟩
    · exact h.stored s hs target hd
    · exact hfresh (h.gone n.id target hd)
  reached := by
    rintro m ⟨hq, ⟨a, ha, hta⟩, s, hs, rfl⟩
    rcases Deed.mem_onLog_post.1 hs with hs | ⟨_, rfl⟩
    · rcases h.reached s.notification ⟨hq, ⟨a, ha, hta⟩, s, hs, rfl⟩ with hf | hi | hl
      · exact .inl hf
      · exact .inr (.inl (Deed.notify_mem_onItems_post.2 (.inl hi)))
      · exact .inr (.inr hl)
    · refine .inr (.inl (Deed.notify_mem_onItems_post.2 (.inr ⟨rfl, ?_⟩)))
      have hta : n.target = some a := hta
      simp [isFor, Event.target, hta, ha]
  heard := by
    rintro m hq (hm | hm)
    · exact h.heard m hq (.inl hm)
    · rcases Deed.notify_mem_onItems_post.1 hm with hm | ⟨rfl, hfor⟩
      · exact h.heard m hq (.inr hm)
      · obtain ⟨a, ha, _⟩ := Log.exists_target (s := ⟨m, now⟩) (hst hq)
        have ha : m.target = some a := ha
        exact ⟨a, by simpa [isFor, Event.target, ha] using hfor, ha⟩
  withdrawn m hq hm := by
    have hshown : (m ∈ found ∨ .notify m ∈ items) ∨ m = n := by
      rcases hm with hm | hm
      · exact .inl (.inl hm)
      · exact (Deed.notify_mem_onItems_post.1 hm).imp .inr And.left
    rcases hshown with hm | rfl
    · rcases h.withdrawn m hq hm with ⟨s, hs, heq⟩ | ⟨target, hd⟩
      · exact .inl ⟨s, Deed.mem_onLog_post.2 (.inl hs), heq⟩
      · exact .inr ⟨target, Deed.dismissed_mem_onItems_post.2 hd⟩
    · exact .inl ⟨⟨m, now⟩, Deed.mem_onLog_post.2 (.inr ⟨hst hq, rfl⟩), rfl⟩
  order := by
    refine h.order_onItems fun m heq id target hd hid => ?_
    obtain rfl := Event.notify.inj heq
    exact hfresh (hid ▸ h.gone id target hd)

/-- A withdrawal takes an entry out of the log and comes into the queue of whoever it is for. -/
theorem withdraw {id : Id} {a : Address} {now : Instant} (hfit : (Deed.withdraw id a).Fits log) :
    Opening scopes used ((Deed.withdraw id a).onLog now log)
      ((Deed.withdraw id a).onItems scopes items) left found := by
  obtain ⟨x, hx, rfl, hxa⟩ := hfit
  have hknown : Known log items found x.notification := .inr (.inr ⟨x, hx, rfl⟩)
  have hshown : ∀ n, n ∈ found ∨ .notify n ∈ (Deed.withdraw x.notification.id a).onItems scopes items →
      n ∈ found ∨ .notify n ∈ items := fun n hn => hn.imp_right Deed.notify_mem_onItems_withdraw.1
  exact {
    inScopes := h.inScopes
    known := fun n hn => h.known n hn.of_withdraw
    unique := fun n m hn hm => h.unique n m hn.of_withdraw hm.of_withdraw
    gone := by
      intro id target hd
      rcases Deed.dismissed_mem_onItems_withdraw.1 hd with hd | ⟨⟨rfl, _⟩, _⟩
      · exact h.gone id target hd
      · exact h.known x.notification hknown
    stored := by
      intro s hs target hd
      obtain ⟨hs, hne⟩ := Deed.mem_onLog_withdraw.1 hs
      rcases Deed.dismissed_mem_onItems_withdraw.1 hd with hd | ⟨⟨hid, _⟩, _⟩
      · exact h.stored s hs target hd
      · exact hne hid
    reached := by
      rintro n ⟨hq, ha, s, hs, rfl⟩
      rcases h.reached s.notification ⟨hq, ha, s, (Deed.mem_onLog_withdraw.1 hs).1, rfl⟩ with hf | hi | hl
      · exact .inl hf
      · exact .inr (.inl (Deed.notify_mem_onItems_withdraw.2 hi))
      · exact .inr (.inr hl)
    heard := fun n hq hn => h.heard n hq (hshown n hn)
    withdrawn := by
      intro n hq hn
      have hold := hshown n hn
      rcases h.withdrawn n hq hold with ⟨s, hs, rfl⟩ | ⟨target, hd⟩
      · by_cases hid : s.notification.id = x.notification.id
        · -- What is withdrawn is at an address of the connection, so the connection is told.
          have heq := h.unique _ _ (.inr (.inr ⟨s, hs, rfl⟩)) hknown hid
          obtain ⟨b, hb, htb⟩ := h.heard s.notification hq hold
          rw [heq, hxa] at htb
          refine .inr ⟨some a, Deed.dismissed_mem_onItems_withdraw.2 (.inr ⟨⟨hid, rfl⟩, ?_⟩)⟩
          simpa [isFor, Event.target, Option.some.inj htb] using hb
        · exact .inl ⟨s, Deed.mem_onLog_withdraw.2 ⟨hs, hid⟩, rfl⟩
      · exact .inr ⟨target, Deed.dismissed_mem_onItems_withdraw.2 (.inl hd)⟩
    order := h.order_onItems fun n heq => by cases heq }

end Opening

end Tidings
