import Tidings.Stream
/-!
What a stream has ahead of it. Its frames are laid down by what it has still to replay and by its queue;
reading gives them in order, and reading without a limit gives them all.
-/
namespace Tidings.Stream

/-- What a stream makes of the entries of its queue: of each identifier shown before, the first notice is
left out. -/
def live (shown : List Id) : List Event → List Frame
  | [] => []
  | .notify n :: rest =>
    if n.id ∈ shown then live (shown.filter (· ≠ n.id)) rest
    else .message (.notify n) :: live shown rest
  | .dismissed id target :: rest => .message (.dismissed id target) :: live shown rest

def notices (ns : List Notification) : List Frame := ns.map fun n => .message (.notify n)

/-- All frames that a stream has still to give. -/
def ahead (t : Stream) (items : List Event) : List Frame :=
  notices t.replay ++ ((if t.synced then [] else [.sync]) ++ live t.shown items)

/-- The steps that a stream has still to take before it waits or ends. -/
def todo (t : Stream) (q : Queue Event) : Nat :=
  t.replay.length + ((if t.synced then 0 else 1) + q.backlog)

def Step.frames : Step → List Frame
  | .frame f => [f]
  | _ => []

/-- Some frames were taken off those ahead, and nothing else was lost. -/
structure Passed (t : Stream) (q : Queue Event) (frames : List Frame) (t' : Stream)
    (q' : Queue Event) : Prop where
  ahead : t.ahead q.items = frames ++ t'.ahead q'.items
  shown : t'.shown ⊆ t.shown
  connection : t'.connection = t.connection
  lost : q'.lost ≤ q.lost

theorem Passed.refl (t : Stream) (q : Queue Event) : Passed t q [] t q :=
  ⟨rfl, List.Subset.refl _, rfl, Nat.le_refl _⟩

theorem Passed.trans {t t' t'' : Stream} {q q' q'' : Queue Event} {fs gs : List Frame}
    (h : Passed t q fs t' q') (h' : Passed t' q' gs t'' q'') : Passed t q (fs ++ gs) t'' q'' where
  ahead := by rw [h.ahead, h'.ahead, List.append_assoc]
  shown := List.Subset.trans h'.shown h.shown
  connection := h'.connection.trans h.connection
  lost := Nat.le_trans h'.lost h.lost

theorem ahead_of_todo_eq_zero {t : Stream} {q : Queue Event} (h : t.todo q = 0) :
    t.ahead q.items = [] := by
  unfold todo Queue.backlog at h
  have hreplay : t.replay = [] := List.eq_nil_of_length_eq_zero (by omega)
  have hitems : q.items = [] := List.eq_nil_of_length_eq_zero (by omega)
  have hsynced : t.synced := by
    by_cases hs : t.synced
    · exact hs
    · rw [if_neg hs] at h
      omega
  simp [ahead, notices, hreplay, hitems, hsynced, live]

/-- What a step does when the replay is over: the queue is read. -/
theorem step_of_synced {t : Stream} (hr : t.replay = []) (hs : t.synced) (q : Queue Event) :
    t.step q = match q.receive with
      | (.item (.notify n), q) =>
        if n.id ∈ t.shown then (.silent, { t with shown := t.shown.filter (· ≠ n.id) }, q)
        else (.frame (.message (.notify n)), t, q)
      | (.item (.dismissed id target), q) => (.frame (.message (.dismissed id target)), t, q)
      | (.lagged _, q) => (.silent, t, q)
      | (.closed, q) => (.ended, t, q)
      | (.nothing, q) => (.waiting, t, q) := by
  unfold step
  simp only [hr, hs, if_true]
  rcases q.receive with ⟨received, q'⟩
  cases received with
  | item e => cases e <;> rfl
  | lagged n => rfl
  | closed => rfl
  | nothing => rfl

/-- What a step takes: one frame or none. Either less is to be done after it, or nothing was ahead. -/
def Advances (t : Stream) (q : Queue Event) (r : Step × Stream × Queue Event) : Prop :=
  Passed t q r.1.frames r.2.1 r.2.2 ∧
    (((r.1 = .waiting ∨ r.1 = .ended) ∧ t.ahead q.items = []) ∨
      ((r.1 = .silent ∨ ∃ f, r.1 = .frame f) ∧ r.2.1.todo r.2.2 < t.todo q))

/-- A step that reads the queue. -/
theorem advances_queue {t : Stream} (hr : t.replay = []) (hs : t.synced) (q : Queue Event) :
    Advances t q (t.step q) := by
  rw [step_of_synced hr hs]
  have hahead (t' : Stream) (hr' : t'.replay = []) (hs' : t'.synced) (items : List Event) :
      t'.ahead items = live t'.shown items := by
    simp [ahead, notices, hr', hs']
  by_cases hl : 0 < q.lost
  · have hrec : q.receive = (.lagged q.lost, { q with lost := 0 }) := if_pos hl
    rw [hrec]
    refine ⟨⟨rfl, List.Subset.refl _, rfl, Nat.zero_le _⟩, .inr ⟨.inl rfl, ?_⟩⟩
    simp [todo, hr, hs, Queue.backlog, hl]
  · cases hi : q.items with
    | nil =>
      have hrec : q.receive = (if q.closed then .closed else .nothing, q) := by
        rw [Queue.receive, if_neg hl, hi]
      have hnone : t.ahead q.items = [] := by rw [hahead t hr hs, hi, live]
      rw [hrec]
      cases q.closed with
      | true => exact ⟨Passed.refl t q, .inl ⟨.inr rfl, hnone⟩⟩
      | false => exact ⟨Passed.refl t q, .inl ⟨.inl rfl, hnone⟩⟩
    | cons e rest =>
      have hrec : q.receive = (.item e, { q with items := rest }) := by
        rw [Queue.receive, if_neg hl, hi]
      have hless (t' : Stream) (hr' : t'.replay = []) (hs' : t'.synced) :
          t'.todo { q with items := rest } < t.todo q := by
        simp [todo, hr, hs, hr', hs', Queue.backlog, hl, hi]
      rw [hrec]
      cases e with
      | dismissed id target =>
        refine ⟨⟨?_, List.Subset.refl _, rfl, Nat.le_refl _⟩, .inr ⟨.inr ⟨_, rfl⟩, hless t hr hs⟩⟩
        simp only [hahead t hr hs, hi, live, Step.frames, List.singleton_append]
      | notify n =>
        by_cases hn : n.id ∈ t.shown
        · simp only [if_pos hn]
          refine ⟨⟨?_, List.filter_sublist.subset, rfl, Nat.le_refl _⟩, .inr ⟨.inl rfl, hless _ hr hs⟩⟩
          have hleft : t.ahead q.items = live (t.shown.filter (· ≠ n.id)) rest := by
            rw [hahead t hr hs, hi, live, if_pos hn]
          exact hleft.trans (hahead { t with shown := t.shown.filter (· ≠ n.id) } hr hs rest).symm
        · simp only [if_neg hn]
          refine ⟨⟨?_, List.Subset.refl _, rfl, Nat.le_refl _⟩, .inr ⟨.inr ⟨_, rfl⟩, hless t hr hs⟩⟩
          have hleft : t.ahead q.items = .message (.notify n) :: live t.shown rest := by
            rw [hahead t hr hs, hi, live, if_neg hn]
          exact hleft.trans (congrArg (List.cons _) (hahead t hr hs rest).symm)

theorem step_advances (t : Stream) (q : Queue Event) : Advances t q (t.step q) := by
  cases hr : t.replay with
  | cons n rest =>
    have hstep : t.step q = (.frame (.message (.notify n)), { t with replay := rest }, q) := by
      simp [step, hr]
    rw [hstep]
    refine ⟨⟨?_, List.Subset.refl _, rfl, Nat.le_refl _⟩, .inr ⟨.inr ⟨_, rfl⟩, ?_⟩⟩
    · simp [ahead, notices, hr, Step.frames]
    · simp [todo, hr]
  | nil =>
    by_cases hs : t.synced
    · exact advances_queue hr hs q
    · have hstep : t.step q = (.frame .sync, { t with synced := true }, q) := by
        simp [step, hr, hs]
      rw [hstep]
      refine ⟨⟨?_, List.Subset.refl _, rfl, Nat.le_refl _⟩, .inr ⟨.inr ⟨_, rfl⟩, ?_⟩⟩
      · simp [ahead, notices, hr, hs, Step.frames]
      · simp [todo, hr, hs]

/-- Steps take frames off those ahead, and with steps and frames enough they take all. -/
theorem readSteps_passed (steps limit : Nat) (t : Stream) (q : Queue Event) :
    Passed t q (readSteps steps limit t q).1.1 (readSteps steps limit t q).2.1
        (readSteps steps limit t q).2.2 ∧
      (t.todo q ≤ steps → t.todo q ≤ limit →
        (readSteps steps limit t q).2.1.ahead (readSteps steps limit t q).2.2.items = []) := by
  induction steps generalizing limit t q with
  | zero =>
    simp only [readSteps]
    exact ⟨Passed.refl t q, fun hsteps _ => ahead_of_todo_eq_zero (by omega)⟩
  | succ steps ih =>
    cases limit with
    | zero =>
      simp only [readSteps]
      exact ⟨Passed.refl t q, fun _ hlimit => ahead_of_todo_eq_zero (by omega)⟩
    | succ limit =>
      obtain ⟨hpassed, hrest⟩ := step_advances t q
      rcases hstep : t.step q with ⟨x, t', q'⟩
      rw [hstep] at hpassed hrest
      simp only [readSteps, hstep]
      cases x with
      | frame f =>
        obtain ⟨hp, hall⟩ := ih limit t' q'
        refine ⟨hpassed.trans hp, fun hsteps hlimit => hall ?_ ?_⟩ <;> simp at hrest <;> omega
      | silent =>
        obtain ⟨hp, hall⟩ := ih (limit + 1) t' q'
        refine ⟨hpassed.trans hp, fun hsteps hlimit => hall ?_ ?_⟩ <;> simp at hrest <;> omega
      | waiting =>
        have hnone : t.ahead q.items = [] := by simpa using hrest
        refine ⟨hpassed, fun _ _ => ?_⟩
        rw [← hnone, hpassed.ahead]
        rfl
      | ended =>
        have hnone : t.ahead q.items = [] := by simpa using hrest
        refine ⟨hpassed, fun _ _ => ?_⟩
        rw [← hnone, hpassed.ahead]
        rfl

/-- What is ahead grows at its end. A notice of what was never shown is not left out. -/
theorem live_append (shown : List Id) (items : List Event) (e : Event)
    (h : ∀ n, e = .notify n → n.id ∉ shown) :
    live shown (items ++ [e]) = live shown items ++ [.message e] := by
  induction items generalizing shown with
  | nil =>
    cases e with
    | notify n => simp [live, h n rfl]
    | dismissed id target => rfl
  | cons x rest ih =>
    cases x with
    | dismissed id target => simp [live, ih shown h]
    | notify m =>
      rw [List.cons_append, live, live]
      split
      · exact ih _ fun n hn hm => h n hn ((List.mem_filter.1 hm).1)
      · rw [ih shown h, List.cons_append]

theorem ahead_append (t : Stream) (items : List Event) (e : Event)
    (h : ∀ n, e = .notify n → n.id ∉ t.shown) :
    t.ahead (items ++ [e]) = t.ahead items ++ [.message e] := by
  rw [ahead, ahead, live_append t.shown items e h]
  simp only [List.append_assoc]

/-- The stream keeps the order of the queue. -/
theorem live_sublist (shown : List Id) (items : List Event) :
    (live shown items).Sublist (items.map .message) := by
  induction items generalizing shown with
  | nil => exact List.Sublist.refl _
  | cons x rest ih =>
    cases x with
    | dismissed id target => exact (ih shown).cons_cons _
    | notify n =>
      rw [live]
      split
      · exact (ih _).cons _
      · exact (ih shown).cons_cons _

theorem dismissed_mem_live {shown : List Id} {items : List Event} {id : Id} {target : Option Address}
    (h : .dismissed id target ∈ items) : .message (.dismissed id target) ∈ live shown items := by
  induction items generalizing shown with
  | nil => cases h
  | cons x rest ih =>
    cases x with
    | dismissed id' target' =>
      rcases List.mem_cons.1 h with h | h
      · cases h
        exact List.mem_cons_self
      · exact List.mem_cons_of_mem _ (ih h)
    | notify n =>
      have hrest : .dismissed id target ∈ rest := by simpa using h
      rw [live]
      split
      · exact ih hrest
      · exact List.mem_cons_of_mem _ (ih hrest)

theorem notify_mem_live {shown : List Id} {items : List Event} {n : Notification}
    (h : .notify n ∈ items) (hn : n.id ∉ shown) : .message (.notify n) ∈ live shown items := by
  induction items generalizing shown with
  | nil => cases h
  | cons x rest ih =>
    cases x with
    | dismissed id target =>
      have hrest : .notify n ∈ rest := by simpa using h
      exact List.mem_cons_of_mem _ (ih hrest hn)
    | notify m =>
      rw [live]
      rcases List.mem_cons.1 h with h | h
      · cases h
        rw [if_neg hn]
        exact List.mem_cons_self
      · split
        · exact ih h fun hm => hn ((List.mem_filter.1 hm).1)
        · exact List.mem_cons_of_mem _ (ih h hn)

end Tidings.Stream
