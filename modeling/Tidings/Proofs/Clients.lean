import Mathlib.Data.List.Nodup
import Tidings.Proofs.Frames
/-!
What a client makes of the frames of a stream: it holds the queued notifications that it was shown and that
were not dismissed since.
-/
namespace Tidings

/-- What a client holds after a frame. A queued notification is added, one that was dismissed is deleted. -/
def applyFrame (held : List Notification) : Frame → List Notification
  | .message (.notify n) =>
    if n.mode = .queued then held.filter (·.id ≠ n.id) ++ [n] else held
  | .message (.dismissed id _) => held.filter (·.id ≠ id)
  | .sync => held

def applyFrames (held : List Notification) (frames : List Frame) : List Notification :=
  frames.foldl applyFrame held

theorem applyFrames_append (held : List Notification) (fs gs : List Frame) :
    applyFrames held (fs ++ gs) = applyFrames (applyFrames held fs) gs :=
  List.foldl_append

theorem mem_applyFrame_notify {held : List Notification} {m n : Notification}
    (hm : m.mode = .queued) :
    n ∈ applyFrame held (.message (.notify m)) ↔ (n ∈ held ∧ n.id ≠ m.id) ∨ n = m := by
  simp [applyFrame, hm]

theorem mem_applyFrame_dismissed {held : List Notification} {n : Notification} {id : Id}
    {target : Option Address} :
    n ∈ applyFrame held (.message (.dismissed id target)) ↔ n ∈ held ∧ n.id ≠ id := by
  simp [applyFrame]

theorem applyFrame_of_not_queued {held : List Notification} {m : Notification}
    (hm : m.mode ≠ .queued) : applyFrame held (.message (.notify m)) = held := by
  simp [applyFrame, hm]

theorem nodup_applyFrame {held : List Notification} (h : (held.map (·.id)).Nodup) (f : Frame) :
    ((applyFrame held f).map (·.id)).Nodup := by
  have hfilter (id : Id) : ((held.filter (·.id ≠ id)).map (·.id)).Nodup :=
    (List.filter_sublist.map _).nodup h
  cases f with
  | sync => exact h
  | message e =>
    cases e with
    | dismissed id target => exact hfilter id
    | notify n =>
      by_cases hn : n.mode = .queued
      · simp only [applyFrame, if_pos hn, List.map_append]
        refine List.Nodup.append (hfilter n.id) (List.nodup_singleton _) ?_
        rw [List.map_singleton, List.disjoint_singleton]
        simp
      · rw [applyFrame_of_not_queued hn]
        exact h

/-- No two notifications that a client holds have the same identifier. -/
theorem nodup_applyFrames {held : List Notification} (h : (held.map (·.id)).Nodup)
    (frames : List Frame) : ((applyFrames held frames).map (·.id)).Nodup := by
  induction frames generalizing held with
  | nil => exact h
  | cons f fs ih => exact ih (nodup_applyFrame h f)

/-- What was held, or was shown, is held unless it is dismissed or another takes its identifier. -/
theorem mem_applyFrames_of {held : List Notification} {frames : List Frame} {n : Notification}
    (hq : n.mode = .queued) (h : n ∈ held ∨ .message (.notify n) ∈ frames)
    (hd : ∀ target, .message (.dismissed n.id target) ∉ frames)
    (hu : ∀ m, .message (.notify m) ∈ frames → m.id = n.id → m = n) :
    n ∈ applyFrames held frames := by
  induction frames generalizing held with
  | nil => exact h.resolve_right List.not_mem_nil
  | cons f fs ih =>
    refine ih ?_ (fun target ht => hd target (List.mem_cons_of_mem f ht))
      (fun m hm => hu m (List.mem_cons_of_mem f hm))
    rcases h with h | h
    · left
      cases f with
      | sync => exact h
      | message e =>
        cases e with
        | dismissed id target =>
          refine mem_applyFrame_dismissed.2 ⟨h, fun hid => hd target ?_⟩
          rw [hid]
          exact List.mem_cons_self
        | notify m =>
          by_cases hm : m.mode = .queued
          · rw [mem_applyFrame_notify hm]
            by_cases hid : n.id = m.id
            · exact .inr (hu m List.mem_cons_self hid.symm).symm
            · exact .inl ⟨h, hid⟩
          · rwa [applyFrame_of_not_queued hm]
    · rcases List.mem_cons.1 h with rfl | h
      · exact .inl ((mem_applyFrame_notify hq).2 (.inr rfl))
      · exact .inr h

/-- What is held was held before or shown since, and was not dismissed after that. -/
theorem exists_of_mem_applyFrames {held : List Notification} {frames : List Frame} {n : Notification}
    (h : n ∈ applyFrames held frames) :
    (n ∈ held ∧ ∀ target, .message (.dismissed n.id target) ∉ frames) ∨
      n.mode = .queued ∧ ∃ before after, frames = before ++ .message (.notify n) :: after ∧
        ∀ target, .message (.dismissed n.id target) ∉ after := by
  induction frames generalizing held with
  | nil => exact .inl ⟨h, fun _ => List.not_mem_nil⟩
  | cons f fs ih =>
    rcases ih h with ⟨hmem, hno⟩ | ⟨hq, before, after, rfl, hno⟩
    · cases f with
      | sync => exact .inl ⟨hmem, fun target ht => hno target (by simpa using ht)⟩
      | message e =>
        cases e with
        | dismissed id target =>
          obtain ⟨hold, hid⟩ := mem_applyFrame_dismissed.1 hmem
          refine .inl ⟨hold, fun target' ht => ?_⟩
          rcases List.mem_cons.1 ht with ht | ht
          · cases ht
            exact hid rfl
          · exact hno target' ht
        | notify m =>
          have hkept : n ∈ held → n ∈ held ∧
              ∀ target, .message (.dismissed n.id target) ∉ Frame.message (.notify m) :: fs :=
            fun hold => ⟨hold, fun target ht => hno target (by simpa using ht)⟩
          by_cases hm : m.mode = .queued
          · rcases (mem_applyFrame_notify hm).1 hmem with ⟨hold, _⟩ | rfl
            · exact .inl (hkept hold)
            · exact .inr ⟨hm, [], fs, rfl, hno⟩
          · rw [applyFrame_of_not_queued hm] at hmem
            exact .inl (hkept hmem)
    · exact .inr ⟨hq, f :: before, after, rfl, hno⟩

end Tidings
