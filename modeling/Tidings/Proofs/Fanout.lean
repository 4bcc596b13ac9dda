import Tidings.Proofs.Network
/-!
Each event reaches a connection once: one of its own instance when it is emitted, one of another instance
when its message arrives.
-/
namespace Tidings

variable {σ : Type}

/-- The addresses of a connection after a step that does not drop it. -/
def Step.scopesAfter (c : ConnectionId) (scopes : Option (List Address)) :
    Step → Option (List Address)
  | .unregister d => if d = c then none else scopes
  | .closeAll => none
  | _ => scopes

/-- What a step emits is taken down and stamped, and a connection hears of it. -/
theorem Step.perform_recorded (service : Service σ) (x : Step) (s : Service.State (Posted σ)) :
    ∃ new, (x.perform service.recorded s).store.sent = s.store.sent ++ new ∧
      (∀ p ∈ new, p.1.origin = service.id) ∧
      (s.registry.Sound → (x.perform service.recorded s).registry.Sound) ∧
      ∀ {c scopes readings heard}, x ≠ .drop c → s.registry.Holding c scopes readings heard →
        (x.perform service.recorded s).registry.Holding c (x.scopesAfter c scopes)
          (readings ++ (x.reading? c s.registry).toList)
          (heard ++ (new.map (·.1.event)).filter fun e => scopes.any (isFor · e)) := by
  cases x with
  | call now call =>
    obtain ⟨es, hes, _⟩ := call.perform_does service.recorded now s
    obtain ⟨new, hsent, horigin, hevents⟩ := hes.sent
    have hregistry : ((Step.call now call).perform service.recorded s).registry = _ := hes.registry
    refine ⟨new, hsent, horigin, fun hs => ?_, fun _ h => ?_⟩
    · rw [hregistry]
      exact (Registry.deliverAll_spec now es hs).1
    · rw [hregistry, hevents]
      simpa [reading?, scopesAfter] using h.deliverAll now es
  | sweep now =>
    have hdoes := service.recorded.sweep_does now s
    obtain ⟨new, hsent, horigin, hevents⟩ := hdoes.sent
    have hregistry : ((Step.sweep now).perform service.recorded s).registry = s.registry :=
      hdoes.registry
    refine ⟨new, hsent, horigin, fun hs => hregistry ▸ hs, fun _ h => ?_⟩
    rw [hregistry, hevents]
    simpa [reading?, scopesAfter] using h
  | connect now as =>
    refine ⟨[], (List.append_nil _).symm, fun _ hp => absurd hp List.not_mem_nil, fun hs => hs.register now as,
      fun _ h => ?_⟩
    simpa [perform, reading?, scopesAfter] using h.register now as
  | unregister d =>
    refine ⟨[], (List.append_nil _).symm, fun _ hp => absurd hp List.not_mem_nil, fun hs => hs.unregister d,
      fun _ h => ?_⟩
    simpa [perform, reading?, scopesAfter] using h.unregister d
  | drop d =>
    refine ⟨[], (List.append_nil _).symm, fun _ hp => absurd hp List.not_mem_nil, fun hs => hs.drop d,
      fun hd h => ?_⟩
    have hne : d ≠ _ := fun heq => hd (congrArg Step.drop heq)
    simpa [perform, reading?, scopesAfter] using h.drop hne
  | closeAll =>
    refine ⟨[], (List.append_nil _).symm, fun _ hp => absurd hp List.not_mem_nil, fun hs => hs.closeAll,
      fun _ h => ?_⟩
    simpa [perform, reading?, scopesAfter] using h.closeAll
  | receive d =>
    refine ⟨[], (List.append_nil _).symm, fun _ hp => absurd hp List.not_mem_nil, fun hs => hs.receive d,
      fun _ h => ?_⟩
    simpa [perform, scopesAfter] using h.receive d

variable {ι : Type}

/-- The events of one instance among those of all. -/
def eventsOf [DecidableEq ι] (a : ι) (l : List (ι × Event)) : List Event :=
  (l.filter (·.1 = a)).map (·.2)

theorem eventsOf_filter [DecidableEq ι] (a : ι) (p : Event → Bool) (l : List (ι × Event)) :
    eventsOf a (l.filter fun x => p x.2) = (eventsOf a l).filter p := by
  rw [eventsOf, eventsOf, List.filter_map, List.filter_filter, List.filter_filter]
  refine congrArg _ (List.filter_congr fun x _ => ?_)
  rw [Function.comp_apply, Bool.and_comm]

namespace Network
variable [DecidableEq ι] (services : ι → Service σ) (net : Network ι σ)

/-- What has come to an instance from one: its own events as soon as they are emitted, those of another as
far as their messages have arrived. -/
def come (b a : ι) : List Event :=
  if a = b then net.emitted b else ((net.published a).take (net.arrived a b)).map (·.event)

/-- What every state of a network keeps. -/
structure Sound : Prop where
  registry : ∀ i, (net.site i).registry.Sound
  origin : ∀ i, ∀ p ∈ (net.site i).sent, p.1.origin = (services i).id
  arrived : ∀ a b, net.arrived a b ≤ (net.published a).length

variable {services net}

omit [DecidableEq ι] in
theorem sound_initial (store : σ) : (initial services store).Sound services where
  registry i := Registry.sound_ofCapacity _
  origin i p hp := by cases hp
  arrived a b := Nat.le_refl _

omit [DecidableEq ι] in
theorem Sound.origin_of_published (h : net.Sound services) {a : ι} {m : Message}
    (hm : m ∈ net.published a) : m.origin = (services a).id := by
  obtain ⟨p, hp, rfl⟩ := List.mem_map.1 hm
  exact h.origin a p (List.mem_filter.1 hp).1

omit [DecidableEq ι] in
/-- Without failures everything that is emitted is published. -/
theorem events_published {a : ι} (h : ∀ p ∈ (net.site a).sent, p.2 = true) :
    (net.published a).map (·.event) = net.emitted a := by
  rw [published, List.filter_eq_self.2 h, List.map_map]
  rfl

theorem length_come (h : net.Sound services) {a b : ι} (hab : a ≠ b) :
    (net.come b a).length = net.arrived a b := by
  rw [come, if_neg hab, List.length_map, List.length_take_of_le (h.arrived a b)]

@[simp] theorem site_put_self (i : ι) (s : Service.State (Posted σ)) :
    (net.put i s).site i = ⟨s.store.sent, s.registry, s.recent, s.told⟩ := by
  simp [put]

theorem site_put_of_ne {i j : ι} (h : j ≠ i) (s : Service.State (Posted σ)) :
    (net.put i s).site j = net.site j := by
  simp [put, h]

end Network

namespace Action
variable [DecidableEq ι] {services : ι → Service σ} {net : Network ι σ}

/-- The addresses of a connection at an instance after an action that does not drop it. -/
def scopesAfter (b : ι) (c : ConnectionId) (scopes : Option (List Address)) :
    Action ι σ → Option (List Address)
  | .own i x => if i = b then x.scopesAfter c scopes else scopes
  | _ => scopes

/-- What an action makes of what has come to an instance and of a connection there. -/
def Brings (services : ι → Service σ) (b : ι) (m : Action ι σ) (net : Network ι σ)
    (new : List (ι × Event)) : Prop :=
  (∀ a, (m.run services net).come b a = net.come b a ++ eventsOf a new) ∧
    ∀ {c scopes readings heard}, m ≠ .own b (.drop c) →
      (net.site b).registry.Holding c scopes readings heard →
      ((m.run services net).site b).registry.Holding c (m.scopesAfter b c scopes)
        (readings ++ (m.reading? b c net).toList)
        (heard ++ (new.map (·.2)).filter fun e => scopes.any (isFor · e))

/-- A step of an instance adds to what is published there, and elsewhere to nothing. -/
theorem published_own (services : ι → Service σ) (net : Network ι σ) (i : ι) (x : Step) (a : ι) :
    ∃ more, ((Action.own i x).run services net).published a = net.published a ++ more := by
  by_cases ha : a = i
  · subst ha
    obtain ⟨new, hsent, _⟩ := x.perform_recorded (services a) (net.state a)
    have hsite : ((Action.own a x).run services net).site a = _ := Network.site_put_self a _
    refine ⟨(new.filter (·.2)).map (·.1), ?_⟩
    rw [Network.published, hsite, hsent, List.filter_append, List.map_append]
    rfl
  · have hother : ((Action.own i x).run services net).site a = net.site a := Network.site_put_of_ne ha _
    exact ⟨[], by rw [Network.published, hother, List.append_nil, Network.published]⟩

theorem sound_own (h : net.Sound services) (i : ι) (x : Step) :
    ((Action.own i x).run services net).Sound services := by
  obtain ⟨new, hsent, horigin, hsound, _⟩ := x.perform_recorded (services i) (net.state i)
  have hsite : ((Action.own i x).run services net).site i = _ := Network.site_put_self i _
  have hother {j : ι} (hj : j ≠ i) : ((Action.own i x).run services net).site j = net.site j :=
    Network.site_put_of_ne hj _
  refine ⟨fun j => ?_, fun j p hp => ?_, fun a b => ?_⟩
  · by_cases hj : j = i
    · subst hj
      rw [hsite]
      exact hsound (h.registry j)
    · rw [hother hj]
      exact h.registry j
  · by_cases hj : j = i
    · subst hj
      rw [hsite] at hp
      rcases List.mem_append.1 (hsent ▸ hp) with hp | hp
      · exact h.origin j p hp
      · exact horigin p hp
    · rw [hother hj] at hp
      exact h.origin j p hp
  · obtain ⟨more, hpublished⟩ := published_own services net i x a
    rw [hpublished, List.length_append]
    exact Nat.le_add_right_of_le (h.arrived a b)

/-- An instance hears what it emits itself. -/
theorem brings_own_self (net : Network ι σ) (b : ι) (x : Step) :
    ∃ new, Brings services b (.own b x) net new := by
  obtain ⟨new, hsent, _, _, hholding⟩ := x.perform_recorded (services b) (net.state b)
  have hsite : ((Action.own b x).run services net).site b = _ := Network.site_put_self b _
  refine ⟨new.map fun p => (b, p.1.event), fun a => ?_, fun hdrop h => ?_⟩
  · by_cases ha : a = b
    · subst ha
      have hall : eventsOf a (new.map fun p => (a, p.1.event)) = new.map (·.1.event) := by
        simp [eventsOf, List.filter_map, Function.comp_def]
      rw [Network.come, Network.come, if_pos rfl, if_pos rfl, Network.emitted, hsite, hsent,
        List.map_append, hall]
      rfl
    · have hnone : eventsOf a (new.map fun p => (b, p.1.event)) = [] := by
        simp [eventsOf, List.filter_map, Function.comp_def, Ne.symm ha]
      have hother : ((Action.own b x).run services net).site a = net.site a :=
        Network.site_put_of_ne ha _
      rw [Network.come, Network.come, if_neg ha, if_neg ha, Network.published, hother, hnone,
        List.append_nil]
      rfl
  · have hx : x ≠ .drop _ := fun heq => hdrop (congrArg (Action.own b) heq)
    rw [hsite, scopesAfter, if_pos rfl, reading?, if_pos rfl, List.map_map]
    exact hholding hx h

/-- What another instance emits has not come yet. -/
theorem brings_own_other (h : net.Sound services) {b i : ι} (hi : i ≠ b) (x : Step) :
    Brings services b (.own i x) net [] := by
  have hother : ((Action.own i x).run services net).site b = net.site b :=
    Network.site_put_of_ne (Ne.symm hi) _
  refine ⟨fun a => ?_, fun _ hold => ?_⟩
  · rw [show eventsOf a [] = ([] : List Event) from rfl, List.append_nil]
    by_cases hab : a = b
    · subst hab
      rw [Network.come, Network.come, if_pos rfl, if_pos rfl, Network.emitted, hother]
      rfl
    · obtain ⟨more, hpublished⟩ := published_own services net i x a
      rw [Network.come, Network.come, if_neg hab, if_neg hab, hpublished]
      exact congrArg (List.map _) (List.take_append_of_le_length (h.arrived a b))
  · rw [hother, scopesAfter, if_neg hi, reading?, if_neg hi]
    simpa using hold

section Arrive
variable {a b : ι} {now : Instant} {m : Message}

theorem run_arrive_of_none (services : ι → Service σ) (now : Instant)
    (h : (net.published a)[net.arrived a b]? = none) :
    (Action.arrive a b now).run services net = net := by
  rw [run, h]

theorem run_arrive_of_some (h : (net.published a)[net.arrived a b]? = some m) :
    (Action.arrive a b now).run services net =
      { net.put b ((services b).recorded.receiveRemote now m (net.state b)) with
        arrived := fun i j => if i = a ∧ j = b then net.arrived a b + 1 else net.arrived i j } := by
  rw [run, h]
  rfl

/-- What becomes of an instance at which a message arrives. -/
theorem site_arrive (hid : Function.Injective fun i => (services i).id) (hs : net.Sound services)
    (h : (net.published a)[net.arrived a b]? = some m) :
    let site := ((Action.arrive a b now).run services net).site b
    site.sent = (net.site b).sent ∧ site.registry =
      if a = b then (net.site b).registry else (net.site b).registry.deliverAll now [m.event] := by
  have horigin := hs.origin_of_published (List.mem_of_getElem? h)
  rw [run_arrive_of_some h]
  simp only [Network.site_put_self]
  by_cases hab : a = b
  · subst hab
    rw [(services a).recorded.receiveRemote_of_own now horigin, if_pos rfl]
    exact ⟨rfl, rfl⟩
  · have hother : m.origin ≠ (services b).recorded.id := fun heq => hab (hid (horigin.symm.trans heq))
    rw [(services b).recorded.receiveRemote_of_other now hother, if_neg hab]
    exact ⟨rfl, rfl⟩

theorem site_arrive_of_ne (h : (net.published a)[net.arrived a b]? = some m) {j : ι} (hj : j ≠ b) :
    ((Action.arrive a b now).run services net).site j = net.site j := by
  rw [run_arrive_of_some h]
  exact Network.site_put_of_ne hj _

theorem sent_arrive (now : Instant) (hid : Function.Injective fun i => (services i).id) (hs : net.Sound services)
    (h : (net.published a)[net.arrived a b]? = some m) (j : ι) :
    (((Action.arrive a b now).run services net).site j).sent = (net.site j).sent := by
  by_cases hj : j = b
  · subst hj
    exact (site_arrive hid hs h).1
  · rw [site_arrive_of_ne h hj]

theorem arrived_arrive (h : (net.published a)[net.arrived a b]? = some m) (i j : ι) :
    ((Action.arrive a b now).run services net).arrived i j =
      if i = a ∧ j = b then net.arrived a b + 1 else net.arrived i j := by
  rw [run_arrive_of_some h]

theorem sound_arrive (hid : Function.Injective fun i => (services i).id) (hs : net.Sound services)
    (h : (net.published a)[net.arrived a b]? = some m) :
    ((Action.arrive a b now).run services net).Sound services := by
  have hsent := sent_arrive now hid hs h
  refine ⟨fun j => ?_, fun j p hp => ?_, fun i j => ?_⟩
  · by_cases hj : j = b
    · subst hj
      rw [(site_arrive hid hs h).2]
      split
      · exact hs.registry j
      · exact (Registry.deliverAll_spec now _ (hs.registry j)).1
    · rw [site_arrive_of_ne h hj]
      exact hs.registry j
  · exact hs.origin j p (hsent j ▸ hp)
  · rw [Network.published, hsent, arrived_arrive h]
    split
    · next hij =>
      rw [hij.1]
      exact (List.getElem?_eq_some_iff.1 h).1
    · exact hs.arrived i j

/-- A message of another instance is heard when it arrives. -/
theorem brings_arrive (hid : Function.Injective fun i => (services i).id) (hs : net.Sound services)
    (h : (net.published a)[net.arrived a b]? = some m) (hab : a ≠ b) :
    Brings services b (.arrive a b now) net [(a, m.event)] := by
  have hsent := sent_arrive now hid hs h
  refine ⟨fun i => ?_, fun _ hold => ?_⟩
  · by_cases hi : i = b
    · subst hi
      have hnone : eventsOf i [(a, m.event)] = [] := by simp [eventsOf, hab]
      rw [Network.come, Network.come, if_pos rfl, if_pos rfl, Network.emitted, hsent, hnone,
        List.append_nil]
      rfl
    · rw [Network.come, Network.come, if_neg hi, if_neg hi, Network.published, hsent, arrived_arrive h]
      by_cases hia : i = a
      · subst hia
        have hone : eventsOf i [(i, m.event)] = [m.event] := by simp [eventsOf]
        rw [if_pos ⟨rfl, rfl⟩, hone, List.take_add_one, List.map_append]
        exact congrArg (_ ++ List.map _ ·.toList) h
      · have hnone : eventsOf i [(a, m.event)] = [] := by simp [eventsOf, Ne.symm hia]
        rw [if_neg fun hboth => hia hboth.1, hnone, List.append_nil]
        rfl
  · rw [(site_arrive hid hs h).2, if_neg hab]
    simpa [reading?, scopesAfter] using hold.deliverAll now [m.event]

/-- What comes back, or arrives elsewhere, is not heard. -/
theorem brings_arrive_nothing (hid : Function.Injective fun i => (services i).id)
    (hs : net.Sound services) (h : (net.published a)[net.arrived a b]? = some m) {b' : ι}
    (hne : a = b ∨ b' ≠ b) : Brings services b' (.arrive a b now) net [] := by
  have hsent := sent_arrive now hid hs h
  refine ⟨fun i => ?_, fun _ hold => ?_⟩
  · rw [show eventsOf i [] = ([] : List Event) from rfl, List.append_nil, Network.come, Network.come]
    by_cases hi : i = b'
    · rw [if_pos hi, if_pos hi, Network.emitted, hsent]
      rfl
    · have hkept : ¬ (i = a ∧ b' = b) := by
        rintro ⟨rfl, rfl⟩
        rcases hne with heq | hne
        · exact hi heq
        · exact hne rfl
      rw [if_neg hi, if_neg hi, Network.published, hsent, arrived_arrive h, if_neg hkept]
      rfl
  · have hregistry : (((Action.arrive a b now).run services net).site b').registry =
        (net.site b').registry := by
      by_cases hb : b' = b
      · subst hb
        have hab : a = b' := hne.resolve_right fun hn => hn rfl
        rw [(site_arrive hid hs h).2, if_pos hab]
      · rw [site_arrive_of_ne h hb]
    rw [hregistry]
    simpa [reading?, scopesAfter] using hold

end Arrive

/-- Nothing happens at any instance. -/
theorem brings_nothing {m : Action ι σ} (b : ι) (hm : ∀ i x, m ≠ .own i x)
    (hsite : (m.run services net).site = net.site)
    (harrived : (m.run services net).arrived = net.arrived) : Brings services b m net [] := by
  refine ⟨fun a => ?_, fun _ hold => ?_⟩
  · rw [show eventsOf a [] = ([] : List Event) from rfl, List.append_nil]
    simp only [Network.come, Network.emitted, Network.published, hsite, harrived]
  · rw [hsite]
    cases m with
    | own i x => exact absurd rfl (hm i x)
    | _ => simpa [reading?, scopesAfter] using hold

/-- One action: the network stays sound, and something or nothing comes to an instance. -/
theorem run_spec (hid : Function.Injective fun i => (services i).id) (hs : net.Sound services) (b : ι)
    (m : Action ι σ) :
    (m.run services net).Sound services ∧ ∃ new, Brings services b m net new := by
  cases m with
  | own i x =>
    refine ⟨sound_own hs i x, ?_⟩
    by_cases hi : i = b
    · subst hi
      exact brings_own_self net i x
    · exact ⟨[], brings_own_other hs hi x⟩
  | arrive a b' now =>
    cases h : (net.published a)[net.arrived a b']? with
    | none =>
      have hrun := run_arrive_of_none services now h
      refine ⟨by rwa [hrun], [], brings_nothing b (by simp) ?_ ?_⟩ <;> rw [hrun]
    | some msg =>
      refine ⟨sound_arrive hid hs h, ?_⟩
      by_cases hab : a ≠ b' ∧ b' = b
      · obtain ⟨hab, rfl⟩ := hab
        exact ⟨_, brings_arrive hid hs h hab⟩
      · refine ⟨[], brings_arrive_nothing hid hs h ?_⟩
        by_cases heq : a = b'
        · exact .inl heq
        · exact .inr fun hb => hab ⟨heq, hb.symm⟩
  | store t => exact ⟨⟨hs.registry, hs.origin, hs.arrived⟩, [], brings_nothing b (by simp) rfl rfl⟩

/-- Whether an action leaves a connection of an instance on the register. -/
def Spares (b : ι) (c : ConnectionId) (m : Action ι σ) : Prop :=
  m ≠ .own b (.unregister c) ∧ m ≠ .own b (.drop c) ∧ m ≠ .own b .closeAll

theorem scopesAfter_of_spares {b : ι} {c : ConnectionId} {m : Action ι σ} (hm : m.Spares b c)
    (scopes : Option (List Address)) : m.scopesAfter b c scopes = scopes := by
  obtain ⟨hunregister, _, hclose⟩ := hm
  cases m with
  | own i x =>
    rw [scopesAfter]
    split
    · next hi =>
      subst hi
      cases x with
      | unregister d => exact if_neg fun hd => hunregister (by rw [hd])
      | closeAll => exact absurd rfl hclose
      | _ => rfl
    · rfl
  | _ => rfl

theorem scopesAfter_none (b : ι) (c : ConnectionId) (m : Action ι σ) : m.scopesAfter b c none = none := by
  cases m with
  | own i x =>
    rw [scopesAfter]
    split
    · cases x with
      | unregister d => exact ite_self none
      | _ => rfl
    · rfl
  | _ => rfl

/-- A run that changes nothing about where a connection belongs. -/
theorem runAll_spec (hid : Function.Injective fun i => (services i).id) (hs : net.Sound services)
    {b : ι} {c : ConnectionId} {scopes : Option (List Address)} {before : List (Received Event)}
    {heard : List Event} (hold : (net.site b).registry.Holding c scopes before heard)
    (ms : List (Action ι σ)) (hms : ∀ m ∈ ms, m ≠ .own b (.drop c) ∧ m.scopesAfter b c scopes = scopes) :
    (runAll services ms net).Sound services ∧ ∃ new : List (ι × Event),
      (∀ a, (runAll services ms net).come b a = net.come b a ++ eventsOf a new) ∧
      ((runAll services ms net).site b).registry.Holding c scopes (before ++ readings services b c ms net)
        (heard ++ (new.map (·.2)).filter fun e => scopes.any (isFor · e)) := by
  induction ms generalizing net before heard with
  | nil => exact ⟨hs, [], fun a => (List.append_nil _).symm, by simpa [runAll, readings] using hold⟩
  | cons m ms ih =>
    obtain ⟨hdrop, hkeeps⟩ := hms m List.mem_cons_self
    obtain ⟨hs₁, new₁, hcome₁, hold₁⟩ := run_spec hid hs b m
    have hold₁ := hold₁ hdrop hold
    rw [hkeeps] at hold₁
    obtain ⟨hs₂, new₂, hcome₂, hold₂⟩ := ih hs₁ hold₁ fun m' hm' => hms m' (List.mem_cons_of_mem m hm')
    refine ⟨hs₂, new₁ ++ new₂, fun a => ?_, ?_⟩
    · have happend : eventsOf a (new₁ ++ new₂) = eventsOf a new₁ ++ eventsOf a new₂ := by
        simp [eventsOf]
      rw [happend, ← List.append_assoc, ← hcome₁]
      exact hcome₂ a
    · rw [readings, List.map_append, List.filter_append, ← List.append_assoc, ← List.append_assoc]
      exact hold₂

theorem sound_runAll (hid : Function.Injective fun i => (services i).id) (hs : net.Sound services)
    (ms : List (Action ι σ)) : (runAll services ms net).Sound services := by
  induction ms generalizing net with
  | nil => exact hs
  | cons m ms ih =>
    cases m with
    | own i x => exact ih (run_spec hid hs i (.own i x)).1
    | arrive a b now => exact ih (run_spec hid hs b (.arrive a b now)).1
    | store t => exact ih ⟨hs.registry, hs.origin, hs.arrived⟩

/-- A run that is over for a connection: it takes the connection off the register first, or is empty. -/
def Leaves (b : ι) (c : ConnectionId) : List (Action ι σ) → Prop
  | [] => True
  | m :: _ => m = .own b (.unregister c) ∨ m = .own b .closeAll

/-- After a connection was taken off the register, what it has heard can still be read. -/
theorem holding_after (hid : Function.Injective fun i => (services i).id) (hs : net.Sound services)
    {b : ι} {c : ConnectionId} {scopes : Option (List Address)} {before : List (Received Event)}
    {heard : List Event} (hold : (net.site b).registry.Holding c scopes before heard)
    {ms : List (Action ι σ)} (hleaves : Leaves b c ms) (hdrop : .own b (.drop c) ∉ ms) :
    ∃ scopes', ((runAll services ms net).site b).registry.Holding c scopes'
      (before ++ readings services b c ms net) heard := by
  cases ms with
  | nil => exact ⟨scopes, by simpa [runAll, readings] using hold⟩
  | cons m ms =>
    have hs₁ : (m.run services net).Sound services := (run_spec hid hs b m).1
    have hoff : ((m.run services net).site b).registry.Holding c none before heard ∧
        m.reading? b c net = none := by
      rcases hleaves with rfl | rfl
      · have hsite : ((Action.own b (.unregister c)).run services net).site b = _ :=
          Network.site_put_self b _
        have hold' := hold.unregister c
        rw [if_pos rfl] at hold'
        rw [hsite]
        exact ⟨hold', if_pos rfl⟩
      · have hsite : ((Action.own b .closeAll).run services net).site b = _ := Network.site_put_self b _
        rw [hsite]
        exact ⟨hold.closeAll, if_pos rfl⟩
    have hrest : ∀ m' ∈ ms, m' ≠ .own b (.drop c) ∧ m'.scopesAfter b c none = none := by
      refine fun m' hm' => ⟨fun heq => hdrop ?_, scopesAfter_none b c m'⟩
      exact List.mem_cons_of_mem m (heq ▸ hm')
    obtain ⟨_, new, _, hend⟩ := runAll_spec hid hs₁ hoff.1 ms hrest
    refine ⟨none, ?_⟩
    rw [readings, hoff.2]
    simpa [runAll] using hend

end Action

/-- Each event reaches a connection once. While the connection is on the register, what it hears is, from
each instance, every event for it in the order of emission: from its own instance those that are emitted
meanwhile, from another one those whose messages arrive meanwhile. All of it is read or waits to be read,
also after the connection was taken off the register, as long as its queue loses nothing. -/
theorem each_event_heard_once [DecidableEq ι] (services : ι → Service σ)
    (hid : Function.Injective fun i => (services i).id) (store : σ) (b : ι) (opening : Instant)
    (as : List Address) (before during after : List (Action ι σ)) :
    let closed := Action.runAll services before (Network.initial services store)
    let c := (closed.site b).registry.next
    let opened := (Action.own b (.connect opening as)).run services closed
    let last := Action.runAll services during opened
    let readings := Action.readings services b c during opened ++ Action.readings services b c after last
    (∀ m ∈ during, m.Spares b c) → Action.Leaves b c after → .own b (.drop c) ∉ after →
    (∀ a, ∀ p ∈ (last.site a).sent, p.2 = true) →
    ∃ q, ((Action.runAll services after last).site b).registry.queues.get? c = some q ∧
      (q.lost = 0 → (∀ n, .lagged n ∉ readings) →
        ∃ heard : List (ι × Event), readings.filterMap Received.item? ++ q.items = heard.map (·.2) ∧
          eventsOf b heard = ((last.emitted b).drop (closed.emitted b).length).filter (isFor as) ∧
          ∀ a, a ≠ b → eventsOf a heard =
            (((last.emitted a).take (last.arrived a b)).drop (closed.arrived a b)).filter (isFor as)) := by
  intro closed c opened last readings hspared hleaves hdrop hpublished
  have hclosed : closed.Sound services := Action.sound_runAll hid (Network.sound_initial store) before
  have hopened : opened.Sound services := Action.sound_own hclosed b _
  have hopen : (opened.site b).registry.Holding c (some as) [] [] := by
    rw [show opened.site b = _ from Network.site_put_self b _]
    exact Registry.Holding.opened (hclosed.registry b) opening as
  -- opening a connection emits nothing, and no message arrives
  have hsent (a : ι) : (opened.site a).sent = (closed.site a).sent := by
    by_cases ha : a = b
    · subst ha
      rw [show opened.site a = _ from Network.site_put_self a _]
      rfl
    · rw [show opened.site a = _ from Network.site_put_of_ne ha _]
  have hcomeOpened (a : ι) : opened.come b a = closed.come b a := by
    rw [Network.come, Network.come, Network.emitted, Network.emitted, Network.published,
      Network.published, hsent, hsent]
    rfl
  obtain ⟨hlast, new, hcome, hold⟩ := Action.runAll_spec hid hopened hopen during fun m hm =>
    ⟨(hspared m hm).2.1, Action.scopesAfter_of_spares (hspared m hm) _⟩
  obtain ⟨scopes, hend⟩ := Action.holding_after hid hlast hold hleaves hdrop
  obtain ⟨q, hq, hheard⟩ := hend.queue
  refine ⟨q, hq, fun hlost hlag => ⟨new.filter fun x => isFor as x.2, ?_, ?_, fun a hab => ?_⟩⟩
  · have hall := hheard hlost hlag
    rw [List.nil_append] at hall
    rw [hall, List.nil_append, List.filter_map]
    rfl
  · have hown : last.emitted b = closed.emitted b ++ eventsOf b new := by
      have hb := (hcome b).trans (congrArg (· ++ eventsOf b new) (hcomeOpened b))
      rwa [Network.come, Network.come, if_pos rfl, if_pos rfl] at hb
    rw [eventsOf_filter, hown, List.drop_left]
  · have hother : (last.emitted a).take (last.arrived a b) = closed.come b a ++ eventsOf a new := by
      rw [← Network.events_published (hpublished a), ← List.map_take, ← hcomeOpened, ← hcome a,
        Network.come, if_neg hab]
    rw [eventsOf_filter, hother, ← Network.length_come hclosed hab, List.drop_left]

/-- A broadcast of another instance arrives after a notification here was sent; the notification's own
message comes back. The second reading is made after the connection was taken off the register. -/
theorem each_event_heard_once_of_return :
    let a : Address := ⟨.user, "x"⟩
    let services (i : Bool) := Service.overMemory ⟨if i then 1 else 0⟩ {} Hooks.none
    let closed : Network Bool Memory := Action.runAll services [] (.initial services Memory.empty)
    let opened := (Action.own false (.connect .epoch [a])).run services closed
    let during : List (Action Bool Memory) := [.own true (.call .epoch (.broadcast ⟨1⟩ "note" none [])),
      .own false (.call .epoch (.notify ⟨2⟩ a "note" .queued none [])), .arrive true false .epoch,
      .arrive false false .epoch, .own false (.receive 0)]
    let after : List (Action Bool Memory) := [.own false (.unregister 0), .own false (.receive 0)]
    let last := Action.runAll services during opened
    let readings := Action.readings services false 0 during opened ++
      Action.readings services false 0 after last
    ∃ heard : List (Bool × Event), (readings.filterMap Received.item?) = heard.map (·.2) ∧
      (eventsOf false heard).map Event.id = [⟨2⟩] ∧ (eventsOf true heard).map Event.id = [⟨1⟩] := by
  intro a services closed opened during after last readings
  have hid : Function.Injective fun i => (services i).id := by
    intro i j h
    cases i <;> cases j <;> first | rfl | cases h
  have hspared : ∀ m ∈ during, m.Spares false 0 := by simp [during, Action.Spares]
  have hpublished : ∀ i, ∀ p ∈ (last.site i).sent, p.2 = true := by decide +kernel
  obtain ⟨q, hq, hheard⟩ := each_event_heard_once services hid Memory.empty false .epoch [a] [] during
    after hspared (.inl rfl) (by simp [after]) hpublished
  have hlost : Option.map Queue.lost (some q) = some 0 := by
    rw [← hq]
    decide +kernel
  have hread : Option.map (fun q => q.items.length) (some q) = some 0 := by
    rw [← hq]
    decide +kernel
  have hitems : ∀ r ∈ readings, r.item?.isSome := by decide +kernel
  have hlag (n : Nat) : .lagged n ∉ readings := fun hn => by cases hitems _ hn
  obtain ⟨heard, hall, hown, hother⟩ := hheard (Option.some.inj hlost) hlag
  rw [List.eq_nil_of_length_eq_zero (Option.some.inj hread), List.append_nil] at hall
  refine ⟨heard, hall, ?_, ?_⟩
  · rw [hown]
    decide +kernel
  · rw [hother true (by decide)]
    decide +kernel

end Tidings
