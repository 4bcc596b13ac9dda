import Tidings.Settings.Environment
/-!
Settings and variables without a text. A variable that is set to nothing reads like one that is not set,
except for the prefix of the broker's channel, which may be empty, and for the broker's own address, which
hides the shared one.
-/
namespace Tidings

namespace Environment

variable (env : Environment) (name : String)

def unset : Environment := ⟨env.bindings.filter fun b => b.1 ≠ name⟩

def set (value : List UInt8) : Environment := ⟨(name, value) :: (env.unset name).bindings⟩

variable (other : String)

theorem lookup_cons_if (value : List UInt8) (bindings : List (String × List UInt8)) :
    ((name, value) :: bindings).lookup other = if other = name then some value else bindings.lookup other := by
  rw [List.lookup_cons]
  by_cases h : other = name
  · rw [if_pos h, beq_iff_eq.2 h]
  · rw [if_neg h, beq_false_of_ne h]

theorem lookup_filter_ne (bindings : List (String × List UInt8)) :
    (bindings.filter fun b => b.1 ≠ name).lookup other =
      if other = name then none else bindings.lookup other := by
  induction bindings with
  | nil => exact (ite_self none).symm
  | cons b bindings ih =>
    obtain ⟨key, value⟩ := b
    by_cases hkey : key = name
    · subst hkey
      rw [List.filter_cons_of_neg (by simp), ih, lookup_cons_if]
      by_cases hother : other = key <;> simp only [hother, if_true, if_false]
    · rw [List.filter_cons_of_pos (by simpa using hkey), lookup_cons_if, lookup_cons_if, ih]
      by_cases hother : other = key
      · subst hother
        rw [if_pos rfl, if_neg hkey, if_pos rfl]
      · rw [if_neg hother, if_neg hother]

theorem text?_unset : (env.unset name).text? other = if other = name then none else env.text? other := by
  rw [text?, unset, lookup_filter_ne, text?]
  split <;> rfl

theorem text?_set_nothing :
    (env.set name []).text? other = if other = name then some "" else env.text? other := by
  rw [text?, set, lookup_cons_if]
  by_cases h : other = name
  · rw [if_pos h, if_pos h]
    rfl
  · have hunset := env.text?_unset name other
    rw [if_neg h] at hunset
    rw [if_neg h, if_neg h]
    exact hunset

/-- Nothing in a variable is as good as no variable. -/
theorem filled?_set_nothing : (env.set name []).filled? other = (env.unset name).filled? other := by
  rw [filled?, text?_set_nothing, filled?, text?_unset]
  split <;> rfl

theorem filled?_unset :
    (env.unset name).filled? other = if other = name then none else env.filled? other := by
  rw [filled?, text?_unset, filled?]
  split <;> rfl

theorem text?_getD_nothing : (env.text? name).getD "" = (env.filled? name).getD "" := by
  rw [filled?]
  cases env.text? name with
  | none => rfl
  | some text => by_cases htext : text = "" <;> simp [Option.filter, htext]

/-- A number is read from what a variable is filled with. -/
theorem number_eq_of_filled (bits default : Nat) : env.number bits name default =
    ((env.filled? name).bind fun s => Text.bounded? (Nat.pow 2 bits - 1) s.toList).getD default := by
  rw [number, filled?]
  cases env.text? name with
  | none => rfl
  | some text =>
    by_cases htext : text = ""
    · subst htext
      rfl
    · simp [Option.filter, htext]

end Environment

/-- The dedicated address, or the shared one where there is no other. -/
theorem redisUrlOf_eq (env : Environment) : redisUrlOf env =
    (env.filled? "NOTIFICATION_REDIS_URL").or
      (if (env.text? "NOTIFICATION_REDIS_URL").isSome then none else env.filled? "REDIS_URL") := by
  rw [redisUrlOf, Environment.filled?, Environment.filled?]
  cases env.text? "NOTIFICATION_REDIS_URL" with
  | none => rfl
  | some text => by_cases htext : text = "" <;> simp [Option.filter, htext]

theorem Environment.redisUrlOf_unset (env : Environment) :
    redisUrlOf (env.unset "NOTIFICATION_REDIS_URL") = env.filled? "REDIS_URL" := by
  rw [redisUrlOf_eq, env.filled?_unset, env.filled?_unset, env.text?_unset, if_pos rfl, if_pos rfl,
    if_neg (by decide)]
  rfl

/-- Nothing in the dedicated address hides the shared one. -/
theorem Environment.redisUrlOf_set_nothing (env : Environment) :
    redisUrlOf (env.set "NOTIFICATION_REDIS_URL" []) = none := by
  rw [redisUrlOf_eq, env.filled?_set_nothing, env.filled?_unset, env.text?_set_nothing, if_pos rfl, if_pos rfl]
  rfl

theorem Settings.redisUrl_ofEnvironment {env : Environment} {settings : Settings}
    (h : ofEnvironment env = .ok settings) : settings.redisUrl = redisUrlOf env := by
  rw [ofEnvironment] at h
  cases hbackend : BackendKind.ofSetting ((env.text? "NOTIFICATION_BACKEND").getD "") with
  | error fault =>
    rw [hbackend] at h
    cases h
  | ok backend =>
    rw [hbackend] at h
    cases h
    rfl

namespace ServerSettings

/-- The settings of a server around those of its notifications. -/
def around (env : Environment) (notifications : Settings) : ServerSettings where
  httpPort := env.number 16 "HTTP_PORT" Defaults.httpPort
  databaseUrl := env.filled? "DATABASE_URL"
  databaseMaxConnections := env.number 32 "DATABASE_MAX_CONNECTIONS" Defaults.databaseMaxConnections
  notifications := notifications

theorem ofEnvironment_eq (env : Environment) : ofEnvironment env =
    match Settings.ofEnvironment env with
    | .error fault => .error (.unusable fault)
    | .ok notifications =>
      match (around env notifications).problem? with
      | some problem => .error problem
      | none => .ok (around env notifications) := by
  rw [ofEnvironment]
  cases Settings.ofEnvironment env <;> rfl

theorem redisUrl_ofEnvironment {env : Environment} {settings : ServerSettings}
    (h : ofEnvironment env = .ok settings) : settings.notifications.redisUrl = redisUrlOf env := by
  rw [ofEnvironment_eq] at h
  cases hnotifications : Settings.ofEnvironment env with
  | error fault =>
    rw [hnotifications] at h
    cases h
  | ok notifications =>
    simp only [hnotifications] at h
    split at h
    · cases h
    · cases h
      exact Settings.redisUrl_ofEnvironment hnotifications

/-- With an address of the broker only the database can be missing, and it is missing without one too. -/
theorem problem?_without_address {settings : ServerSettings} {e : SettingsError}
    (haddress : settings.notifications.redisUrl.isSome) (h : settings.problem? = some e)
    (url : Option String) :
    problem? { settings with notifications := { settings.notifications with redisUrl := url } } = some e := by
  unfold problem? at h
  split at h
  · next hmissing => exact (if_pos hmissing).trans h
  · have hbroker : ¬ (settings.notifications.backend = .redis ∧ settings.notifications.redisUrl.isNone) :=
      fun hnone => Option.not_isSome_iff_eq_none.2 (Option.isNone_iff_eq_none.1 hnone.2) haddress
    rw [if_neg hbroker] at h
    cases h

end ServerSettings

section Reading

variable {env env' : Environment} (hfilled : ∀ name, env.filled? name = env'.filled? name)
include hfilled

theorem Environment.number_congr (bits : Nat) (name : String) (default : Nat) :
    env.number bits name default = env'.number bits name default := by
  rw [env.number_eq_of_filled, env'.number_eq_of_filled, hfilled]

theorem BrokerSettings.ofEnvironment_congr : ofEnvironment env = ofEnvironment env' := by
  simp only [ofEnvironment, Environment.number_congr hfilled]

theorem ServerSettings.around_congr (notifications : Settings) :
    around env notifications = around env' notifications := by
  simp only [around, Environment.number_congr hfilled, hfilled]

variable (hchannel : env.text? "NOTIFICATION_REDIS_PREFIX" = env'.text? "NOTIFICATION_REDIS_PREFIX")
include hchannel

/-- Variables are read as what they are filled with, apart from two. -/
theorem Settings.ofEnvironment_congr : ofEnvironment env =
    (ofEnvironment env').map fun settings => { settings with redisUrl := redisUrlOf env } := by
  simp only [ofEnvironment, Environment.number_congr hfilled, BrokerSettings.ofEnvironment_congr hfilled,
    env.text?_getD_nothing, env'.text?_getD_nothing, hfilled, hchannel]
  cases BackendKind.ofSetting ((env'.filled? "NOTIFICATION_BACKEND").getD "") <;> rfl

theorem ServerSettings.ofEnvironment_congr (hurl : redisUrlOf env = redisUrlOf env') :
    ofEnvironment env = ofEnvironment env' := by
  rw [ofEnvironment_eq, ofEnvironment_eq, Settings.ofEnvironment_congr hfilled hchannel, hurl]
  cases hnotifications : Settings.ofEnvironment env' with
  | error fault => rfl
  | ok notifications =>
    rw [← Settings.redisUrl_ofEnvironment hnotifications]
    simp only [Except.map, around_congr hfilled]

/-- What stands in the way of settings with an address of the broker stands in the way of those without. -/
theorem ServerSettings.error_of_error {e : SettingsError} (hurl : (redisUrlOf env').isSome)
    (h : ofEnvironment env' = .error e) : ofEnvironment env = .error e := by
  rw [ofEnvironment_eq] at h
  rw [ofEnvironment_eq, Settings.ofEnvironment_congr hfilled hchannel]
  cases hnotifications : Settings.ofEnvironment env' with
  | error fault =>
    simp only [hnotifications] at h
    exact h
  | ok notifications =>
    have haddress : notifications.redisUrl.isSome := Settings.redisUrl_ofEnvironment hnotifications ▸ hurl
    simp only [hnotifications] at h
    split at h
    · next problem hproblem =>
      cases h
      have hwithout : (around env { notifications with redisUrl := redisUrlOf env }).problem? = some e := by
        rw [around_congr hfilled]
        exact problem?_without_address haddress hproblem (redisUrlOf env)
      simp only [Except.map, hwithout]
    · cases h

end Reading

/-- A variable that is set to nothing has the same outcome as one that is not set, if it is not the prefix
of the broker's channel; if it is the broker's own address, exactly when there is no shared one, or when the
outcome is an error anyhow. An own address that is set to nothing counts as no address at all, although the
shared one is used where the own one is not set. -/
theorem nothing_means_unset (env : Environment) (name : String) (hname : name ≠ "NOTIFICATION_REDIS_PREFIX") :
    (ServerSettings.ofEnvironment (env.set name []) = ServerSettings.ofEnvironment (env.unset name) ↔
      (name = "NOTIFICATION_REDIS_URL" → env.filled? "REDIS_URL" = none ∨
        ∃ e, ServerSettings.ofEnvironment (env.unset name) = .error e)) ∧
    redisUrlOf (env.unset "NOTIFICATION_REDIS_URL") = env.filled? "REDIS_URL" ∧
    redisUrlOf (env.set "NOTIFICATION_REDIS_URL" []) = none := by
  have hfilled := env.filled?_set_nothing name
  have hchannel : (env.set name []).text? "NOTIFICATION_REDIS_PREFIX" =
      (env.unset name).text? "NOTIFICATION_REDIS_PREFIX" := by
    rw [env.text?_set_nothing, env.text?_unset, if_neg hname.symm, if_neg hname.symm]
  refine ⟨⟨fun hsame hurl => ?_, fun hclear => ?_⟩, env.redisUrlOf_unset, env.redisUrlOf_set_nothing⟩
  · subst hurl
    cases hunset : ServerSettings.ofEnvironment (env.unset "NOTIFICATION_REDIS_URL") with
    | error e => exact .inr ⟨e, rfl⟩
    | ok settings =>
      have hown := ServerSettings.redisUrl_ofEnvironment (hsame.trans hunset)
      have hshared := ServerSettings.redisUrl_ofEnvironment hunset
      rw [env.redisUrlOf_set_nothing] at hown
      rw [env.redisUrlOf_unset] at hshared
      exact .inl (hshared.symm.trans hown)
  · by_cases hurl : name = "NOTIFICATION_REDIS_URL"
    · subst hurl
      cases hshared : env.filled? "REDIS_URL" with
      | none =>
        refine ServerSettings.ofEnvironment_congr hfilled hchannel ?_
        rw [env.redisUrlOf_set_nothing, env.redisUrlOf_unset, hshared]
      | some url =>
        obtain ⟨e, he⟩ := (hclear rfl).resolve_left (by simp [hshared])
        have haddress : (redisUrlOf (env.unset "NOTIFICATION_REDIS_URL")).isSome := by
          rw [env.redisUrlOf_unset, hshared, Option.isSome_some]
        rw [he, ServerSettings.error_of_error hfilled hchannel haddress he]
    · refine ServerSettings.ofEnvironment_congr hfilled hchannel ?_
      rw [redisUrlOf_eq, redisUrlOf_eq, hfilled, hfilled, env.text?_set_nothing, env.text?_unset,
        if_neg (Ne.symm hurl), if_neg (Ne.symm hurl)]

/-- Neither a port nor a shared address that is set to nothing makes a difference. -/
theorem nothing_means_unset_of_broker :
    let env : Environment := ⟨[("NOTIFICATION_BACKEND", "redis".toUTF8.data.toList),
      ("HTTP_PORT", "80".toUTF8.data.toList), ("DATABASE_URL", "postgres://db".toUTF8.data.toList),
      ("NOTIFICATION_REDIS_URL", "redis://own".toUTF8.data.toList)]⟩
    ServerSettings.ofEnvironment (env.set "HTTP_PORT" []) =
        ServerSettings.ofEnvironment (env.unset "HTTP_PORT") ∧
      ServerSettings.ofEnvironment (env.set "NOTIFICATION_REDIS_URL" []) =
        ServerSettings.ofEnvironment (env.unset "NOTIFICATION_REDIS_URL") := by
  intro env
  refine ⟨(nothing_means_unset env "HTTP_PORT" (by decide)).1.2 fun heq => ?_,
    (nothing_means_unset env "NOTIFICATION_REDIS_URL" (by decide)).1.2 fun _ => .inl ?_⟩
  · exact absurd heq (by decide)
  · decide +kernel

/-- With a shared address and nothing in the own one, a broker that can be used is not found. -/
theorem shared_address_hidden :
    let env : Environment := ⟨[("NOTIFICATION_BACKEND", "redis".toUTF8.data.toList),
      ("DATABASE_URL", "postgres://db/pulse".toUTF8.data.toList),
      ("REDIS_URL", "redis://shared:6379".toUTF8.data.toList)]⟩
    (ServerSettings.ofEnvironment (env.unset "NOTIFICATION_REDIS_URL")).toOption.map
        (fun s => s.notifications.redisUrl) = some (some "redis://shared:6379") ∧
      ServerSettings.ofEnvironment (env.set "NOTIFICATION_REDIS_URL" []) = .error .brokerMissing := by
  intro env
  refine ⟨by decide +kernel, ?_⟩
  have herror : (match ServerSettings.ofEnvironment (env.set "NOTIFICATION_REDIS_URL" []) with
      | .error e => some e
      | .ok _ => none) = some .brokerMissing := by
    decide +kernel
  cases hset : ServerSettings.ofEnvironment (env.set "NOTIFICATION_REDIS_URL" []) with
  | error e =>
    rw [hset] at herror
    exact congrArg Except.error (Option.some.inj herror)
  | ok settings =>
    rw [hset] at herror
    cases herror

end Tidings
