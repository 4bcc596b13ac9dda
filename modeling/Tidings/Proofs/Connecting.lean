import Mathlib.Algebra.Order.Group.Nat
import Tidings.Broker.Connect
import Tidings.Settings.Environment
/-!
The policy of the first connection. The delays are exact although power and product are capped on the way;
every attempt that is refused is followed by its delay, up to the last, and the one that is accepted is the
last. The number of attempts is right in all messages unless it is one more than the greatest word.
-/
namespace Tidings

/-- Settings of a broker whose numbers have the widths that they are read with. -/
structure BrokerSettings.IsSized (s : BrokerSettings) : Prop where
  retryExponentBase : s.retryExponentBase < 2 ^ 64
  maxRetryDelayMs : s.maxRetryDelayMs < 2 ^ 64
  initialConnectionRetries : s.initialConnectionRetries < 2 ^ 32
  initialRetryDelayMs : s.initialRetryDelayMs < 2 ^ 64

theorem Environment.number_lt (env : Environment) {bits : Nat} (name : String) {default : Nat}
    (hd : default < 2 ^ bits) : env.number bits name default < 2 ^ bits := by
  rw [number]
  cases hread : (env.text? name).bind fun s => Text.bounded? (Nat.pow 2 bits - 1) s.toList with
  | none => exact hd
  | some n =>
    obtain ⟨text, _, hn⟩ := Option.bind_eq_some_iff.1 hread
    simp only [Text.bounded?, Option.ite_none_right_eq_some, Option.some.injEq] at hn
    obtain ⟨⟨_, _, hle⟩, rfl⟩ := hn
    exact Nat.lt_of_le_pred (Nat.two_pow_pos bits) hle

theorem BrokerSettings.isSized_ofEnvironment (env : Environment) : (ofEnvironment env).IsSized where
  retryExponentBase := env.number_lt _ (by decide)
  maxRetryDelayMs := env.number_lt _ (by decide)
  initialConnectionRetries := env.number_lt _ (by decide)
  initialRetryDelayMs := env.number_lt _ (by decide)

/-- Caps on a factor and on the product do not show under a cap on the whole that is not greater. -/
theorem min_mul_min {cap most : Nat} (h : most ≤ cap) (a b : Nat) :
    min (min cap (a * min cap b)) most = min (a * b) most := by
  rcases Nat.eq_zero_or_pos a with rfl | ha
  · simp
  rcases Nat.le_total b cap with hb | hb
  · rw [Nat.min_eq_right hb]
    omega
  · have hcap : cap ≤ a * cap := Nat.le_mul_of_pos_left cap ha
    have hproduct : cap ≤ a * b := Nat.le_trans hb (Nat.le_mul_of_pos_left b ha)
    rw [Nat.min_eq_left hb]
    omega

theorem BrokerSettings.IsSized.retryDelayMs_eq {s : BrokerSettings} (h : s.IsSized) (k : Nat) :
    s.retryDelayMs k = min (s.initialRetryDelayMs * s.retryExponentBase ^ k) s.maxRetryDelayMs := by
  have hmost : s.maxRetryDelayMs ≤ Nat.pow 2 64 - 1 := Nat.le_sub_one_of_lt h.maxRetryDelayMs
  rw [retryDelayMs, cappedPower_eq (by decide), min_mul_min hmost]
  rfl

namespace Broker

variable {σ : Type} {settings : BrokerSettings} {outcome : Nat → Option Failure} (tell : Doing → σ → σ)

/-- What is done for a refused attempt that is made again. -/
def refused (settings : BrokerSettings) (failure : Nat → Failure) (k : Nat) : List Doing :=
  let total := (settings.initialConnectionRetries + 1) % 2 ^ 32
  [.attempt, .note (refusal (k + 1) total (settings.retryDelayMs k) (failure k)),
    .wait (settings.retryDelayMs k)]

/-- Tells of some doings, one after the other. -/
def tellAll (doings : List Doing) (s : σ) : σ := doings.foldl (fun s d => tell d s) s

/-- The count of attempts goes on, until it starts again. -/
theorem ofNat_succ_count (n : Nat) : UInt32.ofNat n + 1 = UInt32.ofNat (n + 1) := (UInt32.ofNat_add n 1).symm

section Step

variable {k : Nat} (hretries : settings.initialConnectionRetries < 2 ^ 32) (s : σ)
include hretries

theorem connectFrom_of_accepted (hk : k ≤ settings.initialConnectionRetries) (h : outcome k = none) :
    connectFrom settings outcome tell (.ofNat k) s =
      (.ok (), tellAll tell (.attempt :: if 0 < k then [.note (established k)] else []) s) := by
  have hcount : (UInt32.ofNat k).toNat = k := UInt32.toNat_ofNat_of_lt' (Nat.lt_of_le_of_lt hk hretries)
  have hfirst : 0 < UInt32.ofNat k ↔ 0 < k := by rw [UInt32.lt_iff_toNat_lt, hcount, UInt32.toNat_zero]
  rw [connectFrom, hcount, h]
  simp only [hfirst]
  split <;> rfl

theorem connectFrom_of_refused {failure : Nat → Failure} (hk : k < settings.initialConnectionRetries)
    (h : outcome k = some (failure k)) :
    connectFrom settings outcome tell (.ofNat k) s =
      connectFrom settings outcome tell (.ofNat (k + 1)) (tellAll tell (refused settings failure k) s) := by
  have hcount : (UInt32.ofNat k).toNat = k := UInt32.toNat_ofNat_of_lt' (Nat.lt_trans hk hretries)
  have hnumber : (UInt32.ofNat (k + 1)).toNat = k + 1 := UInt32.toNat_ofNat_of_lt' (Nat.lt_of_le_of_lt hk hretries)
  have hless : UInt32.ofNat k < UInt32.ofNat settings.initialConnectionRetries := by
    rwa [UInt32.lt_iff_toNat_lt, hcount, UInt32.toNat_ofNat_of_lt' hretries]
  rw [connectFrom, hcount, h]
  simp only [if_pos hless, ofNat_succ_count, hnumber, UInt32.toNat_ofNat']
  rfl

theorem connectFrom_of_last {f : Failure} (h : outcome settings.initialConnectionRetries = some f) :
    connectFrom settings outcome tell (.ofNat settings.initialConnectionRetries) s =
      (.error (gaveUp ((settings.initialConnectionRetries + 1) % 2 ^ 32) f), tell .attempt s) := by
  rw [connectFrom, UInt32.toNat_ofNat_of_lt' hretries, h]
  simp only [if_neg (UInt32.lt_irrefl _), ofNat_succ_count, UInt32.toNat_ofNat']

/-- Attempts that are refused, one after the other, from the first on. -/
theorem connect_of_refusals {failure : Nat → Failure} {j : Nat} (hj : j ≤ settings.initialConnectionRetries)
    (h : ∀ k < j, outcome k = some (failure k)) :
    connect settings outcome tell s =
      connectFrom settings outcome tell (.ofNat j)
        (tellAll tell ((List.range j).flatMap (refused settings failure)) s) := by
  induction j with
  | zero => rfl
  | succ j ih =>
    have hstep := connectFrom_of_refused tell hretries
      (tellAll tell ((List.range j).flatMap (refused settings failure)) s) hj (h j (Nat.lt_succ_self j))
    rw [ih (Nat.le_of_lt hj) fun k hk => h k (Nat.lt_succ_of_lt hk), hstep, List.range_succ,
      List.flatMap_append, List.flatMap_singleton, tellAll, tellAll, tellAll, List.foldl_append]

end Step

/-- The fault that is reported when every attempt was refused. -/
theorem connect_of_all_refused {failure : Nat → Failure} (hretries : settings.initialConnectionRetries < 2 ^ 32)
    (s : σ) (h : ∀ k ≤ settings.initialConnectionRetries, outcome k = some (failure k)) :
    connect settings outcome tell s =
      (.error (gaveUp ((settings.initialConnectionRetries + 1) % 2 ^ 32)
        (failure settings.initialConnectionRetries)),
      tellAll tell ((List.range settings.initialConnectionRetries).flatMap (refused settings failure) ++
        [.attempt]) s) := by
  rw [connect_of_refusals tell hretries s (Nat.le_refl _) fun k hk => h k (Nat.le_of_lt hk),
    connectFrom_of_last tell hretries _ (h _ (Nat.le_refl _)), tellAll, tellAll, List.foldl_append]
  rfl

end Broker

open Broker

/-- Of every configuration of the first connection: the delays in exact numbers, and what is done. Each
attempt that is refused is made again after its delay, and there is no delay at another time; the one that
is accepted, or the last that may be made, ends it. The number of attempts in the fault is that of the
attempts unless so many retries are allowed as a word can count. -/
theorem first_connection_keeps_policy (settings : BrokerSettings) (hsized : settings.IsSized)
    (failure : Nat → Failure) :
    let retries := settings.initialConnectionRetries
    let total := (retries + 1) % 2 ^ 32
    let refused (k : Nat) : List Doing := [.attempt,
      .note (refusal (k + 1) total (settings.retryDelayMs k) (failure k)), .wait (settings.retryDelayMs k)]
    (∀ k, settings.retryDelayMs k =
      min (settings.initialRetryDelayMs * settings.retryExponentBase ^ k) settings.maxRetryDelayMs) ∧
    (∀ (σ : Type) (tell : Doing → σ → σ) (s : σ) (outcome : Nat → Option Failure),
      (∀ k ≤ retries, outcome k = some (failure k)) →
        connect settings outcome tell s = (.error (gaveUp total (failure retries)),
          tellAll tell ((List.range retries).flatMap refused ++ [.attempt]) s)) ∧
    (∀ (σ : Type) (tell : Doing → σ → σ) (s : σ) (outcome : Nat → Option Failure) (j : Nat), j ≤ retries →
      (∀ k < j, outcome k = some (failure k)) → outcome j = none →
        connect settings outcome tell s = (.ok (), tellAll tell ((List.range j).flatMap refused ++
          .attempt :: if 0 < j then [.note (established j)] else []) s)) ∧
    (total = retries + 1 ↔ retries ≠ 2 ^ 32 - 1) := by
  intro retries total refused
  have hretries : retries < 2 ^ 32 := hsized.initialConnectionRetries
  refine ⟨hsized.retryDelayMs_eq, ?_, ?_, ?_⟩
  · intro σ tell s outcome h
    exact connect_of_all_refused tell hretries s h
  · intro σ tell s outcome j hj hrefused haccepted
    rw [connect_of_refusals tell hretries s hj hrefused, connectFrom_of_accepted tell hretries _ hj haccepted,
      tellAll, tellAll, tellAll, List.foldl_append]
    rfl
  · show (retries + 1) % 2 ^ 32 = retries + 1 ↔ _
    omega

/-- With a base so great that the second delay passes the greatest word. -/
theorem first_connection_keeps_policy_of_great_base :
    let env : Environment := ⟨[("REDIS_INITIAL_CONNECTION_RETRIES", "2".toUTF8.data.toList),
      ("REDIS_RETRY_EXPONENT_BASE", "9223372036854775808".toUTF8.data.toList),
      ("REDIS_MAX_RETRY_DELAY_MS", "18446744073709551615".toUTF8.data.toList)]⟩
    let settings := BrokerSettings.ofEnvironment env
    let told (outcome : Nat → Option Failure) :=
      (connect settings outcome (fun d ds => ds ++ [d]) []).2.filter fun d => d matches .attempt | .wait _
    settings.IsSized ∧ settings.retryDelayMs 1 = 2 ^ 64 - 1 ∧
      told (fun _ => some noSuchFile) = [.attempt, .wait 500, .attempt, .wait (2 ^ 64 - 1), .attempt] ∧
      told (fun k => if k < 1 then some noSuchFile else none) = [.attempt, .wait 500, .attempt] := by
  intro env settings told
  have hsized : settings.IsSized := BrokerSettings.isSized_ofEnvironment env
  obtain ⟨hdelay, hrefused, haccepted, _⟩ := first_connection_keeps_policy settings hsized fun _ => noSuchFile
  refine ⟨hsized, ?_, ?_, ?_⟩
  · rw [hdelay]
    decide +kernel
  · show List.filter _ (connect settings _ _ []).2 = _
    rw [hrefused _ _ _ _ fun _ _ => rfl]
    decide +kernel
  · show List.filter _ (connect settings _ _ []).2 = _
    rw [haccepted _ _ _ _ 1 (by decide +kernel) (fun k hk => if_pos hk) rfl]
    decide +kernel

/-- With as many retries as a word can count, a broker that refuses every attempt is said to have refused
none. -/
theorem attempts_reported_as_none :
    let settings : BrokerSettings := { initialConnectionRetries := 2 ^ 32 - 1 }
    (connect settings (fun _ => some noSuchFile) (fun _ s => s) ()).1 = .error (gaveUp 0 noSuchFile) ∧
      gaveUp 0 noSuchFile ≠ gaveUp (settings.initialConnectionRetries + 1) noSuchFile := by
  intro settings
  have htotal : (settings.initialConnectionRetries + 1) % 2 ^ 32 = 0 := by decide
  refine ⟨?_, by decide +kernel⟩
  rw [connect_of_all_refused (fun _ s => s) (by decide) () fun _ _ => rfl, htotal]

end Tidings
