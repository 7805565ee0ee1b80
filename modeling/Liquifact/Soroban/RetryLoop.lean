import Liquifact.Lib.JsMath
import Liquifact.Soroban.ErrorClassification

/-!
# Retrying Soroban calls (`src/services/soroban.js`)

`withRetry` (347-389) calls the operation until it succeeds, until its error is the last one
or not retryable, or until the budget of elapsed time is used up, and waits for
`computeBackoff` (210-216) between the calls. The budget is compared before the wait.

`operation attempt` is the outcome of call number `attempt`, `draw attempt` the value of
`Math.random()` for the wait after it, and the readings of the clock are arbitrary.
-/

namespace Liquifact.Soroban
open Liquifact.Lib

/- `SOROBAN_RETRY_CONFIG`, as the environment gives it. -/
structure RetryConfig where
  maxRetries : JsNumber
  baseDelay : JsNumber
  maxDelay : JsNumber
  maxElapsedMs : JsNumber

structure RetryOverrides where
  maxRetries : Option JsNumber
  baseDelay : Option JsNumber
  maxDelay : Option JsNumber
  maxElapsedMs : Option JsNumber

/- `Object.assign({}, SOROBAN_RETRY_CONFIG, config)`. -/
def RetryConfig.assign (defaults : RetryConfig) (config : RetryOverrides) : RetryConfig where
  maxRetries := config.maxRetries.getD defaults.maxRetries
  baseDelay := config.baseDelay.getD defaults.baseDelay
  maxDelay := config.maxDelay.getD defaults.maxDelay
  maxElapsedMs := config.maxElapsedMs.getD defaults.maxElapsedMs

/- `Date.now()` when `withRetry` is called, when a call of the operation begins, and when it
has failed. -/
structure Clock where
  start : ℤ
  begins : ℕ → ℤ
  failed : ℕ → ℤ

def computeBackoff (attempt : ℕ) (baseDelay maxDelay : JsNumber) (draw : ℚ) : JsNumber :=
  let safeCap := JsNumber.min maxDelay (.fin 60000)
  let safeBase := JsNumber.min baseDelay (.fin 10000)
  let exp := safeBase.mul (JsNumber.ranged (2 ^ attempt))
  let jitter := (exp.mul (.fin (1 / 5))).mul (.fin (draw * 2 - 1))
  JsNumber.min (JsNumber.max (.fin 0) (exp.add jitter).round) safeCap

/- How a call of `withRetry` ends: the outcome, the number of calls of the operation, and the
waits between them. -/
structure Ended (α : Type) where
  result : Except JsValue α
  calls : ℕ
  waits : List JsNumber

section Loop
variable {α : Type} (cfg : RetryConfig) (operation : ℕ → Except JsValue α) (clock : Clock)
  (draw : ℕ → ℚ)

def attemptAllowed (attempt : ℕ) : Bool :=
  JsNumber.le (.ofNat attempt) (JsNumber.min cfg.maxRetries (.fin 10))

/- The elapsed time at a reading of the clock has used up the budget. -/
def budgetUsedUp (now : ℤ) : Bool :=
  JsNumber.le (JsNumber.min cfg.maxElapsedMs (.fin 120000)) (.fin ((now - clock.start : ℤ) : ℚ))

/- The loop from call number `attempt` on; `fuel` calls are left below the cap. -/
def retryFrom : ℕ → ℕ → JsValue → Ended α
  | 0, attempt, lastErr => ⟨.error lastErr, attempt, []⟩
  | fuel + 1, attempt, lastErr =>
    if attemptAllowed cfg attempt then
      match operation attempt with
      | .ok value => ⟨.ok value, attempt + 1, []⟩
      | .error err =>
        if JsNumber.ofNat attempt = JsNumber.min cfg.maxRetries (.fin 10) ∨
            (classifySorobanError err).retryable = false then ⟨.error err, attempt + 1, []⟩
        else if budgetUsedUp cfg clock (clock.failed attempt) then ⟨.error err, attempt + 1, []⟩
        else
          let rest := retryFrom fuel (attempt + 1) err
          { rest with
            waits := computeBackoff attempt cfg.baseDelay cfg.maxDelay (draw attempt) :: rest.waits }
    else ⟨.error lastErr, attempt, []⟩

def withRetry (defaults : RetryConfig) (config : RetryOverrides) : Ended α :=
  retryFrom (defaults.assign config) operation clock draw 11 0 .undefined

/-! ### What the loop does -/

/- A call that fails in a way that is retried, before the budget is used up. -/
def Retried (attempt : ℕ) : Prop :=
  ∃ err, operation attempt = .error err ∧ (classifySorobanError err).retryable = true ∧
    budgetUsedUp cfg clock (clock.failed attempt) = false

/- The loop comes to this attempt. -/
def Due (attempt : ℕ) : Prop :=
  attemptAllowed cfg attempt = true ∧ ∀ i < attempt, Retried cfg operation clock i

/- From `attempt` on the calls are those that are due, and the result is that of the last. -/
structure Follows (attempt : ℕ) (lastErr : JsValue) (ended : Ended α) : Prop where
  le : attempt ≤ ended.calls
  due : ∀ i, attempt ≤ i → (i < ended.calls ↔ Due cfg operation clock i)
  result : ended.result = if ended.calls = attempt then .error lastErr else operation (ended.calls - 1)

variable {cfg operation clock draw} {attempt : ℕ}

theorem attemptAllowed_iff :
    attemptAllowed cfg attempt = true ↔ JsNumber.le (.ofNat attempt) cfg.maxRetries = true ∧ attempt ≤ 10 := by
  have hcap : JsNumber.le (.ofNat attempt) (.fin 10) = true ↔ attempt ≤ 10 := by
    rw [JsNumber.ofNat, JsNumber.le_fin, decide_eq_true_eq]
    exact_mod_cast Iff.rfl
  rw [attemptAllowed, JsNumber.le_min_iff, hcap]

theorem attemptAllowed_of_le {i : ℕ} (h : attemptAllowed cfg attempt = true) (hle : i ≤ attempt) :
    attemptAllowed cfg i = true :=
  JsNumber.le_trans (JsNumber.le_ofNat hle) h

/- The loop is not entered for `attempt`. -/
theorem follows_refused (hallowed : attemptAllowed cfg attempt = false) (lastErr : JsValue) :
    Follows cfg operation clock attempt lastErr ⟨.error lastErr, attempt, []⟩ := by
  refine ⟨le_rfl, fun i hi => iff_of_false (Nat.not_lt.mpr hi) fun hdue => ?_, (if_pos rfl).symm⟩
  rw [attemptAllowed_of_le hdue.1 hi] at hallowed
  cases hallowed

/- The call ends the loop: no later attempt is due. -/
theorem follows_last {result : Except JsValue α} (hdue : Due cfg operation clock attempt)
    (hop : operation attempt = result) (hlater : ∀ i, attempt < i → ¬ Due cfg operation clock i)
    (lastErr : JsValue) : Follows cfg operation clock attempt lastErr ⟨result, attempt + 1, []⟩ := by
  refine ⟨Nat.le_succ attempt, fun i hi => ?_, ?_⟩
  · rcases Nat.eq_or_lt_of_le hi with rfl | hlt
    · exact iff_of_true (Nat.lt_succ_self _) hdue
    · exact iff_of_false (Nat.not_lt.mpr hlt) (hlater i hlt)
  · rw [if_neg (Nat.succ_ne_self attempt), ← hop]
    rfl

/- The call is followed by another, and the loop goes on from there. -/
theorem Follows.next {err lastErr : JsValue} {rest : Ended α} (hdue : Due cfg operation clock attempt)
    (hop : operation attempt = .error err)
    (h : Follows cfg operation clock (attempt + 1) err rest) (waits : List JsNumber) :
    Follows cfg operation clock attempt lastErr { rest with waits := waits } := by
  obtain ⟨hle, hcalls, hresult⟩ := h
  refine ⟨Nat.le_of_succ_le hle, fun i hi => ?_, ?_⟩
  · rcases Nat.eq_or_lt_of_le hi with rfl | hlt
    · exact iff_of_true hle hdue
    · exact hcalls i hlt
  · show rest.result = if rest.calls = attempt then _ else operation (rest.calls - 1)
    rw [hresult, if_neg (Nat.ne_of_gt hle)]
    split
    · next heq => rw [heq, Nat.add_sub_cancel, hop]
    · rfl

theorem retryFrom_follows {fuel : ℕ} (h : attempt + fuel = 11) (lastErr : JsValue)
    (hbefore : ∀ i < attempt, Retried cfg operation clock i) :
    Follows cfg operation clock attempt lastErr
      (retryFrom cfg operation clock draw fuel attempt lastErr) := by
  induction fuel generalizing attempt lastErr with
  | zero =>
    refine follows_refused ?_ lastErr
    rw [← Bool.not_eq_true, attemptAllowed_iff]
    omega
  | succ fuel ih =>
    rw [retryFrom]
    split
    · next hallowed =>
      have hdue : Due cfg operation clock attempt := ⟨hallowed, hbefore⟩
      cases hop : operation attempt with
      | ok value =>
        refine follows_last hdue hop (fun i hi hlater => ?_) lastErr
        obtain ⟨err, herr, -⟩ := hlater.2 attempt hi
        rw [hop] at herr
        cases herr
      | error err =>
        dsimp only
        split
        · next hstop =>
          refine follows_last hdue hop (fun i hi hlater => ?_) lastErr
          rcases hstop with hmax | hpermanent
          · have hle := hlater.1
            rw [attemptAllowed, ← hmax, JsNumber.ofNat, JsNumber.ofNat, JsNumber.le_fin,
              decide_eq_true_eq, Nat.cast_le] at hle
            omega
          · obtain ⟨err', herr, hretryable, -⟩ := hlater.2 attempt hi
            rw [hop] at herr
            cases herr
            rw [hpermanent] at hretryable
            cases hretryable
        · next hgo =>
          rw [not_or, Bool.not_eq_false] at hgo
          split
          · next hused =>
            refine follows_last hdue hop (fun i hi hlater => ?_) lastErr
            obtain ⟨_, -, -, hleft⟩ := hlater.2 attempt hi
            rw [hused] at hleft
            cases hleft
          · next hleft =>
            rw [Bool.not_eq_true] at hleft
            have hretried : ∀ i < attempt + 1, Retried cfg operation clock i := by
              intro i hi
              rcases Nat.eq_or_lt_of_le (Nat.le_of_lt_succ hi) with rfl | hlt
              · exact ⟨err, hop, hgo.2, hleft⟩
              · exact hbefore i hlt
            exact (ih (by omega) err hretried).next hdue hop _
    · next hallowed =>
      rw [Bool.not_eq_true] at hallowed
      exact follows_refused hallowed lastErr

end Loop

/-! ### The contract of the loop -/

section Contract
variable {α : Type} (defaults : RetryConfig) (config : RetryOverrides)
  (operation : ℕ → Except JsValue α) (clock : Clock) (draw : ℕ → ℚ)

/- One to eleven calls, each but the last with an error that is retried; the result is that of
the last; and none but the first begins when the budget is used up. -/
structure RetryContract : Prop where
  at_least_once : 1 ≤ (withRetry operation clock draw defaults config).calls
  at_most : (withRetry operation clock draw defaults config).calls ≤ 11
  result : (withRetry operation clock draw defaults config).result =
    operation ((withRetry operation clock draw defaults config).calls - 1)
  earlier : ∀ i, i + 1 < (withRetry operation clock draw defaults config).calls →
    ∃ err, operation i = .error err ∧ (classifySorobanError err).retryable = true
  in_budget : ∀ i, 0 < i → i < (withRetry operation clock draw defaults config).calls →
    budgetUsedUp (defaults.assign config) clock (clock.begins i) = false

/- A wait after a failure within the budget lasts until the budget is used up. -/
def OverrunByWait : Prop :=
  ∃ i, 0 < i ∧ Due (defaults.assign config) operation clock i ∧
    budgetUsedUp (defaults.assign config) clock (clock.begins i) = true

end Contract

/-- For every configuration, sequence of outcomes and clock: the loop keeps its contract, if and
only if the number of retries is not negative and not `NaN` and no wait overruns the budget. -/
theorem retry_contract_iff {α : Type} (defaults : RetryConfig) (config : RetryOverrides)
    (operation : ℕ → Except JsValue α) (clock : Clock) (draw : ℕ → ℚ) :
    RetryContract defaults config operation clock draw ↔
      JsNumber.le (.fin 0) (defaults.assign config).maxRetries = true ∧
        ¬ OverrunByWait defaults config operation clock := by
  have hfollows : Follows (defaults.assign config) operation clock 0 .undefined
      (withRetry operation clock draw defaults config) :=
    retryFrom_follows (by omega) .undefined fun i hi => absurd hi (Nat.not_lt_zero i)
  obtain ⟨-, hcalls, hresult⟩ := hfollows
  have hentered : Due (defaults.assign config) operation clock 0 ↔
      JsNumber.le (.fin 0) (defaults.assign config).maxRetries = true := by
    have hzero : JsNumber.ofNat 0 = .fin 0 := rfl
    rw [Due, attemptAllowed_iff, hzero]
    exact ⟨fun h => h.1.1, fun h => ⟨⟨h, Nat.zero_le 10⟩, fun i hi => absurd hi (Nat.not_lt_zero i)⟩⟩
  constructor
  · intro h
    refine ⟨hentered.mp ((hcalls 0 le_rfl).mp h.at_least_once), ?_⟩
    rintro ⟨i, hi, hdue, hused⟩
    rw [h.in_budget i hi ((hcalls i (Nat.zero_le i)).mpr hdue)] at hused
    cases hused
  · rintro ⟨hmax, hoverrun⟩
    have hone := (hcalls 0 le_rfl).mpr (hentered.mpr hmax)
    refine ⟨hone, ?_, ?_, ?_, ?_⟩
    · by_contra hmany
      have hdue := (hcalls 11 (Nat.zero_le _)).mp (by omega)
      have hle := (attemptAllowed_iff.mp hdue.1).2
      omega
    · rw [hresult, if_neg (by omega)]
    · intro i hi
      obtain ⟨err, hop, hretryable, -⟩ := ((hcalls (i + 1) (Nat.zero_le _)).mp hi).2 i (Nat.lt_succ_self i)
      exact ⟨err, hop, hretryable⟩
    · intro i hpos hi
      rw [← Bool.not_eq_true]
      exact fun hused => hoverrun ⟨i, hpos, (hcalls i (Nat.zero_le i)).mp hi, hused⟩

def sampleConfig : RetryConfig := ⟨.fin 3, .fin 200, .fin 5000, .fin 10000⟩

def negativeRetries : RetryOverrides := ⟨some (.fin (-1)), none, none, none⟩

/- The operation would succeed at once, and is not called. -/
theorem negative_retries_uncalled : ¬ ∀ (defaults : RetryConfig) (config : RetryOverrides)
    (operation : ℕ → Except JsValue Bool) (clock : Clock) (draw : ℕ → ℚ),
    RetryContract defaults config operation clock draw := by
  intro h
  have hcalls := (h sampleConfig negativeRetries (fun _ => .ok true) ⟨0, fun _ => 0, fun _ => 0⟩
    fun _ => 0).at_least_once
  exact absurd hcalls (by decide)

end Liquifact.Soroban
