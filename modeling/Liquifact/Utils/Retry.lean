import Liquifact.Lib.JsNumber

/-!
# Retrying with backoff (`src/utils/retry.js`)

`withRetry` (28-88) calls an operation until it succeeds, until `shouldRetry` refuses its
error, or until the capped number of retries is used up, and waits between the calls. The
outcome of call number `attempt` is `operation attempt`, and `draw attempt` is the value of
`Math.random()` for the wait after it.
-/

namespace Liquifact.Utils
open Liquifact.Lib

structure RetryOptions where
  maxRetries : JsNumber
  baseDelay : JsNumber
  maxDelay : JsNumber

/- `Math.max(0, Math.min(raw, cap))`. -/
def capped (raw : JsNumber) (cap : ℚ) : JsNumber := JsNumber.max (.fin 0) (JsNumber.min raw (.fin cap))

/-- How a call of `withRetry` ends: the outcome, the number of calls of the operation, and
the waits between them. -/
structure Retried (ε α : Type) where
  result : Except ε α
  attempts : ℕ
  waits : List JsNumber

def jitteredDelay (options : RetryOptions) (attempt : ℕ) (draw : ℚ) : JsNumber :=
  let exponentialDelay := (capped options.baseDelay 10000).scale (2 ^ attempt)
  (JsNumber.min exponentialDelay (capped options.maxDelay 60000)).scale (4 / 5 + draw * (2 / 5))

section Retry
variable {ε α : Type} (options : RetryOptions) (shouldRetry : ε → Bool)
  (operation : ℕ → Except ε α) (draw : ℕ → ℚ)

def willRetry (attempt : ℕ) (error : ε) : Bool :=
  JsNumber.lt (.ofNat attempt) (capped options.maxRetries 10) && shouldRetry error

/- The loop from call number `attempt` on, for at most `fuel` retries. -/
def retryLoop : ℕ → ℕ → Retried ε α
  | 0, attempt => ⟨operation attempt, attempt + 1, []⟩
  | fuel + 1, attempt =>
    match operation attempt with
    | .ok value => ⟨.ok value, attempt + 1, []⟩
    | .error error =>
      if willRetry options shouldRetry attempt error then
        let rest := retryLoop fuel (attempt + 1)
        { rest with waits := jitteredDelay options attempt (draw attempt) :: rest.waits }
      else ⟨.error error, attempt + 1, []⟩

def withRetry : Retried ε α := retryLoop options shouldRetry operation draw 10 0

variable {options shouldRetry operation draw}

theorem capped_cases (raw : JsNumber) {cap : ℚ} (hcap : 0 ≤ cap) :
    capped raw cap = .nan ∨ ∃ q, capped raw cap = .fin q ∧ 0 ≤ q ∧ q ≤ cap := by
  cases raw with
  | nan => exact .inl rfl
  | negInf => exact .inr ⟨0, rfl, le_rfl, hcap⟩
  | posInf => exact .inr ⟨cap, by simp [capped, JsNumber.min, JsNumber.max, JsNumber.le, hcap], hcap, le_rfl⟩
  | fin r =>
    refine .inr ⟨max 0 (min r cap), ?_, le_max_left _ _, max_le hcap (min_le_right _ _)⟩
    simp only [capped, JsNumber.min, JsNumber.max, reduceCtorEq, or_self, if_false, JsNumber.le_fin,
      decide_eq_true_eq]
    rw [← apply_ite JsNumber.fin, ← min_def]
    simp only [reduceCtorEq, or_self, if_false, JsNumber.le_fin, decide_eq_true_eq]
    rw [← apply_ite JsNumber.fin, ← max_def]

theorem willRetry_cap {attempt : ℕ} {error : ε}
    (h : willRetry options shouldRetry attempt error = true) : attempt < 10 := by
  obtain ⟨hlt, -⟩ := Bool.and_eq_true_iff.mp h
  rcases capped_cases options.maxRetries (show (0 : ℚ) ≤ 10 by norm_num) with hnan | ⟨q, hq, -, hle⟩
  · rw [hnan] at hlt
    cases hlt
  · rw [hq, JsNumber.ofNat, JsNumber.lt_fin, decide_eq_true_eq] at hlt
    exact_mod_cast hlt.trans_le hle

/- The turn of the source's loop: the cap ends it before the fuel does. -/
theorem retryLoop_turn {fuel attempt : ℕ} (h : attempt + fuel = 10) :
    retryLoop options shouldRetry operation draw fuel attempt =
      match operation attempt with
      | .ok value => ⟨.ok value, attempt + 1, []⟩
      | .error error =>
        if willRetry options shouldRetry attempt error then
          let rest := retryLoop options shouldRetry operation draw (fuel - 1) (attempt + 1)
          { rest with waits := jitteredDelay options attempt (draw attempt) :: rest.waits }
        else ⟨.error error, attempt + 1, []⟩ := by
  cases fuel with
  | succ fuel => rfl
  | zero =>
    rw [retryLoop]
    cases operation attempt with
    | ok value => rfl
    | error error =>
      have hstop : ¬ willRetry options shouldRetry attempt error = true := by
        intro hgo
        have hlt := willRetry_cap hgo
        omega
      simp only [if_neg hstop]

theorem withRetry_first {error : ε} (hop : operation 0 = .error error)
    (hstop : willRetry options shouldRetry 0 error = false) :
    withRetry options shouldRetry operation draw = ⟨.error error, 1, []⟩ := by
  rw [withRetry, retryLoop, hop]
  simp only [hstop, Bool.false_eq_true, if_false]

/- A loop that gives up has called the operation up to a call `last` whose error it does not
retry, and each call before that failed with an error it did retry. -/
theorem retryLoop_error {fuel attempt : ℕ} (h : attempt + fuel = 10) {error : ε}
    (hresult : (retryLoop options shouldRetry operation draw fuel attempt).result = .error error) :
    ∃ last, attempt ≤ last ∧
      (retryLoop options shouldRetry operation draw fuel attempt).attempts = last + 1 ∧
      operation last = .error error ∧ willRetry options shouldRetry last error = false ∧
      ∀ i, attempt ≤ i → i < last →
        ∃ e, operation i = .error e ∧ willRetry options shouldRetry i e = true := by
  induction fuel generalizing attempt with
  | zero =>
    rw [retryLoop] at hresult
    refine ⟨attempt, le_rfl, rfl, hresult, ?_, fun i hi hlt => absurd hlt (by omega)⟩
    rw [← Bool.not_eq_true]
    intro hgo
    have hlt := willRetry_cap hgo
    omega
  | succ fuel ih =>
    rw [retryLoop] at hresult ⊢
    cases hop : operation attempt with
    | ok value =>
      rw [hop] at hresult
      cases hresult
    | error e =>
      rw [hop] at hresult
      dsimp only at hresult ⊢
      cases hgo : willRetry options shouldRetry attempt e with
      | false =>
        rw [hgo] at hresult
        cases hresult
        exact ⟨attempt, le_rfl, rfl, hop, hgo, fun i hi hlt => absurd hlt (by omega)⟩
      | true =>
        rw [hgo] at hresult
        obtain ⟨last, hle, hcount, hlast, hstop, hbefore⟩ := ih (by omega) hresult
        refine ⟨last, by omega, hcount, hlast, hstop, ?_⟩
        intro i hi hlt
        rcases Nat.eq_or_lt_of_le hi with rfl | hi
        · exact ⟨e, hop, hgo⟩
        · exact hbefore i hi hlt

end Retry

end Liquifact.Utils
