import Liquifact.Soroban.RetryLoop
import Liquifact.Utils.Retry

/-!
# The ceilings of the three backoffs

`withRetry` of `src/utils/retry.js` (64-82) clamps the delay and then scales it with the jitter,
`computeBackoff` of `src/services/soroban.js` (210-216) scales first, and `computeTxBackoff` of
`src/workers/txSubmitter.js` (52-55) has no jitter and takes the maximum delay as it is given.
The draw of the jitter is a rational in `[0, 1)`.
-/

namespace Liquifact.Utils
open Liquifact.Lib Liquifact.Soroban

def computeTxBackoff (attempt : ℕ) (baseDelay maxDelay : JsNumber) : JsNumber :=
  let delay := JsNumber.min (baseDelay.mul (JsNumber.ranged (2 ^ attempt))) maxDelay
  JsNumber.max (.fin 0) delay

/- From 0 to `Math.min(maxDelay, 60000)`. -/
def WithinCeiling (maxDelay wait : JsNumber) : Prop :=
  JsNumber.le (.fin 0) wait = true ∧ JsNumber.le wait (JsNumber.min maxDelay (.fin 60000)) = true

section Ceilings
variable (options : RetryOptions) (attempt : ℕ) (draw : ℚ)

/- The waits of the three for the same delays, attempt and draw; `withRetry` retries at most
ten times. -/
structure CeilingsHold : Prop where
  retry : attempt < 10 → WithinCeiling options.maxDelay (jitteredDelay options attempt draw)
  soroban : WithinCeiling options.maxDelay
    (computeBackoff attempt options.baseDelay options.maxDelay draw)
  tx : WithinCeiling options.maxDelay (computeTxBackoff attempt options.baseDelay options.maxDelay)

/- The jitter does not lengthen the delay, or the ceiling is zero, or the lengthened delay is
still below it. -/
def JitterFits : Prop :=
  options.baseDelay ≠ .nan ∧
    (draw ≤ 1 / 2 ∨ capped options.maxDelay 60000 = .fin 0 ∨
      JsNumber.le (((capped options.baseDelay 10000).scale (2 ^ attempt)).scale (4 / 5 + draw * (2 / 5)))
        (capped options.maxDelay 60000) = true)

/- The exponential delay before the jitter. -/
def sorobanExponential : JsNumber :=
  (JsNumber.min options.baseDelay (.fin 10000)).mul (JsNumber.ranged (2 ^ attempt))

/- The exponential delay is finite, or an infinity to which the jitter adds. -/
def ExponentialFits : Prop :=
  (∃ q, sorobanExponential options attempt = .fin q) ∨
    (sorobanExponential options attempt ≠ .nan ∧ 1 / 2 < draw)

/- The given maximum is a ceiling, or the delay stays below the ceiling. -/
def MaximumFits : Prop :=
  options.baseDelay.mul (JsNumber.ranged (2 ^ attempt)) ≠ .nan ∧
    (JsNumber.le options.maxDelay (.fin 60000) = true ∨
      JsNumber.le (options.baseDelay.mul (JsNumber.ranged (2 ^ attempt))) (.fin 60000) = true)

end Ceilings

/-! ### The waits of a run of `withRetry` -/

section Runs
variable {ε α : Type} {options : RetryOptions} {shouldRetry : ε → Bool}
  {operation : ℕ → Except ε α} {draw : ℕ → ℚ}

/- Each wait is the jittered delay of an attempt below ten. -/
theorem retryLoop_waits (fuel attempt : ℕ) :
    ∀ wait ∈ (retryLoop options shouldRetry operation draw fuel attempt).waits,
      ∃ i < 10, wait = jitteredDelay options i (draw i) := by
  induction fuel generalizing attempt with
  | zero =>
    intro wait hwait
    cases hwait
  | succ fuel ih =>
    rw [retryLoop]
    cases operation attempt with
    | ok value =>
      intro wait hwait
      cases hwait
    | error error =>
      dsimp only
      split
      · next hgo =>
        intro wait hwait
        rcases List.mem_cons.mp hwait with rfl | hrest
        · exact ⟨attempt, willRetry_cap hgo, rfl⟩
        · exact ih (attempt + 1) wait hrest
      · intro wait hwait
        cases hwait

end Runs

/-! ### Each implementation -/

section Each
variable {options : RetryOptions} {attempt : ℕ} {draw : ℚ}

/- A maximum delay that is not negative has a finite ceiling, which is the clamped one. -/
theorem ceiling_eq {m : JsNumber} (hm : JsNumber.le (.fin 0) m = true) :
    ∃ q : ℚ, 0 ≤ q ∧ JsNumber.min m (.fin 60000) = .fin q ∧ capped m 60000 = .fin q := by
  cases m with
  | nan => cases hm
  | negInf => cases hm
  | posInf => exact ⟨60000, by norm_num, rfl, by simp [capped, JsNumber.min, JsNumber.max, JsNumber.le]⟩
  | fin q =>
    rw [JsNumber.le_fin, decide_eq_true_eq] at hm
    have hmin : JsNumber.min (.fin q) (.fin 60000) = .fin (min q 60000) := by
      simp only [JsNumber.min, reduceCtorEq, or_self, if_false, JsNumber.le_fin, decide_eq_true_eq]
      rw [← apply_ite JsNumber.fin, ← min_def]
    have hpos : 0 ≤ min q 60000 := le_min hm (by norm_num)
    refine ⟨min q 60000, hpos, hmin, ?_⟩
    rw [capped, hmin]
    simp [JsNumber.max, hpos]

/- The same with exact numbers: `e` the exponential delay, `m` the ceiling, `f` the jitter. -/
theorem scaled_min_le_iff {e m f : ℚ} (he : 0 ≤ e) (hm : 0 ≤ m) (hf : 0 < f) :
    f * min e m ≤ m ↔ f ≤ 1 ∨ m = 0 ∨ f * e ≤ m := by
  constructor
  · intro h
    rcases le_total e m with hle | hle
    · rw [min_eq_left hle] at h
      exact .inr (.inr h)
    · rw [min_eq_right hle] at h
      rcases hm.eq_or_lt with hzero | hpos
      · exact .inr (.inl hzero.symm)
      · exact .inl (le_of_mul_le_mul_right (by linarith) hpos)
  · rintro (hf1 | hzero | hle)
    · calc f * min e m ≤ 1 * min e m := mul_le_mul_of_nonneg_right hf1 (le_min he hm)
        _ ≤ m := by rw [one_mul]; exact min_le_right e m
    · rw [hzero, min_eq_right he, mul_zero]
    · exact (mul_le_mul_of_nonneg_left (min_le_left e m) hf.le).trans hle

theorem jitter_within_iff (hm : JsNumber.le (.fin 0) options.maxDelay = true) (h0 : 0 ≤ draw) :
    WithinCeiling options.maxDelay (jitteredDelay options attempt draw) ↔
      JitterFits options attempt draw := by
  obtain ⟨m, hm0, hmin, hcap⟩ := ceiling_eq hm
  have hnan : capped options.baseDelay 10000 = .nan ↔ options.baseDelay = .nan := by
    rw [capped, ← not_iff_not, ← Ne, JsNumber.max_ne_nan_iff, JsNumber.min_ne_nan_iff]
    simp
  rw [WithinCeiling, JitterFits, jitteredDelay, hmin, hcap]
  rcases capped_cases options.baseDelay (show (0 : ℚ) ≤ 10000 by norm_num) with hbase | ⟨b, hbase, hb0, -⟩
  · rw [hbase]
    exact iff_of_false (fun h => by cases h.1) fun h => h.1 (hnan.mp hbase)
  · have hne : options.baseDelay ≠ .nan := by
      intro h
      rw [hnan.mpr h] at hbase
      cases hbase
    have hdelay : JsNumber.min ((JsNumber.fin b).scale (2 ^ attempt)) (.fin m) =
        .fin (min (2 ^ attempt * b) m) := by
      simp only [JsNumber.scale, JsNumber.min, reduceCtorEq, or_self, if_false, JsNumber.le_fin,
        decide_eq_true_eq]
      rw [← apply_ite JsNumber.fin, ← min_def]
    have hexp : 0 ≤ 2 ^ attempt * b := by positivity
    rw [hbase, hdelay]
    simp only [JsNumber.scale, JsNumber.le_fin, decide_eq_true_eq, JsNumber.fin.injEq, hne, ne_eq,
      not_false_eq_true, true_and]
    generalize 2 ^ attempt * b = e at hexp
    have hfactor : 0 < 4 / 5 + draw * (2 / 5) := by linarith
    have hpos : 0 ≤ (4 / 5 + draw * (2 / 5)) * min e m := mul_nonneg hfactor.le (le_min hexp hm0)
    have hshort : 4 / 5 + draw * (2 / 5) ≤ 1 ↔ draw ≤ 1 / 2 := by
      constructor <;> intro h <;> linarith
    rw [and_iff_right hpos, scaled_min_le_iff hexp hm0 hfactor, hshort]

theorem clamped_within_iff {r : JsNumber} {m : ℚ} (hm : 0 ≤ m) :
    (JsNumber.le (.fin 0) (JsNumber.min (JsNumber.max (.fin 0) r) (.fin m)) = true ∧
      JsNumber.le (JsNumber.min (JsNumber.max (.fin 0) r) (.fin m)) (.fin m) = true) ↔ r ≠ .nan := by
  have hzero : JsNumber.le (.fin 0) (.fin m) = true := by
    rw [JsNumber.le_fin, decide_eq_true_eq]
    exact hm
  have hself : JsNumber.le (.fin m) (.fin m) = true := JsNumber.le_refl (by simp)
  simp [JsNumber.le_min_iff, hzero, hself, JsNumber.le_max_left, JsNumber.min_le_iff,
    JsNumber.min_ne_nan_iff, JsNumber.max_ne_nan_iff]

/- The jitter of a delay is at most its fifth, and the sum of the two is a number unless an
infinity meets no jitter or its opposite. -/
theorem jittered_ne_nan_iff {x : JsNumber} {draw : ℚ} (hrange : ∀ q, x = .fin q → |q| < 2 ^ 1024)
    (h0 : 0 ≤ draw) (h1 : draw < 1) :
    (x.add ((x.mul (.fin (1 / 5))).mul (.fin (draw * 2 - 1)))).round ≠ .nan ↔
      (∃ q, x = .fin q) ∨ (x ≠ .nan ∧ 1 / 2 < draw) := by
  have hsign : SignType.sign (draw * 2 - 1) = 1 ↔ 1 / 2 < draw := by
    rw [sign_eq_one_iff]
    constructor <;> intro h <;> linarith
  have hfifth : SignType.sign (1 / 5 : ℚ) = 1 := sign_eq_one_iff.mpr (by norm_num)
  cases x with
  | nan => simp [JsNumber.add, JsNumber.round]
  | fin q =>
    have hq := hrange q rfl
    have hsmall : |q * (1 / 5)| ≤ |q| := by
      rw [abs_mul, abs_of_pos (by norm_num : (0 : ℚ) < 1 / 5)]
      linarith [abs_nonneg q]
    have hjitter : |q * (1 / 5) * (draw * 2 - 1)| ≤ |q| := by
      rw [abs_mul]
      have hdraw : |draw * 2 - 1| ≤ 1 := abs_le.mpr ⟨by linarith, by linarith⟩
      exact (mul_le_of_le_one_right (abs_nonneg _) hdraw).trans hsmall
    rw [JsNumber.fin_mul_fin, JsNumber.ranged_of_lt (hsmall.trans_lt hq), JsNumber.fin_mul_fin,
      JsNumber.ranged_of_lt (hjitter.trans_lt hq)]
    exact iff_of_true (by simp [JsNumber.add, JsNumber.round]) (.inl ⟨q, rfl⟩)
  | posInf =>
    rw [JsNumber.posInf_mul_fin, hfifth, JsNumber.infinity_one, JsNumber.posInf_mul_fin, ← hsign]
    cases SignType.sign (draw * 2 - 1) <;> simp [JsNumber.add, JsNumber.round]
  | negInf =>
    rw [JsNumber.negInf_mul_fin, hfifth, JsNumber.infinity_neg_one, JsNumber.negInf_mul_fin, ← hsign]
    cases SignType.sign (draw * 2 - 1) <;> simp [JsNumber.add, JsNumber.round]

theorem soroban_within_iff (hm : JsNumber.le (.fin 0) options.maxDelay = true) (h0 : 0 ≤ draw)
    (h1 : draw < 1) :
    WithinCeiling options.maxDelay (computeBackoff attempt options.baseDelay options.maxDelay draw) ↔
      ExponentialFits options attempt draw := by
  obtain ⟨m, hm0, hmin, -⟩ := ceiling_eq hm
  rw [WithinCeiling, computeBackoff, hmin, clamped_within_iff hm0, ExponentialFits]
  exact jittered_ne_nan_iff (fun q hq => JsNumber.lt_of_mul hq) h0 h1

theorem tx_within_iff (hm : JsNumber.le (.fin 0) options.maxDelay = true) :
    WithinCeiling options.maxDelay (computeTxBackoff attempt options.baseDelay options.maxDelay) ↔
      MaximumFits options attempt := by
  have hnan := JsNumber.ne_nan_of_le hm
  have hsixty : JsNumber.le (.fin 0) (.fin 60000) = true := by
    rw [JsNumber.le_fin, decide_eq_true_eq]
    norm_num
  rw [WithinCeiling, MaximumFits, computeTxBackoff]
  simp only [JsNumber.le_max_left, JsNumber.le_min_iff, JsNumber.max_le_iff, hm, hsixty, true_and,
    JsNumber.min_le_iff, JsNumber.max_ne_nan_iff, JsNumber.min_ne_nan_iff, JsNumber.le_refl hnan]
  have hzero : JsNumber.fin 0 ≠ .nan := by simp
  constructor
  · rintro ⟨⟨-, hwait, -⟩, -, -, hbelow⟩
    exact ⟨hwait, hbelow.symm⟩
  · rintro ⟨hwait, hbelow⟩
    exact ⟨⟨hzero, hwait, hnan⟩, ⟨⟨hwait, hnan⟩, Or.inr trivial⟩, ⟨hwait, hnan⟩, hbelow.symm⟩

end Each

/-- For every base delay, maximum delay that is not negative, attempt and draw: the three waits
stay between zero and the ceiling, if and only if the jitter of the first fits below it, the
exponential delay of the second is no obstacle to its jitter, and the maximum of the third is a
ceiling or not reached. -/
theorem ceilings_hold_iff (options : RetryOptions) (attempt : ℕ) (draw : ℚ)
    (hm : JsNumber.le (.fin 0) options.maxDelay = true) (h0 : 0 ≤ draw) (h1 : draw < 1) :
    CeilingsHold options attempt draw ↔
      (attempt < 10 → JitterFits options attempt draw) ∧ ExponentialFits options attempt draw ∧
        MaximumFits options attempt := by
  rw [← jitter_within_iff hm h0, ← soroban_within_iff hm h0 h1, ← tx_within_iff hm]
  exact ⟨fun h => ⟨h.retry, h.soroban, h.tx⟩, fun ⟨hretry, hsoroban, htx⟩ => ⟨hretry, hsoroban, htx⟩⟩

/- Half a second, at most one second. -/
def oneSecond : RetryOptions := ⟨.fin 3, .fin 500, .fin 1000⟩

theorem ceilings_hold_one_second : CeilingsHold oneSecond 1 (1 / 4) ↔
    (1 < 10 → JitterFits oneSecond 1 (1 / 4)) ∧ ExponentialFits oneSecond 1 (1 / 4) ∧
      MaximumFits oneSecond 1 :=
  ceilings_hold_iff oneSecond 1 (1 / 4) (by decide) (by norm_num) (by norm_num)

/- The second wait with a late draw is 1160 milliseconds. -/
theorem jitter_above_ceiling : ¬ ∀ (options : RetryOptions) (attempt : ℕ) (draw : ℚ),
    JsNumber.le (.fin 0) options.maxDelay = true → 0 ≤ draw → draw < 1 →
    CeilingsHold options attempt draw := by
  intro h
  have hwait := ((h oneSecond 1 (9 / 10) (by decide) (by norm_num) (by norm_num)).retry
    (by norm_num)).2
  exact absurd hwait (by decide +kernel)

end Liquifact.Utils
