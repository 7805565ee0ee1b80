import Liquifact.Lib.ShortestDigits

/-!
# Rounding keeps the order

`roundDouble` is monotone, and every integer below 2^53 times a power of two in range is its own
rounding. A bound of that form on an exact result is therefore a bound on the rounded one.
-/

namespace Liquifact.Lib

/-! ### Rounding to an integer -/

theorem roundHalfEven_near (x : ℚ) : |(roundHalfEven x : ℚ) - x| ≤ 1 / 2 := by
  have hlow := Int.floor_le x
  have hhigh := Int.lt_floor_add_one x
  unfold roundHalfEven
  dsimp only
  rw [abs_le]
  split
  · constructor <;> linarith
  · split
    · push_cast
      constructor <;> linarith
    · split
      · constructor <;> linarith
      · push_cast
        constructor <;> linarith

theorem roundHalfEven_mono {x y : ℚ} (h : x ≤ y) : roundHalfEven x ≤ roundHalfEven y := by
  by_contra hless
  have hstep : roundHalfEven y + 1 ≤ roundHalfEven x := not_le.mp hless
  have hcast : (roundHalfEven y : ℚ) + 1 ≤ roundHalfEven x := by exact_mod_cast hstep
  have hx := abs_le.mp (roundHalfEven_near x)
  have hy := abs_le.mp (roundHalfEven_near y)
  -- a whole step down over two halves leaves no room between the two
  have heq : x = y := by linarith
  rw [heq] at hless
  exact hless le_rfl

/-! ### Rounding on the grid of a binade -/

theorem leadingBit_mono {p q : ℚ} (hp : 0 < p) (h : p ≤ q) : leadingBit p ≤ leadingBit q := by
  have hlt : (2 : ℚ) ^ leadingBit p < 2 ^ (leadingBit q + 1) :=
    lt_of_le_of_lt ((leadingBit_le hp).trans h) (lt_leadingBit (hp.trans_le h))
  have := (zpow_lt_zpow_iff_right₀ (by norm_num : (1 : ℚ) < 2)).mp hlt
  omega

/- What `roundPositive` gives short of an overflow. -/
def onGrid (q : ℚ) : ℚ := roundHalfEven (q / 2 ^ unitExponent q) * 2 ^ unitExponent q

theorem roundPositive_eq (q : ℚ) :
    roundPositive q = if onGrid q < 2 ^ 1024 then .fin (onGrid q) else .posInf := rfl

/- A multiple of a power of two that is no finer than the grid is on it. -/
theorem grid_multiple {e k : ℤ} (z : ℤ) (hk : e ≤ k) :
    (z : ℚ) * 2 ^ k / 2 ^ e = ((z * 2 ^ (k - e).toNat : ℤ) : ℚ) := by
  obtain ⟨d, rfl⟩ : ∃ d : ℕ, k = e + d := ⟨(k - e).toNat, by omega⟩
  rw [add_sub_cancel_left, Int.toNat_natCast, zpow_add₀ (by norm_num), zpow_natCast]
  have hunit : (2 : ℚ) ^ e ≠ 0 := by positivity
  push_cast
  field_simp

theorem onGrid_le {q : ℚ} {z k : ℤ} (hk : unitExponent q ≤ k) (h : q ≤ z * 2 ^ k) :
    onGrid q ≤ z * 2 ^ k := by
  have hunit : (0 : ℚ) < 2 ^ unitExponent q := by positivity
  have hdiv := div_le_div_of_nonneg_right h hunit.le
  rw [grid_multiple z hk] at hdiv
  have hround := roundHalfEven_mono hdiv
  rw [roundHalfEven_intCast] at hround
  calc onGrid q ≤ ((z * 2 ^ (k - unitExponent q).toNat : ℤ) : ℚ) * 2 ^ unitExponent q :=
        mul_le_mul_of_nonneg_right (by exact_mod_cast hround) hunit.le
    _ = z * 2 ^ k := by rw [← grid_multiple z hk, div_mul_cancel₀ _ hunit.ne']

theorem le_onGrid {q : ℚ} {z k : ℤ} (hk : unitExponent q ≤ k) (h : (z : ℚ) * 2 ^ k ≤ q) :
    (z : ℚ) * 2 ^ k ≤ onGrid q := by
  have hunit : (0 : ℚ) < 2 ^ unitExponent q := by positivity
  have hdiv := div_le_div_of_nonneg_right h hunit.le
  rw [grid_multiple z hk] at hdiv
  have hround := roundHalfEven_mono hdiv
  rw [roundHalfEven_intCast] at hround
  calc (z : ℚ) * 2 ^ k = ((z * 2 ^ (k - unitExponent q).toNat : ℤ) : ℚ) * 2 ^ unitExponent q := by
        rw [← grid_multiple z hk, div_mul_cancel₀ _ hunit.ne']
    _ ≤ onGrid q := mul_le_mul_of_nonneg_right (by exact_mod_cast hround) hunit.le

theorem onGrid_nonneg {q : ℚ} (hq : 0 < q) : 0 ≤ onGrid q := by
  have h := le_onGrid (z := 0) (le_refl (unitExponent q)) (by simpa using hq.le)
  simpa using h

theorem onGrid_mono {p q : ℚ} (hp : 0 < p) (h : p ≤ q) : onGrid p ≤ onGrid q := by
  have hq : 0 < q := hp.trans_le h
  have hbits := leadingBit_mono hp h
  have hexponent : unitExponent p ≤ unitExponent q := max_le_max (by omega) le_rfl
  rcases eq_or_lt_of_le hexponent with hsame | hfiner
  · have hunit : (0 : ℚ) < 2 ^ unitExponent q := by positivity
    have hround := roundHalfEven_mono (div_le_div_of_nonneg_right h hunit.le)
    unfold onGrid
    rw [hsame]
    exact mul_le_mul_of_nonneg_right (by exact_mod_cast hround) hunit.le
  · -- the binade of `q` begins between the two
    have hnormal : unitExponent q = leadingBit q - 52 := by
      unfold unitExponent at hfiner ⊢
      omega
    have hbelow : leadingBit p + 1 ≤ leadingBit q := by
      unfold unitExponent at hfiner
      omega
    have hstart : p ≤ ((1 : ℤ) : ℚ) * 2 ^ leadingBit q := by
      rw [Int.cast_one, one_mul]
      exact (lt_leadingBit hp).le.trans (zpow_le_zpow_right₀ (by norm_num) hbelow)
    have hend : ((1 : ℤ) : ℚ) * 2 ^ leadingBit q ≤ q := by
      rw [Int.cast_one, one_mul]
      exact leadingBit_le hq
    exact (onGrid_le (by omega) hstart).trans (le_onGrid (by omega) hend)

/-! ### The order of the rounded numbers -/

open JsNumber

theorem roundPositive_mono {p q : ℚ} (hp : 0 < p) (h : p ≤ q) :
    le (roundPositive p) (roundPositive q) = true := by
  have hgrid := onGrid_mono hp h
  rw [roundPositive_eq, roundPositive_eq]
  by_cases hq : onGrid q < 2 ^ 1024
  · rw [if_pos hq, if_pos (hgrid.trans_lt hq), le_fin]
    exact decide_eq_true hgrid
  · rw [if_neg hq]
    split
    · rfl
    · rfl

theorem zero_le_roundPositive {q : ℚ} (hq : 0 < q) : le (.fin 0) (roundPositive q) = true := by
  rw [roundPositive_eq]
  split
  · exact decide_eq_true (onGrid_nonneg hq)
  · rfl

theorem neg_le_neg (x y : JsNumber) : le x.neg y.neg = le y x := by
  cases x <;> cases y <;> simp [le, neg]

theorem roundDouble_mono {p q : ℚ} (h : p ≤ q) : le (roundDouble p) (roundDouble q) = true := by
  have hzero : neg (.fin 0) = .fin 0 := by rw [neg, neg_zero]
  unfold roundDouble
  rcases lt_trichotomy p 0 with hp | rfl | hp
  · have hbelow : le (roundPositive (-p)).neg (.fin 0) = true := by
      rw [← hzero, neg_le_neg]
      exact zero_le_roundPositive (neg_pos.mpr hp)
    rw [if_neg hp.ne, if_neg hp.not_gt]
    rcases lt_trichotomy q 0 with hq | rfl | hq
    · rw [if_neg hq.ne, if_neg hq.not_gt, neg_le_neg]
      exact roundPositive_mono (neg_pos.mpr hq) (by linarith)
    · rw [if_pos rfl]
      exact hbelow
    · rw [if_neg hq.ne', if_pos hq]
      exact JsNumber.le_trans hbelow (zero_le_roundPositive hq)
  · rw [if_pos rfl]
    rcases eq_or_lt_of_le h with hq | hq
    · rw [if_pos hq.symm]
      exact decide_eq_true (le_refl (0 : ℚ))
    · rw [if_neg hq.ne', if_pos hq]
      exact zero_le_roundPositive hq
  · rw [if_neg hp.ne', if_pos hp, if_neg (hp.trans_le h).ne', if_pos (hp.trans_le h)]
    exact roundPositive_mono hp h

/-! ### Numbers that are their own rounding -/

theorem roundPositive_scaled {z k : ℤ} (hpos : 0 < z) (hz : z < 2 ^ 53) (hk : -1074 ≤ k)
    (hmax : k ≤ 971) : roundPositive (z * 2 ^ k) = .fin (z * 2 ^ k) := by
  have hunit : (0 : ℚ) < 2 ^ k := by positivity
  have hcast : (0 : ℚ) < z := by exact_mod_cast hpos
  have hlt : (z : ℚ) * 2 ^ k < 2 ^ (53 + k) := by
    have hz' : (z : ℚ) < 2 ^ 53 := by exact_mod_cast hz
    rw [zpow_add₀ (by norm_num)]
    exact mul_lt_mul_of_pos_right (by exact_mod_cast hz') hunit
  have hbits : leadingBit ((z : ℚ) * 2 ^ k) < 53 + k :=
    (zpow_lt_zpow_iff_right₀ (by norm_num : (1 : ℚ) < 2)).mp
      ((leadingBit_le (by positivity)).trans_lt hlt)
  have hgrid : unitExponent ((z : ℚ) * 2 ^ k) ≤ k := max_le (by omega) hk
  have hexact : onGrid ((z : ℚ) * 2 ^ k) = z * 2 ^ k :=
    le_antisymm (onGrid_le hgrid le_rfl) (le_onGrid hgrid le_rfl)
  have hrange : (2 : ℚ) ^ (53 + k) ≤ 2 ^ 1024 := by
    rw [← zpow_natCast]
    exact zpow_le_zpow_right₀ (by norm_num) (by push_cast; omega)
  rw [roundPositive_eq, hexact, if_pos (hlt.trans_le hrange)]

theorem roundDouble_scaled {z k : ℤ} (hz : z.natAbs < 2 ^ 53) (hk : -1074 ≤ k) (hmax : k ≤ 971) :
    roundDouble (z * 2 ^ k) = .fin (z * 2 ^ k) := by
  have hunit : (0 : ℚ) < 2 ^ k := by positivity
  unfold roundDouble
  rcases lt_trichotomy z 0 with hneg | rfl | hpos
  · have hcast : (z : ℚ) < 0 := by exact_mod_cast hneg
    have hprod : (z : ℚ) * 2 ^ k < 0 := mul_neg_of_neg_of_pos hcast hunit
    have hround := roundPositive_scaled (z := -z) (k := k) (by omega) (by omega) hk hmax
    rw [if_neg hprod.ne, if_neg hprod.not_gt, ← neg_mul, ← Int.cast_neg, hround]
    push_cast
    rw [neg, neg_mul, neg_neg]
  · rw [Int.cast_zero, zero_mul, if_pos rfl]
  · have hcast : (0 : ℚ) < z := by exact_mod_cast hpos
    have hprod : 0 < (z : ℚ) * 2 ^ k := mul_pos hcast hunit
    rw [if_neg hprod.ne', if_pos hprod]
    exact roundPositive_scaled hpos (by omega) hk hmax

theorem roundDouble_le {q : ℚ} {z k : ℤ} (hz : z.natAbs < 2 ^ 53) (hk : -1074 ≤ k) (hmax : k ≤ 971)
    (h : q ≤ (z : ℚ) * 2 ^ k) : le (roundDouble q) (.fin (z * 2 ^ k)) = true := by
  rw [← roundDouble_scaled hz hk hmax]
  exact roundDouble_mono h

end Liquifact.Lib
