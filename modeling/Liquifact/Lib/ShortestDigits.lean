import Liquifact.Lib.JsonText
import Mathlib.Tactic.FieldSimp
import Mathlib.Tactic.NormNum
import Mathlib.Tactic.Ring

/-!
# Every double is read back from its text

A rational closer to a double than half the gap to its neighbours rounds to that double.
Seventeen significant digits come that close, so the search of `positiveText` finds
digits, and each of the four layouts of ECMAScript denotes the significand it was given.
The number that `readNumber` makes of the text of a double is the double.
-/

namespace Liquifact.Lib

/-! ### The leading bit -/

theorem leadingBit_le {q : ℚ} (hq : 0 < q) : (2 : ℚ) ^ leadingBit q ≤ q := by
  have hnum : q.num.natAbs ≠ 0 := by simpa using hq.ne'
  have hnumBits : ((2 ^ q.num.natAbs.log2 : ℕ) : ℚ) ≤ q.num.natAbs := by
    exact_mod_cast Nat.log2_self_le hnum
  have hdenBits : (q.den : ℚ) < ((2 ^ (q.den.log2 + 1) : ℕ) : ℚ) := by
    exact_mod_cast Nat.lt_log2_self
  have hvalue : q * q.den = q.num.natAbs := by
    rw [Rat.mul_den_eq_num, Nat.cast_natAbs, abs_of_pos (Rat.num_pos.mpr hq)]
  unfold leadingBit
  dsimp only
  split
  · assumption
  · by_contra hlt
    rw [not_le] at hlt
    have hpow : (2 : ℚ) ^ ((q.num.natAbs.log2 : ℤ) - q.den.log2 - 1) * 2 ^ (q.den.log2 + 1) =
        2 ^ q.num.natAbs.log2 := by
      rw [← zpow_natCast, ← zpow_natCast, ← zpow_add₀ (by norm_num)]
      congr 1
      push_cast
      ring
    have hless : q * q.den < 2 ^ q.num.natAbs.log2 := by
      calc q * q.den < 2 ^ ((q.num.natAbs.log2 : ℤ) - q.den.log2 - 1) * 2 ^ (q.den.log2 + 1) := by
            push_cast at hdenBits
            exact mul_lt_mul'' hlt hdenBits hq.le (by positivity)
        _ = 2 ^ q.num.natAbs.log2 := hpow
    push_cast at hnumBits
    rw [hvalue] at hless
    exact absurd hless hnumBits.not_gt

theorem lt_leadingBit {q : ℚ} (hq : 0 < q) : q < (2 : ℚ) ^ (leadingBit q + 1) := by
  have hnumBits : (q.num.natAbs : ℚ) < ((2 ^ (q.num.natAbs.log2 + 1) : ℕ) : ℚ) := by
    exact_mod_cast Nat.lt_log2_self
  have hdenBits : ((2 ^ q.den.log2 : ℕ) : ℚ) ≤ q.den := by
    exact_mod_cast Nat.log2_self_le q.den_nz
  have hvalue : q * q.den = q.num.natAbs := by
    rw [Rat.mul_den_eq_num, Nat.cast_natAbs, abs_of_pos (Rat.num_pos.mpr hq)]
  have hupper : q < 2 ^ ((q.num.natAbs.log2 : ℤ) - q.den.log2 + 1) := by
    have hpow : (2 : ℚ) ^ ((q.num.natAbs.log2 : ℤ) - q.den.log2 + 1) * 2 ^ q.den.log2 =
        2 ^ (q.num.natAbs.log2 + 1) := by
      rw [← zpow_natCast, ← zpow_natCast, ← zpow_add₀ (by norm_num)]
      congr 1
      push_cast
      ring
    push_cast at hnumBits hdenBits
    by_contra hge
    rw [not_lt] at hge
    have hmore : (2 : ℚ) ^ (q.num.natAbs.log2 + 1) ≤ q * q.den := by
      calc (2 : ℚ) ^ (q.num.natAbs.log2 + 1) =
            2 ^ ((q.num.natAbs.log2 : ℤ) - q.den.log2 + 1) * 2 ^ q.den.log2 := hpow.symm
        _ ≤ q * q.den := mul_le_mul hge hdenBits (by positivity) hq.le
    rw [hvalue] at hmore
    exact absurd hnumBits hmore.not_gt
  unfold leadingBit
  dsimp only
  split
  · exact hupper
  · rename_i hnot
    rw [sub_add_cancel]
    exact not_le.mp hnot

theorem leadingBit_eq {q : ℚ} {b : ℤ} (hle : (2 : ℚ) ^ b ≤ q) (hlt : q < 2 ^ (b + 1)) :
    leadingBit q = b := by
  have hq : 0 < q := lt_of_lt_of_le (by positivity) hle
  have hbelow := (zpow_lt_zpow_iff_right₀ (by norm_num : (1 : ℚ) < 2)).mp
    (lt_of_le_of_lt hle (lt_leadingBit hq))
  have habove := (zpow_lt_zpow_iff_right₀ (by norm_num : (1 : ℚ) < 2)).mp
    (lt_of_le_of_lt (leadingBit_le hq) hlt)
  omega

/-! ### Rounding close to a double -/

theorem roundHalfEven_eq {x : ℚ} {z : ℤ} (h : |x - z| < 1 / 2) : roundHalfEven x = z := by
  obtain ⟨hlow, hhigh⟩ := abs_lt.mp h
  unfold roundHalfEven
  dsimp only
  rcases le_or_gt (z : ℚ) x with hle | hgt
  · have hfloor : ⌊x⌋ = z := Int.floor_eq_iff.mpr ⟨hle, by linarith⟩
    rw [hfloor, if_pos (by linarith)]
  · have hfloor : ⌊x⌋ = z - 1 := by
      refine Int.floor_eq_iff.mpr ⟨?_, ?_⟩
      · push_cast
        linarith
      · push_cast
        linarith
    rw [hfloor]
    push_cast
    rw [if_neg (by linarith), if_pos (by linarith)]
    ring

/- The exponent of the unit in the last place of a double. -/
def unitExponent (q : ℚ) : ℤ := max (leadingBit q - 52) (-1074)

theorem roundPositive_near {q r : ℚ} {z : ℤ} (hmultiple : q = z * 2 ^ unitExponent r)
    (hnear : |r - q| < 2 ^ unitExponent r / 2) (hmax : q < 2 ^ 1024) :
    roundPositive r = .fin q := by
  have hunit : (0 : ℚ) < 2 ^ unitExponent r := by positivity
  have hscaled : |r / 2 ^ unitExponent r - z| < 1 / 2 := by
    have hquotient : r / 2 ^ unitExponent r - z = (r - q) / 2 ^ unitExponent r := by
      rw [hmultiple, sub_div, mul_div_assoc, div_self hunit.ne', mul_one]
    rw [hquotient, abs_div, abs_of_pos hunit, div_lt_iff₀ hunit]
    linarith
  have hround := roundHalfEven_eq hscaled
  unfold roundPositive
  unfold unitExponent at hround hmultiple
  dsimp only
  rw [hround, ← hmultiple, if_pos hmax]

/- A positive double: a multiple of its unit below the overflow threshold. -/
structure PositiveDouble (q : ℚ) : Prop where
  pos : 0 < q
  multiple : ∃ m : ℤ, q = m * 2 ^ unitExponent q
  max : q < 2 ^ 1024

theorem positiveDouble_of_round {q : ℚ} (hq : 0 < q) (h : roundPositive q = .fin q) :
    PositiveDouble q := by
  unfold roundPositive at h
  dsimp only at h
  split at h
  · rename_i hmax
    have hvalue := JsNumber.fin.inj h
    refine ⟨hq, ⟨_, hvalue.symm⟩, ?_⟩
    rwa [hvalue] at hmax
  · cases h

namespace PositiveDouble
variable {q r : ℚ}

theorem unit_le (hq : PositiveDouble q) : (2 : ℚ) ^ unitExponent q ≤ q := by
  obtain ⟨m, hm⟩ := hq.multiple
  have hunit : (0 : ℚ) < 2 ^ unitExponent q := by positivity
  have hpos : 0 < m := by
    have hprod : 0 < (m : ℚ) * 2 ^ unitExponent q := hm ▸ hq.pos
    exact_mod_cast pos_of_mul_pos_left hprod hunit.le
  have hone : (1 : ℚ) ≤ m := by exact_mod_cast hpos
  calc (2 : ℚ) ^ unitExponent q = 1 * 2 ^ unitExponent q := (one_mul _).symm
    _ ≤ m * 2 ^ unitExponent q := mul_le_mul_of_nonneg_right hone hunit.le
    _ = q := hm.symm

/- The smallest positive double is 2^-1074. -/
theorem tiny_le (hq : PositiveDouble q) : (2 : ℚ) ^ (-1074 : ℤ) ≤ q :=
  (zpow_le_zpow_right₀ (by norm_num) (le_max_right _ _)).trans hq.unit_le

theorem lt_units (hq : PositiveDouble q) : q < 2 ^ 53 * 2 ^ unitExponent q := by
  have hexponent : leadingBit q + 1 ≤ 53 + unitExponent q := by
    have := le_max_left (leadingBit q - 52) (-1074)
    unfold unitExponent
    omega
  calc q < 2 ^ (leadingBit q + 1) := lt_leadingBit hq.pos
    _ ≤ 2 ^ (53 + unitExponent q) := zpow_le_zpow_right₀ (by norm_num) hexponent
    _ = 2 ^ 53 * 2 ^ unitExponent q := by rw [zpow_add₀ (by norm_num)]; norm_num

/- A rational above the double's binade is a unit away. -/
theorem leadingBit_not_above (hq : PositiveDouble q) (hr : 0 < r)
    (hclose : |r - q| < 2 ^ unitExponent q / 2) : leadingBit r ≤ leadingBit q := by
  by_contra hgt
  rw [not_le] at hgt
  obtain ⟨m, hm⟩ := hq.multiple
  have hunit : (0 : ℚ) < 2 ^ unitExponent q := by positivity
  have hexponent : unitExponent q ≤ leadingBit q := by
    have hlt := lt_of_le_of_lt hq.unit_le (lt_leadingBit hq.pos)
    have := (zpow_lt_zpow_iff_right₀ (by norm_num : (1 : ℚ) < 2)).mp hlt
    omega
  obtain ⟨d, hd⟩ : ∃ d : ℕ, leadingBit q + 1 = d + unitExponent q :=
    ⟨(leadingBit q + 1 - unitExponent q).toNat, by omega⟩
  have hbinade : (2 : ℚ) ^ (leadingBit q + 1) = ((2 ^ d : ℤ) : ℚ) * 2 ^ unitExponent q := by
    rw [hd, zpow_add₀ (by norm_num), zpow_natCast]
    push_cast
    rfl
  have hless : m + 1 ≤ (2 ^ d : ℤ) := by
    have hlt := lt_leadingBit hq.pos
    rw [hbinade] at hlt
    nth_rewrite 1 [hm] at hlt
    have := lt_of_mul_lt_mul_right hlt hunit.le
    exact_mod_cast this
  have hgap : q + 2 ^ unitExponent q ≤ r := by
    have hcast : (m : ℚ) + 1 ≤ ((2 ^ d : ℤ) : ℚ) := by exact_mod_cast hless
    calc q + 2 ^ unitExponent q = (m + 1) * 2 ^ unitExponent q := by
          nth_rewrite 1 [hm]
          ring
      _ ≤ ((2 ^ d : ℤ) : ℚ) * 2 ^ unitExponent q := mul_le_mul_of_nonneg_right hcast hunit.le
      _ = 2 ^ (leadingBit q + 1) := hbinade.symm
      _ ≤ 2 ^ leadingBit r := zpow_le_zpow_right₀ (by norm_num) (by omega)
      _ ≤ r := leadingBit_le hr
  have := (abs_lt.mp hclose).2
  linarith

/- A rational below the binade of a normal double is close to it only at a power of two. -/
theorem power_of_below (hq : PositiveDouble q) (hr : 0 < r)
    (hclose : |r - q| < 2 ^ unitExponent q / 2) (hbelow : leadingBit r < leadingBit q)
    (hnormal : unitExponent q = leadingBit q - 52) :
    q = 2 ^ leadingBit q ∧ leadingBit r = leadingBit q - 1 := by
  obtain ⟨m, hm⟩ := hq.multiple
  have hunit : (0 : ℚ) < 2 ^ unitExponent q := by positivity
  have hbinade : (2 : ℚ) ^ leadingBit q = 2 ^ 52 * 2 ^ unitExponent q := by
    rw [show leadingBit q = 52 + unitExponent q by omega, zpow_add₀ (by norm_num)]
    norm_num
  have hlow := (abs_lt.mp hclose).1
  have hrlt : r < 2 ^ 52 * 2 ^ unitExponent q := by
    calc r < 2 ^ (leadingBit r + 1) := lt_leadingBit hr
      _ ≤ 2 ^ leadingBit q := zpow_le_zpow_right₀ (by norm_num) (by omega)
      _ = 2 ^ 52 * 2 ^ unitExponent q := hbinade
  have hleast : (2 : ℚ) ^ 52 ≤ m := by
    have hle := leadingBit_le hq.pos
    rw [hbinade] at hle
    nth_rewrite 2 [hm] at hle
    exact le_of_mul_le_mul_right hle hunit
  have hmost : (m : ℚ) < 2 ^ 52 + 1 := by
    have hlt : (m : ℚ) * 2 ^ unitExponent q < (2 ^ 52 + 1) * 2 ^ unitExponent q := by
      rw [← hm]
      linarith
    exact lt_of_mul_lt_mul_right hlt hunit.le
  have hm52 : m = 2 ^ 52 := by
    have hle : (2 : ℤ) ^ 52 ≤ m := by exact_mod_cast hleast
    have hlt : m < 2 ^ 52 + 1 := by exact_mod_cast hmost
    omega
  have hpower : q = 2 ^ leadingBit q := by
    rw [hm52] at hm
    rw [hbinade]
    exact_mod_cast hm
  refine ⟨hpower, leadingBit_eq ?_ ?_⟩
  · have hhalf : (2 : ℚ) ^ (leadingBit q - 1) = 2 ^ 51 * 2 ^ unitExponent q := by
      rw [show leadingBit q - 1 = 51 + unitExponent q by omega, zpow_add₀ (by norm_num)]
      norm_num
    have hvalue : q = 2 ^ 52 * 2 ^ unitExponent q := hpower.trans hbinade
    rw [hhalf]
    linarith
  · rw [sub_add_cancel, hbinade]
    exact hrlt

/-- A rational closer to a double than half a unit rounds to it; below a power of two the
doubles lie twice as close. -/
theorem round_close (hq : PositiveDouble q) (hr : 0 < r)
    (hclose : |r - q| < 2 ^ unitExponent q / 2)
    (hpower : q = 2 ^ leadingBit q → |r - q| < 2 ^ unitExponent q / 4) :
    roundPositive r = .fin q := by
  obtain ⟨m, hm⟩ := hq.multiple
  rcases lt_or_eq_of_le (hq.leadingBit_not_above hr hclose) with hbelow | hsame
  · rcases lt_or_ge (-1074) (leadingBit q - 52) with hnormal | hsubnormal
    · have hexponent : unitExponent q = leadingBit q - 52 := max_eq_left hnormal.le
      obtain ⟨hq2, hbit⟩ := hq.power_of_below hr hclose hbelow hexponent
      have hfiner : unitExponent r = unitExponent q - 1 := by
        have hleft : unitExponent r = leadingBit r - 52 := max_eq_left (by omega)
        omega
      have hhalf : (2 : ℚ) ^ unitExponent q = 2 * 2 ^ unitExponent r := by
        rw [hfiner, zpow_sub₀ (by norm_num), zpow_one]
        ring
      refine roundPositive_near (z := 2 * m) ?_ ?_ hq.max
      · nth_rewrite 1 [hm]
        rw [hhalf]
        push_cast
        ring
      · have := hpower hq2
        linarith
    · have hcoarse : unitExponent r = unitExponent q := by
        have hleft : unitExponent r = -1074 := max_eq_right (by omega)
        have hright : unitExponent q = -1074 := max_eq_right hsubnormal
        rw [hleft, hright]
      exact roundPositive_near (z := m) (hcoarse ▸ hm) (hcoarse ▸ hclose) hq.max
  · have hunit : unitExponent r = unitExponent q := by rw [unitExponent, hsame, unitExponent]
    exact roundPositive_near (z := m) (hunit ▸ hm) (hunit ▸ hclose) hq.max

end PositiveDouble

/-! ### The place of the decimal point -/

theorem length_repr_bounds {n : ℕ} (h : 0 < n) :
    10 ^ (n.repr.length - 1) ≤ n ∧ n < 10 ^ n.repr.length := by
  refine ⟨?_, (Nat.length_repr_le_iff Nat.length_repr_pos).mp le_rfl⟩
  rcases Nat.eq_zero_or_pos (n.repr.length - 1) with hone | hmore
  · rw [hone]
    exact h
  · by_contra hlt
    have := (Nat.length_repr_le_iff hmore).mpr (not_le.mp hlt)
    omega

theorem length_repr_eq {n k : ℕ} (hk : 0 < k) (hle : 10 ^ (k - 1) ≤ n) (hlt : n < 10 ^ k) :
    n.repr.length = k := by
  have hn : 0 < n := lt_of_lt_of_le (by positivity) hle
  have hmost := (Nat.length_repr_le_iff hk).mpr hlt
  have hleast := (Nat.pow_lt_pow_iff_right (by omega : 1 < 10)).mp
    (lt_of_le_of_lt hle (length_repr_bounds hn).2)
  omega

theorem decimalPoint_of_one_le {q : ℚ} (h : 1 ≤ q) :
    (10 : ℚ) ^ (decimalPoint q - 1) ≤ q ∧ q < 10 ^ decimalPoint q := by
  have hwhole : 1 ≤ ⌊q⌋ := Int.le_floor.mpr (by exact_mod_cast h)
  obtain ⟨w, hw⟩ : ∃ w : ℕ, ⌊q⌋ = w := ⟨⌊q⌋.toNat, by omega⟩
  have hpos : 0 < w := by omega
  obtain ⟨hle, hlt⟩ := length_repr_bounds hpos
  have hpoint : decimalPoint q = (w.repr.length : ℤ) := by
    rw [decimalPoint, if_pos h, hw, Int.toNat_natCast]
  have hlen := Nat.length_repr_pos (n := w)
  have hbelow : (w : ℚ) ≤ q := by
    have := Int.floor_le q
    rwa [hw] at this
  have habove : q < w + 1 := by
    have := Int.lt_floor_add_one q
    rwa [hw] at this
  rw [hpoint, show (w.repr.length : ℤ) - 1 = ((w.repr.length - 1 : ℕ) : ℤ) by omega, zpow_natCast,
    zpow_natCast]
  constructor
  · calc (10 : ℚ) ^ (w.repr.length - 1) ≤ w := by exact_mod_cast hle
      _ ≤ q := hbelow
  · calc q < w + 1 := habove
      _ ≤ 10 ^ w.repr.length := by exact_mod_cast hlt

/- A double below one has its first digit among the first 400 places. -/
theorem decimalPoint_of_lt_one {q : ℚ} (hq : PositiveDouble q) (h : q < 1) :
    (10 : ℚ) ^ (decimalPoint q - 1) ≤ q ∧ q < 10 ^ decimalPoint q := by
  have hscaled : 1 ≤ q * 10 ^ 358 := by
    have hpow : (2 : ℚ) ^ (1074 : ℤ) ≤ 10 ^ 358 := by
      calc (2 : ℚ) ^ (1074 : ℤ) = (2 ^ 3) ^ 358 := by rw [← pow_mul]; rfl
        _ ≤ 10 ^ 358 := pow_le_pow_left₀ (by norm_num) (by norm_num) 358
    calc (1 : ℚ) ≤ 2 ^ (-1074 : ℤ) * 10 ^ 358 := by
          rw [zpow_neg, inv_mul_eq_div, one_le_div (by positivity)]
          exact hpow
      _ ≤ q * 10 ^ 358 := mul_le_mul_of_nonneg_right hq.tiny_le (by positivity)
  cases hfind : (List.range 400).find? fun j => decide (1 ≤ q * 10 ^ j) with
  | none =>
    have := List.find?_range_eq_none.mp hfind 358 (by norm_num)
    simp only [Bool.not_eq_true', decide_eq_false_iff_not] at this
    exact absurd hscaled this
  | some j =>
    obtain ⟨hj, -, hfirst⟩ := List.find?_range_eq_some.mp hfind
    rw [decide_eq_true_eq] at hj
    have hpoint : decimalPoint q = 1 - (j : ℤ) := by
      rw [decimalPoint, if_neg h.not_ge, hfind]
    have hpos : 0 < j := by
      by_contra hzero
      rw [show j = 0 by omega] at hj
      linarith
    have hbefore := hfirst (j - 1) (by omega)
    simp only [Bool.not_eq_true', decide_eq_false_iff_not, not_le] at hbefore
    have hten : (0 : ℚ) < 10 ^ j := by positivity
    rw [hpoint]
    constructor
    · rw [show (1 : ℤ) - j - 1 = -(j : ℤ) by ring, zpow_neg, zpow_natCast, inv_le_iff_one_le_mul₀ hten]
      exact hj
    · rw [show (1 : ℤ) - j = -((j - 1 : ℕ) : ℤ) by omega, zpow_neg, zpow_natCast,
        lt_inv_comm₀ hq.pos (by positivity), ← one_div, lt_div_iff₀ hq.pos, mul_comm]
      exact hbefore

theorem decimalPoint_bounds {q : ℚ} (hq : PositiveDouble q) :
    (10 : ℚ) ^ (decimalPoint q - 1) ≤ q ∧ q < 10 ^ decimalPoint q := by
  rcases le_or_gt 1 q with h | h
  · exact decimalPoint_of_one_le h
  · exact decimalPoint_of_lt_one hq h

/-! ### Seventeen digits suffice -/

section Significand
variable {q : ℚ} {n : ℤ} {k s : ℕ}

/- A significand found is next to the scaled number and rounds back. -/
theorem significand_spec (h : significand q n k = some s) :
    roundPositive (s * 10 ^ (n - (k : ℤ))) = .fin q ∧
      (s = ⌊q * 10 ^ ((k : ℤ) - n)⌋.toNat ∨ s = ⌊q * 10 ^ ((k : ℤ) - n)⌋.toNat + 1) := by
  unfold significand at h
  dsimp only at h
  split at h
  · split at h
    · rename_i hback
      cases h
      exact ⟨of_decide_eq_true hback, .inr rfl⟩
    · split at h
      · rename_i hback
        cases h
        exact ⟨of_decide_eq_true hback, .inl rfl⟩
      · cases h
  · split at h
    · rename_i hback
      cases h
      exact ⟨of_decide_eq_true hback, .inl rfl⟩
    · split at h
      · rename_i hback
        cases h
        exact ⟨of_decide_eq_true hback, .inr rfl⟩
      · cases h

theorem significand_bounds (hlow : (10 : ℚ) ^ (n - 1) ≤ q) (hhigh : q < 10 ^ n) (hk : 0 < k)
    (h : significand q n k = some s) : 10 ^ (k - 1) ≤ s ∧ s ≤ 10 ^ k := by
  have hscale : (0 : ℚ) < 10 ^ ((k : ℤ) - n) := by positivity
  have hleast : ((10 ^ (k - 1) : ℕ) : ℚ) ≤ q * 10 ^ ((k : ℤ) - n) := by
    calc ((10 ^ (k - 1) : ℕ) : ℚ) = 10 ^ (n - 1) * 10 ^ ((k : ℤ) - n) := by
          rw [← zpow_add₀ (by norm_num), show n - 1 + ((k : ℤ) - n) = ((k - 1 : ℕ) : ℤ) by omega,
            zpow_natCast]
          push_cast
          rfl
      _ ≤ q * 10 ^ ((k : ℤ) - n) := mul_le_mul_of_nonneg_right hlow hscale.le
  have hmost : q * 10 ^ ((k : ℤ) - n) < ((10 ^ k : ℕ) : ℚ) := by
    calc q * 10 ^ ((k : ℤ) - n) < 10 ^ n * 10 ^ ((k : ℤ) - n) := mul_lt_mul_of_pos_right hhigh hscale
      _ = ((10 ^ k : ℕ) : ℚ) := by
          rw [← zpow_add₀ (by norm_num), show n + ((k : ℤ) - n) = (k : ℤ) by omega, zpow_natCast]
          push_cast
          rfl
  have hfloor : 10 ^ (k - 1) ≤ ⌊q * 10 ^ ((k : ℤ) - n)⌋.toNat := Nat.le_floor hleast
  have hceil : ⌊q * 10 ^ ((k : ℤ) - n)⌋.toNat < 10 ^ k :=
    (Nat.floor_lt ((Nat.cast_nonneg _).trans hleast)).mpr hmost
  rcases (significand_spec h).2 with rfl | rfl
  · exact ⟨hfloor, hceil.le⟩
  · exact ⟨hfloor.trans (Nat.le_succ _), hceil⟩

/- A significand within half a step of the scaled number rounds back at 17 digits. -/
theorem round_seventeen (hq : PositiveDouble q) (hlow : (10 : ℚ) ^ (n - 1) ≤ q)
    (hnear : |(s : ℚ) - q * 10 ^ ((17 : ℤ) - n)| ≤ 1 / 2) :
    roundPositive (s * 10 ^ (n - (17 : ℤ))) = .fin q := by
  have hstep : (0 : ℚ) < 10 ^ (n - (17 : ℤ)) := by positivity
  have hunit : (0 : ℚ) < 2 ^ unitExponent q := by positivity
  have hscale : (10 : ℚ) ^ ((17 : ℤ) - n) * 10 ^ (n - (17 : ℤ)) = 1 := by
    rw [← zpow_add₀ (by norm_num), show (17 : ℤ) - n + (n - 17) = 0 by ring, zpow_zero]
  have hsmall : (10 : ℚ) ^ 16 * 10 ^ (n - (17 : ℤ)) ≤ q := by
    calc (10 : ℚ) ^ 16 * 10 ^ (n - (17 : ℤ)) = 10 ^ (n - 1) := by
          rw [← zpow_natCast, ← zpow_add₀ (by norm_num)]
          congr 1
          push_cast
          ring
      _ ≤ q := hlow
  have herror : |(s : ℚ) * 10 ^ (n - (17 : ℤ)) - q| ≤ 10 ^ (n - (17 : ℤ)) / 2 := by
    have hdiff : (s : ℚ) * 10 ^ (n - (17 : ℤ)) - q =
        ((s : ℚ) - q * 10 ^ ((17 : ℤ) - n)) * 10 ^ (n - (17 : ℤ)) := by
      rw [sub_mul, mul_assoc, hscale, mul_one]
    rw [hdiff, abs_mul, abs_of_pos hstep]
    calc |(s : ℚ) - q * 10 ^ ((17 : ℤ) - n)| * 10 ^ (n - (17 : ℤ)) ≤ 1 / 2 * 10 ^ (n - (17 : ℤ)) :=
          mul_le_mul_of_nonneg_right hnear hstep.le
      _ = 10 ^ (n - (17 : ℤ)) / 2 := by ring
  have hpos : (0 : ℚ) < s * 10 ^ (n - (17 : ℤ)) := by
    have := (abs_le.mp herror).1
    norm_num at hsmall
    linarith
  have hmost := hq.lt_units
  refine hq.round_close hpos ?_ ?_
  · norm_num at hsmall hmost
    linarith
  · intro hpower
    have hhalf : q ≤ 2 ^ 52 * 2 ^ unitExponent q := by
      have hexponent : leadingBit q ≤ 52 + unitExponent q := by
        have := le_max_left (leadingBit q - 52) (-1074)
        unfold unitExponent
        omega
      calc q = 2 ^ leadingBit q := hpower
        _ ≤ 2 ^ (52 + unitExponent q) := zpow_le_zpow_right₀ (by norm_num) hexponent
        _ = 2 ^ 52 * 2 ^ unitExponent q := by rw [zpow_add₀ (by norm_num)]; norm_num
    norm_num at hsmall hhalf
    linarith

/- The search looks at the nearest significand first. -/
theorem significand_of_nearest (hq : 0 < q)
    (hback : ∀ s : ℕ, |(s : ℚ) - q * 10 ^ ((k : ℤ) - n)| ≤ 1 / 2 →
      roundPositive (s * 10 ^ (n - (k : ℤ))) = .fin q) :
    ∃ s, significand q n k = some s := by
  have hscaled : 0 ≤ q * 10 ^ ((k : ℤ) - n) := mul_nonneg hq.le (by positivity)
  unfold significand
  dsimp only
  generalize q * 10 ^ ((k : ℤ) - n) = x at hback hscaled ⊢
  obtain ⟨below, hbelow⟩ : ∃ b : ℕ, ⌊x⌋ = b :=
    ⟨_, (Int.toNat_of_nonneg (Int.floor_nonneg.mpr hscaled)).symm⟩
  obtain ⟨hle, hlt⟩ := Int.floor_eq_iff.mp hbelow
  rw [Int.cast_natCast] at hle hlt
  rw [hbelow, Int.toNat_natCast]
  split
  · rename_i hupper
    have hnear : |((below + 1 : ℕ) : ℚ) - x| ≤ 1 / 2 := by
      rw [abs_le]
      push_cast
      rcases hupper with h | ⟨h, -⟩
      · constructor <;> linarith
      · constructor <;> linarith
    exact ⟨below + 1, if_pos (decide_eq_true (hback _ hnear))⟩
  · rename_i hlower
    rw [not_or] at hlower
    have hnear : |(below : ℚ) - x| ≤ 1 / 2 := by
      rw [abs_le]
      constructor <;> linarith [hlower.1]
    exact ⟨below, if_pos (decide_eq_true (hback _ hnear))⟩

end Significand

/-! ### The layouts are read back -/

section Layout
variable {r : List Char}

theorem readFraction_dot {ds : List Char} (hdigits : ∀ c ∈ ds, c.isDigit = true) (hne : ds ≠ [])
    (hstop : ∀ c ∈ r.head?, c.isDigit = false) : readFraction ('.' :: (ds ++ r)) = some (ds, r) := by
  rw [readFraction, span_isDigit_append hdigits hstop]
  exact if_neg hne

theorem readExponent_signed (e : ℤ) (hr : EndsNumber r) :
    readExponent ('e' :: (((if 0 ≤ e then "+" else "-") ++ Nat.repr e.natAbs).toList ++ r)) =
      some (e, r) := by
  rw [String.toList_append, Nat.toList_repr, List.append_assoc]
  have hspan := span_isDigit_append (isDigit_toDigits e.natAbs) hr.stops
  have hne : Nat.toDigits 10 e.natAbs ≠ [] := Nat.toDigits_ne_nil
  split
  · show readExponent ('e' :: '+' :: (Nat.toDigits 10 e.natAbs ++ r)) = _
    rw [readExponent, if_pos (.inl rfl)]
    simp only [readSign, hspan, if_neg hne, Nat.ofDigitChars_ten_toDigits]
    congr 2
    omega
  · show readExponent ('e' :: '-' :: (Nat.toDigits 10 e.natAbs ++ r)) = _
    rw [readExponent, if_pos (.inl rfl)]
    simp only [readSign, hspan, if_neg hne, Nat.ofDigitChars_ten_toDigits]
    congr 2
    omega

theorem isDigit_zeros (m : ℕ) : ∀ c ∈ List.replicate m '0', c.isDigit = true := by
  intro c hc
  rw [List.eq_of_mem_replicate hc]
  rfl

theorem isDigit_append {a b : List Char} (ha : ∀ c ∈ a, c.isDigit = true)
    (hb : ∀ c ∈ b, c.isDigit = true) : ∀ c ∈ a ++ b, c.isDigit = true := by
  intro c hc
  rcases List.mem_append.mp hc with h | h
  · exact ha c h
  · exact hb c h

/- Digits, then zeros up to the decimal point. -/
theorem readUnsigned_padded {s : ℕ} (hs : 0 < s) (m : ℕ) (hr : EndsNumber r) :
    readUnsigned ((Nat.toDigits 10 s ++ List.replicate m '0') ++ r) =
      some ((s : ℚ) * 10 ^ (m : ℤ), r) := by
  have hhead : (Nat.toDigits 10 s ++ List.replicate m '0').head? ≠ some '0' := by
    rw [List.head?_append_of_ne_nil _ Nat.toDigits_ne_nil]
    exact toDigits_head s hs
  rw [readUnsigned_parts (isDigit_append (isDigit_toDigits s) (isDigit_zeros m)) (by simp)
    (fun h => absurd h hhead) hr.stops hr.no_fraction hr.no_exponent, List.append_nil,
    Nat.ofDigitChars_append, Nat.ofDigitChars_ten_toDigits, Nat.ofDigitChars_replicate_zero]
  simp [mul_comm]

/- The decimal point among the digits. -/
theorem readUnsigned_pointed {s m : ℕ} (hs : 0 < s) (hm : 0 < m)
    (hlen : m < (Nat.toDigits 10 s).length) (hr : EndsNumber r) :
    readUnsigned ((Nat.toDigits 10 s).take m ++ '.' :: ((Nat.toDigits 10 s).drop m ++ r)) =
      some ((s : ℚ) * 10 ^ ((m : ℤ) - (Nat.toDigits 10 s).length), r) := by
  have hhead : ((Nat.toDigits 10 s).take m).head? ≠ some '0' := by
    rw [List.head?_take, if_neg hm.ne']
    exact toDigits_head s hs
  have hwhole : (Nat.toDigits 10 s).take m ≠ [] := by
    simp [hm.ne']
  have hfraction : (Nat.toDigits 10 s).drop m ≠ [] := by
    simpa using hlen
  rw [readUnsigned_parts (fun c hc => isDigit_toDigits s c (List.mem_of_mem_take hc)) hwhole
    (fun h => absurd h hhead) (by simp)
    (readFraction_dot (fun c hc => isDigit_toDigits s c (List.mem_of_mem_drop hc)) hfraction hr.stops)
    hr.no_exponent, List.take_append_drop, Nat.ofDigitChars_ten_toDigits, List.length_drop]
  congr 4
  omega

/- Zeros after the decimal point. -/
theorem readUnsigned_fraction (s m : ℕ) (hr : EndsNumber r) :
    readUnsigned (['0'] ++ '.' :: ((List.replicate m '0' ++ Nat.toDigits 10 s) ++ r)) =
      some ((s : ℚ) * 10 ^ (-(m : ℤ) - (Nat.toDigits 10 s).length), r) := by
  rw [readUnsigned_parts (by simp) (by simp) (fun _ => rfl) (by simp)
    (readFraction_dot (isDigit_append (isDigit_zeros m) (isDigit_toDigits s)) (by simp) hr.stops)
    hr.no_exponent]
  have hvalue : Nat.ofDigitChars 10 (['0'] ++ (List.replicate m '0' ++ Nat.toDigits 10 s)) 0 = s := by
    rw [Nat.ofDigitChars_append, Nat.ofDigitChars_append, Nat.ofDigitChars_replicate_zero]
    simp [Nat.ofDigitChars_cons]
  rw [hvalue, List.length_append, List.length_replicate]
  congr 4
  push_cast
  ring

/- One digit before the decimal point, and an exponent. -/
theorem readUnsigned_scientific {d : Char} {ds : List Char} (hd : d.isDigit = true)
    (hds : ∀ c ∈ ds, c.isDigit = true) (e : ℤ) (hr : EndsNumber r) :
    readUnsigned ([d] ++ ((if ds = [] then [] else '.' :: ds) ++ 'e' ::
      (((if 0 ≤ e then "+" else "-") ++ Nat.repr e.natAbs).toList ++ r))) =
      some ((Nat.ofDigitChars 10 (d :: ds) 0 : ℚ) * 10 ^ (e - ds.length), r) := by
  have hexponent := readExponent_signed e hr
  have hsingle : ∀ c ∈ [d], c.isDigit = true := by simpa using hd
  split
  · rename_i hnil
    rw [List.nil_append, readUnsigned_parts hsingle (by simp) (fun _ => rfl) (by simp)
      (readFraction_of_ne (by simp)) hexponent, hnil]
    rfl
  · rename_i hne
    have hread := readUnsigned_parts hsingle (by simp) (fun _ => rfl) (by simp)
      (readFraction_dot hds hne (by simp)) hexponent
    exact hread

theorem readUnsigned_layout {s : ℕ} (hs : 0 < s) (n : ℤ) (hr : EndsNumber r) :
    readUnsigned ((layout s.repr n).toList ++ r) = some ((s : ℚ) * 10 ^ (n - s.repr.length), r) := by
  have hlen : s.repr.length = (Nat.toDigits 10 s).length := by
    rw [← String.length_toList, Nat.toList_repr]
  rw [hlen]
  unfold layout
  dsimp only
  rw [hlen, Nat.toList_repr]
  split
  · rename_i h
    rw [String.toList_append, Nat.toList_repr, String.toList_ofList, readUnsigned_padded hs _ hr,
      Int.toNat_of_nonneg (by omega)]
  split
  · rename_i hmany h
    rw [String.toList_append, String.toList_append, String.toList_ofList,
      String.toList_ofList (l := (Nat.toDigits 10 s).drop n.toNat), List.append_assoc,
      List.append_assoc]
    have hread := readUnsigned_pointed (m := n.toNat) hs (by omega) (by omega) hr
    rw [Int.toNat_of_nonneg (by omega)] at hread
    exact hread
  split
  · rename_i h
    rw [String.toList_append, String.toList_append, String.toList_ofList, Nat.toList_repr]
    have hread := readUnsigned_fraction s (-n).toNat hr
    rw [Int.toNat_of_nonneg (by omega), neg_neg] at hread
    simpa using hread
  · have hdigits := isDigit_toDigits s
    have hvalue := Nat.ofDigitChars_ten_toDigits (n := s)
    match hds : Nat.toDigits 10 s with
    | [] => exact absurd hds Nat.toDigits_ne_nil
    | [d] =>
      rw [hds] at hdigits hvalue
      have hread := readUnsigned_scientific (hdigits d (by simp)) (List.forall_mem_nil _) (n - 1) hr
      rw [hvalue] at hread
      simpa using hread
    | d :: d' :: ds =>
      rw [hds] at hdigits hvalue
      have hread := readUnsigned_scientific (hdigits d (by simp))
        (fun c hc => hdigits c (List.mem_cons_of_mem d hc)) (n - 1) hr
      rw [hvalue] at hread
      simpa [sub_sub, add_comm] using hread

end Layout

/-! ### Every double is read back -/

/- The text of a significand of `k` digits; rounded up to a power of ten it is a single one. -/
theorem readUnsigned_shown {s k : ℕ} (n : ℤ) (hk : 0 < k) (hle : 10 ^ (k - 1) ≤ s)
    (hlt : s ≤ 10 ^ k) {r : List Char} (hr : EndsNumber r) :
    readUnsigned ((if s = 10 ^ k then layout "1" (n + 1) else layout s.repr n).toList ++ r) =
      some ((s : ℚ) * 10 ^ (n - (k : ℤ)), r) := by
  split
  · rename_i hpower
    have hread := readUnsigned_layout (s := 1) one_pos (n + 1) hr
    rw [show (1 : ℕ).repr = "1" from rfl] at hread
    rw [hread, hpower]
    push_cast
    rw [one_mul, ← zpow_natCast, ← zpow_add₀ (by norm_num)]
    congr 3
    show n + 1 - 1 = (k : ℤ) + (n - k)
    ring
  · rename_i hne
    have hs : 0 < s := lt_of_lt_of_le (by positivity) hle
    rw [readUnsigned_layout hs n hr, length_repr_eq hk hle (lt_of_le_of_ne hlt hne)]

/- The text of a positive double denotes a number that rounds to it. -/
theorem readUnsigned_positiveText {q : ℚ} (hpos : 0 < q) (hround : roundPositive q = .fin q) :
    ∃ v, 0 < v ∧ roundPositive v = .fin q ∧
      ∀ r, EndsNumber r → readUnsigned ((positiveText q).toList ++ r) = some (v, r) := by
  have hq := positiveDouble_of_round hpos hround
  unfold positiveText
  split
  · rename_i hint
    refine ⟨q, hpos, hround, fun r hr => ?_⟩
    have hvalue : ((q.num.toNat : ℕ) : ℚ) = q := by
      have hnum : ((q.num.toNat : ℕ) : ℤ) = q.num := Int.toNat_of_nonneg (Rat.num_pos.mpr hpos).le
      calc ((q.num.toNat : ℕ) : ℚ) = (q.num : ℚ) := by exact_mod_cast congrArg (Int.cast : ℤ → ℚ) hnum
        _ = q := (Rat.den_eq_one_iff q).mp hint.1
    rw [Nat.toList_repr, readUnsigned_toDigits _ hr, hvalue]
  · obtain ⟨hlow, hhigh⟩ := decimalPoint_bounds hq
    dsimp only
    cases hfind : (List.range 18).findSome? fun k => if k = 0 then none else
        (significand q (decimalPoint q) k).map fun s =>
          if s = 10 ^ k then layout "1" (decimalPoint q + 1) else layout s.repr (decimalPoint q) with
    | none =>
      have hnone := List.findSome?_eq_none_iff.mp hfind 17 (by simp)
      obtain ⟨s, hs⟩ := significand_of_nearest (n := decimalPoint q) (k := 17) hpos
        fun s hs => round_seventeen hq hlow hs
      rw [if_neg (by norm_num), hs] at hnone
      cases hnone
    | some text =>
      obtain ⟨k, -, hk⟩ := List.exists_of_findSome?_eq_some hfind
      split at hk
      · cases hk
      · rename_i hk0
        obtain ⟨s, hs, rfl⟩ := Option.map_eq_some_iff.mp hk
        obtain ⟨hle, hlt⟩ := significand_bounds hlow hhigh (Nat.pos_of_ne_zero hk0) hs
        have hspos : (0 : ℚ) < s := by
          exact_mod_cast lt_of_lt_of_le (by positivity : 0 < 10 ^ (k - 1)) hle
        refine ⟨s * 10 ^ (decimalPoint q - (k : ℤ)), by positivity, (significand_spec hs).1, ?_⟩
        intro r hr
        rw [Option.getD_some]
        exact readUnsigned_shown _ (Nat.pos_of_ne_zero hk0) hle hlt hr

theorem readUnsigned_opens {cs : List Char} {v : ℚ} {r : List Char}
    (h : readUnsigned cs = some (v, r)) : ∃ c ds, cs = c :: ds ∧ c.isDigit = true := by
  cases cs with
  | nil => cases h
  | cons c ds =>
    refine ⟨c, ds, rfl, ?_⟩
    by_contra hc
    have hspan : (c :: ds).span Char.isDigit = ([], c :: ds) := by
      rw [List.span_eq_takeWhile_dropWhile, List.takeWhile_cons_of_neg hc, List.dropWhile_cons_of_neg hc]
    simp only [readUnsigned, hspan, if_pos (Or.inl trivial), bind, Option.bind] at h
    cases h

/- Every number that is finite is a double. -/
def IsDouble (x : JsNumber) : Prop := ∀ q, x = .fin q → roundDouble q = .fin q

theorem readsBack_of_positive {q : ℚ} (hpos : 0 < q) (hround : roundPositive q = .fin q) :
    ReadsBack (.fin q) := by
  obtain ⟨v, hv, hback, hread⟩ := readUnsigned_positiveText hpos hround
  have htext : writeNumber (.fin q) = (positiveText q).toList := by
    rw [writeNumber, numberText, if_neg hpos.not_gt]
  have hnil := hread [] (by intro c hc; cases hc)
  rw [List.append_nil] at hnil
  obtain ⟨c, ds, hcs, hc⟩ := readUnsigned_opens hnil
  refine ⟨⟨c, ds, htext.trans hcs, .inr hc⟩, fun r hr => ?_⟩
  have hr' := hread r hr
  rw [hcs, List.cons_append] at hr'
  rw [htext, hcs, List.cons_append, readNumber_of_digit hc, hr', Option.map_some, roundDouble,
    if_neg hv.ne', if_pos hv, hback]

theorem readsBack_of_negative {q : ℚ} (hneg : q < 0) (hround : roundPositive (-q) = .fin (-q)) :
    ReadsBack (.fin q) := by
  obtain ⟨v, hv, hback, hread⟩ := readUnsigned_positiveText (neg_pos.mpr hneg) hround
  have htext : writeNumber (.fin q) = '-' :: (positiveText (-q)).toList := by
    rw [writeNumber, numberText, if_pos hneg, String.toList_append]
    rfl
  refine ⟨⟨'-', _, htext, .inl rfl⟩, fun r hr => ?_⟩
  have hv' : -v < 0 := neg_neg_iff_pos.mpr hv
  rw [htext, List.cons_append, readNumber, hread r hr]
  simp only [Option.map_some, roundDouble, if_neg hv'.ne, if_neg hv'.not_gt, neg_neg, hback,
    JsNumber.neg]

/-- The text of every double is read back as that double. -/
theorem readsBack_of_double (q : ℚ) (h : IsDouble (.fin q)) : ReadsBack (.fin q) := by
  have hround := h q rfl
  unfold roundDouble at hround
  rcases lt_trichotomy q 0 with hneg | rfl | hpos
  · rw [if_neg hneg.ne, if_neg hneg.not_gt] at hround
    refine readsBack_of_negative hneg ?_
    cases hvalue : roundPositive (-q) with
    | fin v =>
      rw [hvalue] at hround
      rw [← JsNumber.fin.inj hround, neg_neg]
    | nan => rw [hvalue] at hround; cases hround
    | negInf => rw [hvalue] at hround; cases hround
    | posInf => rw [hvalue] at hround; cases hround
  · exact readsBack_of_plain 0 ⟨0, by norm_num, by norm_num⟩
  · rw [if_neg hpos.ne', if_pos hpos] at hround
    exact readsBack_of_positive hpos hround

end Liquifact.Lib
