import Liquifact.Lib.RoundingOrder

/-!
# Dates

A `Date` holds a time value, a whole number of milliseconds at most 8.64e15 away from the epoch,
or is invalid. The whole days between two dates are computed in double precision, by
`Math.floor((a.getTime() - b.getTime()) / MS_PER_DAY)`; as far as 2^25 days they are the quotient
rounded down, and further away they stay on the same side.
-/

namespace Liquifact.Lib
open JsNumber

/-! ### Arithmetic in double precision -/

def JsNumber.times (x : JsNumber) (c : ℚ) : JsNumber :=
  match x with
  | .fin q => roundDouble (q * c)
  | x => x

/- The factor and the divisor are positive. -/
def JsNumber.quotient (x : JsNumber) (c : ℚ) : JsNumber :=
  match x with
  | .fin q => roundDouble (q / c)
  | x => x

def JsNumber.floor : JsNumber → JsNumber
  | .fin q => .fin ⌊q⌋
  | x => x

theorem le_quotient {x : JsNumber} {a c : ℚ} (hc : 0 < c) (h : le (.fin a) x = true) :
    le (roundDouble (a / c)) (x.quotient c) = true := by
  cases x with
  | nan => cases h
  | negInf => cases h
  | posInf =>
    have hself := roundDouble_mono (le_refl (a / c))
    cases hround : roundDouble (a / c) with
    | nan => rw [hround] at hself; cases hself
    | negInf => rfl
    | posInf => rfl
    | fin q => rfl
  | fin q => exact roundDouble_mono (div_le_div_of_nonneg_right (of_decide_eq_true h) hc.le)

theorem quotient_le {x : JsNumber} {a c : ℚ} (hc : 0 < c) (h : le x (.fin a) = true) :
    le (x.quotient c) (roundDouble (a / c)) = true := by
  cases x with
  | nan => cases h
  | posInf => cases h
  | negInf =>
    have hself := roundDouble_mono (le_refl (a / c))
    cases hround : roundDouble (a / c) with
    | nan => rw [hround] at hself; cases hself
    | negInf => rfl
    | posInf => rfl
    | fin q => rfl
  | fin q => exact roundDouble_mono (div_le_div_of_nonneg_right (of_decide_eq_true h) hc.le)

theorem le_floor {x : JsNumber} {c : ℤ} (h : le (.fin c) x = true) : le (.fin c) x.floor = true := by
  cases x with
  | nan => cases h
  | negInf => cases h
  | posInf => rfl
  | fin q =>
    have hfloor : c ≤ ⌊q⌋ := Int.le_floor.mpr (of_decide_eq_true h)
    exact decide_eq_true (by exact_mod_cast hfloor)

theorem floor_le {x : JsNumber} {a : ℚ} {c : ℤ} (ha : a < c + 1) (h : le x (.fin a) = true) :
    le x.floor (.fin c) = true := by
  cases x with
  | nan => cases h
  | posInf => cases h
  | negInf => rfl
  | fin q =>
    have hlt : q < ((c + 1 : ℤ) : ℚ) := by
      push_cast
      exact (of_decide_eq_true h).trans_lt ha
    have hfloor : ⌊q⌋ < c + 1 := Int.floor_lt.mpr hlt
    exact decide_eq_true (by exact_mod_cast Int.lt_add_one_iff.mp hfloor)

/-! ### Time values -/

def maxTime : ℕ := 8640000000000000

structure TimeValue where
  ms : ℤ
  inRange : ms.natAbs ≤ maxTime
  deriving DecidableEq

structure Date where
  getTime : Option TimeValue
  deriving DecidableEq

/- `ToIntegerOrInfinity` of a finite number. -/
def truncate (q : ℚ) : ℤ := if q < 0 then ⌈q⌉ else ⌊q⌋

theorem truncate_inRange {q : ℚ} (h : |q| ≤ maxTime) : (truncate q).natAbs ≤ maxTime := by
  obtain ⟨hlow, hhigh⟩ := abs_le.mp h
  unfold truncate
  split
  · next hneg =>
    have hfrom : -(maxTime : ℤ) ≤ ⌈q⌉ := by
      have : ((-(maxTime : ℤ) : ℤ) : ℚ) ≤ ⌈q⌉ := by
        push_cast
        exact hlow.trans (Int.le_ceil q)
      exact_mod_cast this
    have hto : ⌈q⌉ ≤ 0 := Int.ceil_le.mpr (by exact_mod_cast hneg.le)
    omega
  · next hpos =>
    have hfrom : 0 ≤ ⌊q⌋ := Int.floor_nonneg.mpr (not_lt.mp hpos)
    have hto : ⌊q⌋ ≤ (maxTime : ℤ) := by
      have : (⌊q⌋ : ℚ) ≤ ((maxTime : ℤ) : ℚ) := by
        push_cast
        exact (Int.floor_le q).trans hhigh
      exact_mod_cast this
    omega

theorem truncate_intCast (z : ℤ) : truncate z = z := by
  unfold truncate
  split
  · exact Int.ceil_intCast z
  · exact Int.floor_intCast z

def timeClip : JsNumber → Option TimeValue
  | .fin q => if h : |q| ≤ maxTime then some ⟨truncate q, truncate_inRange h⟩ else none
  | _ => none

theorem timeClip_intCast {z : ℤ} (h : z.natAbs ≤ maxTime) : timeClip (.fin z) = some ⟨z, h⟩ := by
  have habs : |(z : ℚ)| ≤ maxTime := by
    rw [← Int.cast_abs]
    have : |z| ≤ (maxTime : ℤ) := by
      rw [Int.abs_eq_natAbs]
      exact_mod_cast h
    exact_mod_cast this
  rw [timeClip, dif_pos habs]
  simp only [truncate_intCast]

/-! ### Whole days -/

def msPerDay : ℕ := 86400000

def wholeDays (a b : TimeValue) : JsNumber :=
  ((roundDouble (a.ms - b.ms)).quotient msPerDay).floor

theorem le_wholeDays {a b : TimeValue} {c : ℤ} (hc : c.natAbs < 2 ^ 25)
    (h : c ≤ (a.ms - b.ms) / (msPerDay : ℤ)) : le (.fin c) (wholeDays a b) = true := by
  have hday : msPerDay = 86400000 := rfl
  rw [hday] at h
  have hms : c * 86400000 ≤ a.ms - b.ms := by omega
  have hexact : le (.fin ((c * 86400000 : ℤ) : ℚ)) (roundDouble (a.ms - b.ms)) = true := by
    rw [← roundDouble_intCast (z := c * 86400000) (by omega)]
    exact roundDouble_mono (by exact_mod_cast hms)
  have hdays := le_quotient (c := (msPerDay : ℚ)) (by rw [hday]; norm_num) hexact
  have hwhole : ((c * 86400000 : ℤ) : ℚ) / msPerDay = c := by
    rw [hday]
    push_cast
    field_simp
  rw [hwhole, roundDouble_intCast (by omega)] at hdays
  exact le_floor hdays

theorem wholeDays_lt {a b : TimeValue} {c : ℤ} (hc : c.natAbs < 2 ^ 25)
    (h : (a.ms - b.ms) / (msPerDay : ℤ) < c) : le (wholeDays a b) (.fin (c - 1 : ℤ)) = true := by
  have hday : msPerDay = 86400000 := rfl
  rw [hday] at h
  have hms : a.ms - b.ms ≤ c * 86400000 - 1 := by omega
  have hexact : le (roundDouble (a.ms - b.ms)) (.fin ((c * 86400000 - 1 : ℤ) : ℚ)) = true := by
    rw [← roundDouble_intCast (z := c * 86400000 - 1) (by omega)]
    exact roundDouble_mono (by exact_mod_cast hms)
  have hdays := quotient_le (c := (msPerDay : ℚ)) (by rw [hday]; norm_num) hexact
  -- a millisecond of a day is more than 2^-27, where the doubles are much finer
  have hfiner : ((c * 86400000 - 1 : ℤ) : ℚ) / msPerDay ≤ ((c * 2 ^ 27 - 1 : ℤ) : ℚ) * 2 ^ (-27 : ℤ) := by
    rw [hday]
    push_cast
    norm_num
    linarith
  have hround := roundDouble_le (z := c * 2 ^ 27 - 1) (k := -27) (by omega) (by norm_num) (by norm_num) hfiner
  refine floor_le ?_ (JsNumber.le_trans hdays hround)
  push_cast
  norm_num
  linarith

end Liquifact.Lib
