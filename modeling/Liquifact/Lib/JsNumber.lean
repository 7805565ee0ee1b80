import Mathlib.Data.Rat.Floor
import Mathlib.Order.WithBot
import Mathlib.Tactic.Linarith

/-!
# ECMAScript numbers

`le`, `lt`, `add`, `min`, `max` and `orZero` are `<=`, `<`, `+`, `Math.min`, `Math.max`
and `|| 0`; of a `Numeric`, `isNumber`, `toNumber` and `isZero` are `typeof v === 'number'`,
`Number(v)` (also the conversion a comparison makes) and `v === 0`, which converts nothing.

A number is a finite value, an infinity or `NaN`. Finite values are exact
rationals: the programs verified with this module compare, take minima and add
integers below 2^53, where double precision is exact. A comparison with `NaN` is false.
-/

namespace Liquifact.Lib

inductive JsNumber where
  | nan
  | negInf
  | posInf
  | fin (q : ℚ)
  deriving DecidableEq

namespace JsNumber

def ofNat (n : ℕ) : JsNumber := fin n

def le : JsNumber → JsNumber → Bool
  | nan, _ => false
  | _, nan => false
  | negInf, _ => true
  | _, posInf => true
  | fin a, fin b => decide (a ≤ b)
  | _, _ => false

def lt : JsNumber → JsNumber → Bool
  | nan, _ => false
  | _, nan => false
  | x, y => !le y x

def orZero : JsNumber → JsNumber
  | nan => fin 0
  | x => x

def min (x y : JsNumber) : JsNumber :=
  if x = nan ∨ y = nan then nan else if le x y then x else y

def max (x y : JsNumber) : JsNumber :=
  if x = nan ∨ y = nan then nan else if le x y then y else x

def add : JsNumber → JsNumber → JsNumber
  | nan, _ => nan
  | _, nan => nan
  | posInf, negInf => nan
  | negInf, posInf => nan
  | posInf, _ => posInf
  | _, posInf => posInf
  | negInf, _ => negInf
  | _, negInf => negInf
  | fin a, fin b => fin (a + b)

/- The product with a positive factor. -/
def scale (c : ℚ) : JsNumber → JsNumber
  | fin a => fin (c * a)
  | x => x

@[simp] theorem le_fin (a b : ℚ) : le (fin a) (fin b) = decide (a ≤ b) := rfl

theorem lt_eq_not_le {x y : JsNumber} (hx : x ≠ nan) (hy : y ≠ nan) : lt x y = !le y x := by
  cases x with
  | nan => exact absurd rfl hx
  | _ =>
    cases y with
    | nan => exact absurd rfl hy
    | _ => rfl

theorem not_lt_nan (x : JsNumber) : lt x nan = false := by
  cases x <;> rfl

@[simp] theorem lt_fin (a b : ℚ) : lt (fin a) (fin b) = decide (a < b) := by
  have hlt : lt (fin a) (fin b) = !decide (b ≤ a) := rfl
  rw [hlt, ← decide_not]
  exact decide_eq_decide.mpr not_le

/- The place of a number that is not `NaN` in the order of the extended line. -/
def rank : JsNumber → WithBot (WithTop ℚ)
  | posInf => ((⊤ : WithTop ℚ) : WithBot (WithTop ℚ))
  | fin q => ((q : WithTop ℚ) : WithBot (WithTop ℚ))
  | _ => ⊥

theorem le_iff {x y : JsNumber} : le x y = true ↔ x ≠ nan ∧ y ≠ nan ∧ rank x ≤ rank y := by
  have hnegInf : negInf ≠ nan := by simp
  have hposInf : posInf ≠ nan := by simp
  have hfin (q : ℚ) : fin q ≠ nan := by simp
  cases x with
  | nan => exact iff_of_false Bool.false_ne_true fun h => h.1 rfl
  | negInf =>
    cases y with
    | nan => exact iff_of_false Bool.false_ne_true fun h => h.2.1 rfl
    | negInf => exact iff_of_true rfl ⟨hnegInf, hnegInf, bot_le⟩
    | posInf => exact iff_of_true rfl ⟨hnegInf, hposInf, bot_le⟩
    | fin b => exact iff_of_true rfl ⟨hnegInf, hfin b, bot_le⟩
  | posInf =>
    cases y with
    | nan => exact iff_of_false Bool.false_ne_true fun h => h.2.1 rfl
    | negInf => exact iff_of_false Bool.false_ne_true fun h => (WithBot.bot_lt_coe _).not_ge h.2.2
    | posInf => exact iff_of_true rfl ⟨hposInf, hposInf, le_rfl⟩
    | fin b =>
      have htop : rank (fin b) < rank posInf := WithBot.coe_lt_coe.mpr (WithTop.coe_lt_top b)
      exact iff_of_false Bool.false_ne_true fun h => htop.not_ge h.2.2
  | fin a =>
    cases y with
    | nan => exact iff_of_false Bool.false_ne_true fun h => h.2.1 rfl
    | negInf => exact iff_of_false Bool.false_ne_true fun h => (WithBot.bot_lt_coe _).not_ge h.2.2
    | posInf => exact iff_of_true rfl ⟨hfin a, hposInf, WithBot.coe_le_coe.mpr le_top⟩
    | fin b =>
      have hrank : rank (fin a) ≤ rank (fin b) ↔ a ≤ b := WithBot.coe_le_coe.trans WithTop.coe_le_coe
      rw [le_fin, decide_eq_true_eq, hrank]
      exact ⟨fun h => ⟨hfin a, hfin b, h⟩, fun h => h.2.2⟩

theorem lt_iff {x y : JsNumber} : lt x y = true ↔ x ≠ nan ∧ y ≠ nan ∧ rank x < rank y := by
  by_cases hx : x = nan
  · subst hx
    exact iff_of_false Bool.false_ne_true fun h => h.1 rfl
  by_cases hy : y = nan
  · subst hy
    rw [not_lt_nan]
    exact iff_of_false Bool.false_ne_true fun h => h.2.1 rfl
  rw [lt_eq_not_le hx hy, Bool.not_eq_true', ← Bool.not_eq_true, le_iff]
  constructor
  · intro hle
    exact ⟨hx, hy, not_le.mp fun h => hle ⟨hy, hx, h⟩⟩
  · rintro ⟨-, -, hrank⟩ h
    exact hrank.not_ge h.2.2

end JsNumber

/-- A numeric field as ECMAScript sees it: a number, or the decimal string by which
the database driver hands out a `BIGINT` or `NUMERIC` value. -/
inductive Numeric where
  | number (x : JsNumber)
  | decimal (n : ℤ)
  deriving DecidableEq

namespace Numeric

def isNumber : Numeric → Bool
  | number _ => true
  | decimal _ => false

def toNumber : Numeric → JsNumber
  | number x => x
  | decimal n => .fin n

def isZero : Numeric → Bool
  | number x => decide (x = .fin 0)
  | decimal _ => false

end Numeric

/-! ### The order of numbers -/

namespace JsNumber

theorem orZero_ne_nan (x : JsNumber) : orZero x ≠ nan := by
  cases x <;> nofun

theorem lt_of_not_le {x y : JsNumber} (hx : x ≠ nan) (hy : y ≠ nan) (h : le x y = false) :
    lt y x = true := by
  rw [← Bool.not_eq_true, le_iff] at h
  exact lt_iff.mpr ⟨hy, hx, not_le.mp fun hrank => h ⟨hx, hy, hrank⟩⟩

theorem not_lt_of_le {x y : JsNumber} (h : le x y = true) : lt y x = false := by
  rw [← Bool.not_eq_true, lt_iff]
  rintro ⟨-, -, hlt⟩
  exact hlt.not_ge (le_iff.mp h).2.2

theorem not_lt_of_le_of_not_lt {x x' y : JsNumber} (h : lt x y = false) (hx : le x x' = true) :
    lt x' y = false := by
  rw [← Bool.not_eq_true, lt_iff] at h ⊢
  obtain ⟨hxn, -, hrank⟩ := le_iff.mp hx
  rintro ⟨-, hy, hlt⟩
  exact h ⟨hxn, hy, hrank.trans_lt hlt⟩

theorem le_ofNat {m n : ℕ} (h : m ≤ n) : le (ofNat m) (ofNat n) = true := by
  simp only [ofNat, le_fin, decide_eq_true_eq]
  exact_mod_cast h

theorem le_trans {x y z : JsNumber} (hxy : le x y = true) (hyz : le y z = true) : le x z = true := by
  obtain ⟨hx, -, hrank⟩ := le_iff.mp hxy
  obtain ⟨-, hz, hrank'⟩ := le_iff.mp hyz
  exact le_iff.mpr ⟨hx, hz, hrank.trans hrank'⟩

theorem ne_nan_of_le {x y : JsNumber} (h : le x y = true) : y ≠ nan := (le_iff.mp h).2.1

theorem add_ofNat_le {m n : ℕ} {x : JsNumber} (hx : x ≠ nan) (h : m ≤ n) :
    le (add (ofNat m) x) (add (ofNat n) x) = true := by
  cases x with
  | nan => exact absurd rfl hx
  | negInf => rfl
  | posInf => rfl
  | fin q =>
    have hmn : (m : ℚ) ≤ n := by exact_mod_cast h
    have hadd (k : ℕ) : add (ofNat k) (fin q) = fin (k + q) := rfl
    rw [hadd, hadd, le_fin, decide_eq_true_eq]
    linarith

theorem lt_ofNat (m n : ℕ) : lt (ofNat m) (ofNat n) = decide (m < n) := by
  simp [ofNat]

theorem lt_of_lt_of_le {x y z : JsNumber} (hxy : lt x y = true) (hyz : le y z = true) :
    lt x z = true := by
  obtain ⟨hx, -, hrank⟩ := lt_iff.mp hxy
  obtain ⟨-, hz, hrank'⟩ := le_iff.mp hyz
  exact lt_iff.mpr ⟨hx, hz, hrank.trans_le hrank'⟩

/- Of two numbers that are not `NaN`, `<=` is the negation of `>`. -/
theorem le_eq_not_lt {x y : JsNumber} (hx : x ≠ nan) (hy : y ≠ nan) : le x y = !lt y x := by
  rw [lt_eq_not_le hy hx, Bool.not_not]

theorem add_ne_nan_of_ofNat (n : ℕ) {x : JsNumber} (h : x ≠ nan) : add (ofNat n) x ≠ nan := by
  cases x with
  | nan => exact absurd rfl h
  | _ => nofun

theorem lt_of_le_of_lt {x y z : JsNumber} (hxy : le x y = true) (hyz : lt y z = true) :
    lt x z = true := by
  obtain ⟨hx, -, hrank⟩ := le_iff.mp hxy
  obtain ⟨-, hz, hrank'⟩ := lt_iff.mp hyz
  exact lt_iff.mpr ⟨hx, hz, hrank.trans_lt hrank'⟩

end JsNumber

end Liquifact.Lib
