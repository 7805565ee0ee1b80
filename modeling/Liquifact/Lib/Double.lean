import Liquifact.Lib.JsNumber
import Mathlib.Algebra.Order.Field.Power
import Mathlib.Data.Sign.Defs
import Mathlib.Tactic.Positivity

/-!
# Decimal text and double precision

`roundDouble` is the double nearest to a rational, ties to the even significand, with the
subnormal range and the overflow to an infinity. `numberText` is `String(x)`: the shortest
digits that round back to the number, laid out as ECMAScript does. An integer below 2^53
is its own rounding and its text is its decimal numeral.
-/

namespace Liquifact.Lib

def roundHalfEven (q : ℚ) : ℤ :=
  let below := ⌊q⌋
  if q - below < 1 / 2 then below
  else if 1 / 2 < q - below then below + 1
  else if below % 2 = 0 then below else below + 1

/- The exponent of the leading bit: `2 ^ e ≤ q < 2 ^ (e + 1)`. -/
def leadingBit (q : ℚ) : ℤ :=
  let e : ℤ := (q.num.natAbs.log2 : ℤ) - q.den.log2
  if (2 : ℚ) ^ e ≤ q then e else e - 1

def roundPositive (q : ℚ) : JsNumber :=
  let e := max (leadingBit q - 52) (-1074)
  let x := (roundHalfEven (q / 2 ^ e) : ℚ) * 2 ^ e
  if x < 2 ^ 1024 then .fin x else .posInf

def JsNumber.neg : JsNumber → JsNumber
  | .nan => .nan
  | .negInf => .posInf
  | .posInf => .negInf
  | .fin q => .fin (-q)

/- The product and `Math.round`, exact but for the overflow to an infinity. -/
def JsNumber.ranged (q : ℚ) : JsNumber :=
  if 2 ^ 1024 ≤ q then .posInf else if q ≤ -2 ^ 1024 then .negInf else .fin q

def JsNumber.sign : JsNumber → SignType
  | .nan => 0
  | .negInf => -1
  | .posInf => 1
  | .fin q => SignType.sign q

/- The product of an infinity, by its sign. -/
def JsNumber.infinity : SignType → JsNumber
  | 0 => .nan
  | 1 => .posInf
  | -1 => .negInf

def JsNumber.mul : JsNumber → JsNumber → JsNumber
  | .nan, _ => .nan
  | _, .nan => .nan
  | .fin a, .fin b => ranged (a * b)
  | x, y => infinity (x.sign * y.sign)

def JsNumber.round : JsNumber → JsNumber
  | .fin q => .fin ⌊q + 1 / 2⌋
  | x => x

def roundDouble (q : ℚ) : JsNumber :=
  if q = 0 then .fin 0
  else if 0 < q then roundPositive q
  else (roundPositive (-q)).neg

/-! ### Range -/

theorem JsNumber.ranged_of_lt {q : ℚ} (h : |q| < 2 ^ 1024) : ranged q = .fin q := by
  obtain ⟨hlow, hhigh⟩ := abs_lt.mp h
  rw [ranged, if_neg hhigh.not_ge, if_neg hlow.not_ge]

theorem JsNumber.lt_of_ranged {p q : ℚ} (h : ranged p = .fin q) : |q| < 2 ^ 1024 := by
  unfold ranged at h
  split at h
  · cases h
  · next hhigh =>
    split at h
    · cases h
    · next hlow =>
      cases h
      exact abs_lt.mpr ⟨not_le.mp hlow, not_le.mp hhigh⟩

/- A finite product has finite factors and is in range. -/
theorem JsNumber.lt_of_mul {x y : JsNumber} {q : ℚ} (h : x.mul y = .fin q) : |q| < 2 ^ 1024 := by
  unfold mul at h
  split at h
  · cases h
  · cases h
  · exact lt_of_ranged h
  · cases hsign : x.sign * y.sign <;> rw [hsign] at h <;> cases h

theorem JsNumber.fin_mul_fin (a b : ℚ) : (fin a).mul (fin b) = ranged (a * b) := rfl

@[simp] theorem JsNumber.infinity_zero : infinity 0 = nan := rfl

@[simp] theorem JsNumber.infinity_one : infinity 1 = posInf := rfl

@[simp] theorem JsNumber.infinity_neg_one : infinity (-1) = negInf := rfl

theorem JsNumber.posInf_mul_fin (b : ℚ) : posInf.mul (fin b) = infinity (SignType.sign b) := by
  rw [← one_mul (SignType.sign b)]
  rfl

theorem JsNumber.negInf_mul_fin (b : ℚ) : negInf.mul (fin b) = infinity (-SignType.sign b) := by
  rw [← neg_one_mul (SignType.sign b)]
  rfl

/-! ### Integers -/

@[simp] theorem roundHalfEven_intCast (z : ℤ) : roundHalfEven z = z := by
  simp [roundHalfEven]

theorem leadingBit_natCast {n : ℕ} (h : 0 < n) : leadingBit n = n.log2 := by
  have hle : (2 : ℚ) ^ (n.log2 : ℤ) ≤ n := by
    rw [zpow_natCast]
    exact_mod_cast Nat.log2_self_le h.ne'
  unfold leadingBit
  rw [Rat.num_natCast, Rat.den_natCast, Int.natAbs_natCast, show Nat.log2 1 = 0 from rfl]
  simp only [Nat.cast_zero, sub_zero]
  rw [if_pos hle]

theorem roundPositive_natCast {n : ℕ} (h0 : 0 < n) (h : n < 2 ^ 53) : roundPositive n = .fin n := by
  have hlog : n.log2 < 53 := (Nat.log2_lt h0.ne').mpr h
  have he : max (leadingBit (n : ℚ) - 52) (-1074) = -((52 - n.log2 : ℕ) : ℤ) := by
    rw [leadingBit_natCast h0]
    omega
  have hscaled : (n : ℚ) / 2 ^ (-((52 - n.log2 : ℕ) : ℤ)) = ((n * 2 ^ (52 - n.log2) : ℕ) : ℤ) := by
    rw [zpow_neg, div_inv_eq_mul, zpow_natCast]
    push_cast
    rfl
  have hback : (((n * 2 ^ (52 - n.log2) : ℕ) : ℤ) : ℚ) * 2 ^ (-((52 - n.log2 : ℕ) : ℤ)) = n := by
    rw [zpow_neg, zpow_natCast]
    push_cast
    rw [mul_assoc, mul_inv_cancel₀ (by positivity), mul_one]
  unfold roundPositive
  simp only [he, hscaled, roundHalfEven_intCast, hback]
  rw [if_pos]
  calc (n : ℚ) < 2 ^ 53 := by exact_mod_cast h
    _ ≤ 2 ^ 1024 := pow_le_pow_right₀ (by norm_num) (by norm_num)

/- Integers below 2^53 are doubles. -/
theorem roundDouble_intCast {z : ℤ} (h : z.natAbs < 2 ^ 53) : roundDouble z = .fin z := by
  unfold roundDouble
  rcases lt_trichotomy z 0 with hneg | rfl | hpos
  · obtain ⟨n, rfl⟩ : ∃ n : ℕ, z = -(n : ℤ) := ⟨z.natAbs, by omega⟩
    have hn : 0 < n := by omega
    have hq : ((-(n : ℤ) : ℤ) : ℚ) < 0 := by exact_mod_cast hneg
    rw [if_neg hq.ne, if_neg hq.not_gt]
    push_cast
    rw [neg_neg, roundPositive_natCast hn (by omega)]
    rfl
  · simp
  · obtain ⟨n, rfl⟩ : ∃ n : ℕ, z = (n : ℤ) := ⟨z.natAbs, by omega⟩
    have hn : 0 < n := by omega
    have hq : (0 : ℚ) < ((n : ℤ) : ℚ) := by exact_mod_cast hpos
    rw [if_neg hq.ne', if_pos hq]
    exact roundPositive_natCast hn (by omega)

/-! ### Text of a number -/

/- The place of the decimal point: `10 ^ (n - 1) ≤ q < 10 ^ n`. -/
def decimalPoint (q : ℚ) : ℤ :=
  if 1 ≤ q then (Nat.repr ⌊q⌋.toNat).length
  else match (List.range 400).find? fun j => decide (1 ≤ q * 10 ^ j) with
    | some j => 1 - (j : ℤ)
    | none => 0

/- The significand of `k` digits closest to `q` among those that round back to it. -/
def significand (q : ℚ) (n : ℤ) (k : ℕ) : Option ℕ :=
  let scaled := q * 10 ^ ((k : ℤ) - n)
  let below := ⌊scaled⌋.toNat
  let back := fun s : ℕ => decide (roundPositive (s * 10 ^ (n - (k : ℤ))) = .fin q)
  let upper := scaled - below > 1 / 2 ∨ (scaled - below = 1 / 2 ∧ below % 2 = 1)
  if upper then
    if back (below + 1) then some (below + 1) else if back below then some below else none
  else if back below then some below else if back (below + 1) then some (below + 1) else none

def layout (digits : String) (n : ℤ) : String :=
  let k : ℤ := digits.length
  if k ≤ n ∧ n ≤ 21 then digits ++ String.ofList (List.replicate (n - k).toNat '0')
  else if 0 < n ∧ n ≤ 21 then
    String.ofList (digits.toList.take n.toNat) ++ "." ++ String.ofList (digits.toList.drop n.toNat)
  else if -6 < n ∧ n ≤ 0 then "0." ++ String.ofList (List.replicate (-n).toNat '0') ++ digits
  else
    let e := n - 1
    let exponent := (if 0 ≤ e then "+" else "-") ++ Nat.repr e.natAbs
    match digits.toList with
    | [d] => String.ofList [d] ++ "e" ++ exponent
    | d :: ds => String.ofList [d] ++ "." ++ String.ofList ds ++ "e" ++ exponent
    | [] => ""

def positiveText (q : ℚ) : String :=
  if q.den = 1 ∧ q.num < 2 ^ 53 then Nat.repr q.num.toNat
  else
    let n := decimalPoint q
    -- a significand rounded up to a power of ten is one digit further to the left
    let shown := fun k s => if s = 10 ^ k then layout "1" (n + 1) else layout (Nat.repr s) n
    let texts := (List.range 18).findSome? fun k =>
      if k = 0 then none else (significand q n k).map (shown k)
    texts.getD ""

/-- `String(x)`; a double needs at most 17 digits. -/
def numberText : JsNumber → String
  | .nan => "NaN"
  | .negInf => "-Infinity"
  | .posInf => "Infinity"
  | .fin q => if q < 0 then "-" ++ positiveText (-q) else positiveText q

end Liquifact.Lib
