import Mathlib.Tactic.Linarith

/-!
# Fixed-width integers of Rust with `overflow-checks = true`

A value carries its range. Arithmetic whose exact result leaves the range
panics, which is the `error` side of `Except`; the text is the one the
compiler emits.
-/

namespace Liquifact.Lib

abbrev U32 := Fin (2 ^ 32)

abbrev U64 := Fin (2 ^ 64)

instance U64.neZero : NeZero (2 ^ 64) := ⟨by decide⟩

def U64.succ (n : U64) : Except String U64 :=
  if h : n.val + 1 < 2 ^ 64 then .ok ⟨n.val + 1, h⟩ else .error "attempt to add with overflow"

structure I128 where
  val : ℤ
  lower : -2 ^ 127 ≤ val
  upper : val < 2 ^ 127
  deriving DecidableEq

namespace I128

/-- The exact integer `x` as an `i128`, or the panic with text `message`. -/
def checked (message : String) (x : ℤ) : Except String I128 :=
  if h : -2 ^ 127 ≤ x ∧ x < 2 ^ 127 then .ok ⟨x, h.1, h.2⟩ else .error message

def ofU32 (n : U32) : I128 := ⟨n.val, by omega, by omega⟩

def mul (x y : I128) : Except String I128 :=
  checked "attempt to multiply with overflow" (x.val * y.val)

def sub (x y : I128) : Except String I128 :=
  checked "attempt to subtract with overflow" (x.val - y.val)

/- Division by a literal that is not negative: truncates toward zero, in range. -/
def divBy (x : I128) (d : ℕ) : I128 :=
  ⟨x.val.tdiv d, by
    have hl := x.lower
    have hu := x.upper
    have hb := Int.natAbs_tdiv_le_natAbs x.val d
    omega, by
    have hu := x.upper
    have hb := Int.natAbs_tdiv_le_natAbs x.val d
    by_cases hx : 0 ≤ x.val
    · omega
    · have hn : 0 ≤ (-x.val).tdiv d := Int.tdiv_nonneg (by omega) (Int.natCast_nonneg d)
      rw [Int.neg_tdiv] at hn
      omega⟩

theorem checked_ok (message : String) (x : ℤ) (y : I128) (h : checked message x = .ok y) :
    y.val = x := by
  unfold checked at h
  split at h
  · cases h
    rfl
  · cases h

end I128

theorem U64.succ_ok (n m : U64) (h : U64.succ n = .ok m) : m.val = n.val + 1 := by
  unfold U64.succ at h
  split at h
  · cases h
    rfl
  · cases h

end Liquifact.Lib
