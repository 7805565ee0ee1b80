import Mathlib.Tactic.Common

/-!
# The three truth values of SQL

`none` is UNKNOWN, the outcome of every comparison with NULL; a `WHERE` clause keeps the
rows for which its condition is true.
-/

namespace Liquifact.Lib

def sqlAnd : Option Bool → Option Bool → Option Bool
  | some false, _ => some false
  | _, some false => some false
  | some true, some true => some true
  | _, _ => none

def sqlOr : Option Bool → Option Bool → Option Bool
  | some true, _ => some true
  | _, some true => some true
  | some false, some false => some false
  | _, _ => none

def sqlCompare {α : Type} (op : α → α → Bool) : Option α → Option α → Option Bool
  | some a, some b => some (op a b)
  | _, _ => none

/- `x NOT IN (ys)`. -/
def sqlNotIn {α : Type} [DecidableEq α] (x : α) : List (Option α) → Option Bool
  | [] => some true
  | y :: ys => sqlAnd (sqlCompare (fun a b => decide (a ≠ b)) (some x) y) (sqlNotIn x ys)

def holds (t : Option Bool) : Bool := t == some true

@[simp] theorem holds_and (a b : Option Bool) : holds (sqlAnd a b) = (holds a && holds b) := by
  rcases a with _ | _ | _ <;> rcases b with _ | _ | _ <;> rfl

@[simp] theorem holds_or (a b : Option Bool) : holds (sqlOr a b) = (holds a || holds b) := by
  rcases a with _ | _ | _ <;> rcases b with _ | _ | _ <;> rfl

@[simp] theorem holds_some (b : Bool) : holds (some b) = b := by
  cases b <;> rfl

@[simp] theorem holds_none : holds none = false := rfl

/- One NULL among the values is enough to make the condition unknown. -/
theorem holds_notIn {α : Type} [DecidableEq α] (x : α) (ys : List (Option α)) :
    holds (sqlNotIn x ys) = true ↔ ∀ y ∈ ys, ∃ z, y = some z ∧ x ≠ z := by
  induction ys with
  | nil => simp [sqlNotIn]
  | cons y ys ih =>
    rw [sqlNotIn, holds_and, Bool.and_eq_true, ih, List.forall_mem_cons]
    refine and_congr_left fun _ => ?_
    cases y with
    | none => simp [sqlCompare]
    | some z => simp [sqlCompare]

end Liquifact.Lib
