import Mathlib.Data.List.Basic
import Mathlib.Tactic.Common

/-!
# A loop that puts elements back on the list it drains

Each turn shifts the first element off a list and drops it, takes it and stops, or appends
it to the end of the same list; the loop also stops when the list is empty. The turns go
through the elements before the first one that is taken, once. If none is taken and one was
put back, the loop does not end.
-/

namespace Liquifact.Lib

inductive Verdict where
  | drop
  | take
  | putBack
  deriving DecidableEq

section Rotation
variable {α : Type} (judge : α → Verdict)

/- The outer `none` is a loop that has not ended within `fuel` turns. -/
def rotate : ℕ → List α → Option (Option α × List α)
  | 0, _ => none
  | _ + 1, [] => some (none, [])
  | fuel + 1, x :: rest =>
    match judge x with
    | .drop => rotate fuel rest
    | .take => some (some x, rest)
    | .putBack => rotate fuel (rest ++ [x])

/- The elements shifted off in the first `fuel` turns. -/
def visited : ℕ → List α → List α
  | 0, _ => []
  | _ + 1, [] => []
  | fuel + 1, x :: rest =>
    match judge x with
    | .drop => x :: visited fuel rest
    | .take => [x]
    | .putBack => x :: visited fuel (rest ++ [x])

def returned (l : List α) : List α := l.filter fun x => decide (judge x = .putBack)

variable {judge}

theorem mem_returned {l : List α} {x : α} : x ∈ returned judge l ↔ x ∈ l ∧ judge x = .putBack := by
  simp [returned]

theorem rotate_append {pre : List α} (hpre : ∀ x ∈ pre, judge x ≠ .take) (fuel : ℕ)
    (rest : List α) :
    rotate judge (pre.length + fuel) (pre ++ rest) =
      rotate judge fuel (rest ++ returned judge pre) := by
  induction pre generalizing rest with
  | nil => simp [returned]
  | cons x pre ih =>
    have htail := ih fun y hy => hpre y (List.mem_cons_of_mem _ hy)
    rw [List.length_cons, Nat.add_right_comm, List.cons_append, rotate]
    cases hx : judge x with
    | drop => simp [htail, returned, hx]
    | take => exact absurd hx (hpre x (List.mem_cons_self ..))
    | putBack =>
      simp only [List.append_assoc]
      rw [htail]
      simp [returned, hx]

theorem visited_append {pre : List α} (hpre : ∀ x ∈ pre, judge x ≠ .take) (fuel : ℕ)
    (rest : List α) :
    visited judge (pre.length + fuel) (pre ++ rest) =
      pre ++ visited judge fuel (rest ++ returned judge pre) := by
  induction pre generalizing rest with
  | nil => simp [returned]
  | cons x pre ih =>
    have htail := ih fun y hy => hpre y (List.mem_cons_of_mem _ hy)
    rw [List.length_cons, Nat.add_right_comm, List.cons_append, visited]
    cases hx : judge x with
    | drop => simp [htail, returned, hx]
    | take => exact absurd hx (hpre x (List.mem_cons_self ..))
    | putBack =>
      simp only [List.append_assoc]
      rw [htail]
      simp [returned, hx]

theorem rotate_succ {fuel : ℕ} {l : List α} {out : Option α × List α}
    (h : rotate judge fuel l = some out) : rotate judge (fuel + 1) l = some out := by
  induction fuel generalizing l with
  | zero => cases h
  | succ fuel ih =>
    cases l with
    | nil => exact h
    | cons x rest =>
      rw [rotate] at h ⊢
      cases hx : judge x with
      | drop =>
        simp only [hx] at h ⊢
        exact ih h
      | take =>
        simp only [hx] at h ⊢
        exact h
      | putBack =>
        simp only [hx] at h ⊢
        exact ih h

theorem rotate_mono {fuel fuel' : ℕ} (hle : fuel ≤ fuel') {l : List α} {out : Option α × List α}
    (h : rotate judge fuel l = some out) : rotate judge fuel' l = some out := by
  induction hle with
  | refl => exact h
  | step _ ih => exact rotate_succ ih

/- Two fuels that suffice give one answer. -/
theorem rotate_unique {fuel fuel' : ℕ} {l : List α} {out out' : Option α × List α}
    (h : rotate judge fuel l = some out) (h' : rotate judge fuel' l = some out') : out = out' := by
  have hmax := rotate_mono (Nat.le_max_left fuel fuel') h
  have hmax' := rotate_mono (Nat.le_max_right fuel fuel') h'
  exact Option.some.inj (hmax.symm.trans hmax')

theorem visited_prefix_succ (fuel : ℕ) (l : List α) :
    visited judge fuel l <+: visited judge (fuel + 1) l := by
  induction fuel generalizing l with
  | zero => exact List.nil_prefix
  | succ fuel ih =>
    cases l with
    | nil => exact List.prefix_refl _
    | cons x rest =>
      rw [visited, visited]
      cases judge x with
      | drop => exact (List.prefix_cons_inj x).mpr (ih rest)
      | take => exact List.prefix_refl _
      | putBack => exact (List.prefix_cons_inj x).mpr (ih (rest ++ [x]))

theorem visited_prefix {fuel fuel' : ℕ} (hle : fuel ≤ fuel') (l : List α) :
    visited judge fuel l <+: visited judge fuel' l := by
  induction hle with
  | refl => exact List.prefix_refl _
  | step _ ih => exact ih.trans (visited_prefix_succ _ l)

/-! ### How the loop ends -/

/- Elements that are all put back go round for ever. -/
theorem rotate_of_putBack {l : List α} (hne : l ≠ []) (hl : ∀ x ∈ l, judge x = .putBack)
    (fuel : ℕ) : rotate judge fuel l = none := by
  induction fuel generalizing l with
  | zero => rfl
  | succ fuel ih =>
    cases l with
    | nil => exact absurd rfl hne
    | cons x rest =>
      have hperm : (rest ++ [x]).Perm (x :: rest) := List.perm_append_singleton ..
      rw [rotate, hl x (List.mem_cons_self ..)]
      exact ih (by simp) fun y hy => hl y (hperm.mem_iff.mp hy)

theorem rotate_of_take {pre : List α} (post : List α) {x : α} (hpre : ∀ y ∈ pre, judge y ≠ .take)
    (hx : judge x = .take) :
    rotate judge (pre.length + 1) (pre ++ x :: post) = some (some x, post ++ returned judge pre) := by
  rw [rotate_append hpre, List.cons_append, rotate, hx]

theorem rotate_of_drop {l : List α} (hl : ∀ x ∈ l, judge x = .drop) :
    rotate judge (l.length + 1) l = some (none, []) := by
  have hpre : ∀ x ∈ l, judge x ≠ .take := by
    intro x hx
    rw [hl x hx]
    decide
  have hnone : returned judge l = [] := by
    rw [List.eq_nil_iff_forall_not_mem]
    intro x hx
    obtain ⟨hmem, hback⟩ := mem_returned.mp hx
    rw [hl x hmem] at hback
    cases hback
  have happ := rotate_append hpre 1 []
  rw [List.append_nil, hnone] at happ
  exact happ

theorem rotate_diverges {l : List α} (hl : ∀ x ∈ l, judge x ≠ .take) {x : α} (hx : x ∈ l)
    (hback : judge x = .putBack) (fuel : ℕ) : rotate judge fuel l = none := by
  have hloop : rotate judge (l.length + fuel) l = none := by
    have happ := rotate_append hl fuel []
    rw [List.append_nil, List.nil_append] at happ
    rw [happ]
    refine rotate_of_putBack ?_ ?_ fuel
    · exact List.ne_nil_of_mem (mem_returned.mpr ⟨hx, hback⟩)
    · intro y hy
      exact (mem_returned.mp hy).2
  cases hr : rotate judge fuel l with
  | none => rfl
  | some out =>
    rw [rotate_mono (Nat.le_add_left fuel l.length) hr] at hloop
    cases hloop

theorem visited_of_take {pre : List α} (post : List α) {x : α} (hpre : ∀ y ∈ pre, judge y ≠ .take)
    (hx : judge x = .take) (fuel : ℕ) :
    visited judge fuel (pre ++ x :: post) <+: pre ++ [x] := by
  have hfull : visited judge (pre.length + (fuel + 1)) (pre ++ x :: post) = pre ++ [x] := by
    rw [visited_append hpre, List.cons_append, visited, hx]
  rw [← hfull]
  exact visited_prefix (by omega) _

theorem visited_of_drop {l : List α} (hl : ∀ x ∈ l, judge x = .drop) (fuel : ℕ) :
    visited judge fuel l <+: l := by
  induction l generalizing fuel with
  | nil => cases fuel <;> exact List.prefix_refl _
  | cons x rest ih =>
    cases fuel with
    | zero => exact List.nil_prefix
    | succ fuel =>
      rw [visited, hl x (List.mem_cons_self ..)]
      exact (List.prefix_cons_inj x).mpr (ih (fun y hy => hl y (List.mem_cons_of_mem _ hy)) fuel)

/- Where the first element that is taken stands, if there is one. -/
theorem exists_first_take (judge : α → Verdict) (l : List α) :
    (∀ x ∈ l, judge x ≠ .take) ∨
      ∃ pre x post, l = pre ++ x :: post ∧ judge x = .take ∧ ∀ y ∈ pre, judge y ≠ .take := by
  induction l with
  | nil =>
    refine .inl fun x hx => ?_
    cases hx
  | cons x rest ih =>
    by_cases hx : judge x = .take
    · exact .inr ⟨[], x, rest, rfl, hx, fun y hy => by cases hy⟩
    · rcases ih with hrest | ⟨pre, y, post, rfl, hy, hpre⟩
      · refine .inl fun y hy => ?_
        rcases List.mem_cons.mp hy with rfl | hy
        · exact hx
        · exact hrest y hy
      · refine .inr ⟨x :: pre, y, post, rfl, hy, fun z hz => ?_⟩
        rcases List.mem_cons.mp hz with rfl | hz
        · exact hx
        · exact hpre z hz

end Rotation

end Liquifact.Lib
