import Mathlib.Data.List.Nodup
import Mathlib.Order.WithBot
import Mathlib.Tactic.Common

/-!
# Keyset pagination of a table that changes

A client takes the first `limit` keys after its cursor, of which a second look at the table
may withdraw some, and goes on after the last key it was shown while its pages are full. A
key that the table holds all along is shown once if fewer than `limit` keys lie between it
and the cursor of the last page; otherwise it is not shown at all.
-/

namespace Liquifact.Lib

section Changing
variable {κ : Type} [LinearOrder κ]

/- One page: of the keys after `after` the first `limit` are fetched, and `kept` are those
that a second look still finds. -/
structure Cut (κ : Type) where
  after : WithBot κ
  candidates : List κ
  kept : List κ
  limit : ℕ

def Cut.fetched (c : Cut κ) : List κ := c.candidates.take c.limit

structure Cut.Sound (c : Cut κ) : Prop where
  sorted : c.candidates.Pairwise (· < ·)
  later : ∀ y ∈ c.candidates, c.after < (y : WithBot κ)
  sublist : c.kept.Sublist c.fetched

/- The client goes on while the page it is shown is full, after the last key of the page. -/
def Walk : WithBot κ → List (Cut κ) → Prop
  | _, [] => False
  | after, c :: rest => c.after = after ∧ c.Sound ∧
      ((rest = [] ∧ c.kept.length ≠ c.limit) ∨
        (c.kept.length = c.limit ∧ ∃ y, c.kept.getLast? = some y ∧ Walk y rest))

/- The table holds `x` at both looks. -/
def Cut.Holds (c : Cut κ) (x : κ) : Prop :=
  c.after < (x : WithBot κ) → x ∈ c.candidates ∧ (x ∈ c.fetched → x ∈ c.kept)

/- Fewer keys than a page has lie between the cursor and `x`. -/
def Cut.Reaches (c : Cut κ) (x : κ) : Prop :=
  c.after < (x : WithBot κ) → c.candidates.countP (· < x) < c.limit

theorem mem_take_sorted_iff {l : List κ} (hl : l.Pairwise (· < ·)) {x : κ} (hx : x ∈ l) (n : ℕ) :
    x ∈ l.take n ↔ l.countP (· < x) < n := by
  induction l generalizing n with
  | nil => cases hx
  | cons a l ih =>
    obtain ⟨hhead, htail⟩ := List.pairwise_cons.mp hl
    cases n with
    | zero => simp
    | succ n =>
      rcases List.mem_cons.mp hx with rfl | hmem
      · have hnone : (x :: l).countP (· < x) = 0 := by
          rw [List.countP_eq_zero]
          intro b hb
          rcases List.mem_cons.mp hb with rfl | hb
          · simp
          · simpa using (hhead b hb).le
        rw [hnone]
        simp
      · have hax : a < x := hhead x hmem
        rw [List.countP_cons_of_pos (by simpa using hax), List.take_succ_cons, List.mem_cons,
          or_iff_right hax.ne', ih htail hmem]
        omega

theorem le_last_of_sorted {l : List κ} (hl : l.Pairwise (· < ·)) {x y : κ} (hx : x ∈ l)
    (hy : l.getLast? = some y) : x ≤ y := by
  obtain ⟨front, rfl⟩ := List.getLast?_eq_some_iff.mp hy
  rcases List.mem_append.mp hx with hfront | hself
  · exact ((List.pairwise_append.mp hl).2.2 x hfront y (List.mem_singleton_self y)).le
  · exact (List.mem_singleton.mp hself).le

namespace Cut
variable {c : Cut κ}

theorem Sound.fetched_sorted (h : c.Sound) : c.fetched.Pairwise (· < ·) :=
  h.sorted.sublist (List.take_sublist _ _)

theorem Sound.kept_sorted (h : c.Sound) : c.kept.Pairwise (· < ·) :=
  h.fetched_sorted.sublist h.sublist

theorem Sound.after_lt (h : c.Sound) {y : κ} (hy : y ∈ c.kept) : c.after < (y : WithBot κ) :=
  h.later y (List.mem_of_mem_take (h.sublist.subset hy))

theorem Sound.count_kept (h : c.Sound) (x : κ) : c.kept.count x = if x ∈ c.kept then 1 else 0 := by
  have hnodup : c.kept.Nodup := h.kept_sorted.imp fun hlt => hlt.ne
  split
  · next hmem => exact List.count_eq_one_of_mem hnodup hmem
  · next hnot => exact List.count_eq_zero_of_not_mem hnot

theorem Sound.mem_kept_iff (h : c.Sound) {x : κ} (hx : c.Holds x) (hafter : c.after < (x : WithBot κ)) :
    x ∈ c.kept ↔ c.candidates.countP (· < x) < c.limit := by
  obtain ⟨hcand, hkeep⟩ := hx hafter
  rw [← mem_take_sorted_iff h.sorted hcand]
  exact ⟨fun hmem => h.sublist.subset hmem, hkeep⟩

/- Nothing of a full page was withdrawn, so a key that is not on it comes after its last. -/
theorem Sound.last_lt (h : c.Sound) (hfull : c.kept.length = c.limit) {x y : κ} (hx : c.Holds x)
    (hafter : c.after < (x : WithBot κ)) (hnot : x ∉ c.kept) (hy : c.kept.getLast? = some y) :
    y < x := by
  have hle : c.fetched.length ≤ c.kept.length := by
    rw [hfull, fetched, List.length_take]
    exact Nat.min_le_left _ _
  have heq : c.kept = c.fetched := h.sublist.eq_of_length_le hle
  have hdrop : x ∈ c.candidates.drop c.limit := by
    have hcand := (hx hafter).1
    rw [← List.take_append_drop c.limit c.candidates] at hcand
    refine (List.mem_append.mp hcand).resolve_left fun hmem => hnot ?_
    rw [heq]
    exact hmem
  have hsorted := h.sorted
  rw [← List.take_append_drop c.limit c.candidates, List.pairwise_append] at hsorted
  refine hsorted.2.2 y ?_ x hdrop
  have hmem : y ∈ c.kept := List.mem_of_getLast? hy
  rw [heq] at hmem
  exact hmem

end Cut

theorem Walk.after_le {after : WithBot κ} {cuts : List (Cut κ)} (h : Walk after cuts) :
    ∀ c ∈ cuts, after ≤ c.after := by
  induction cuts generalizing after with
  | nil => cases h
  | cons d rest ih =>
    obtain ⟨rfl, hsound, ⟨rfl, -⟩ | ⟨-, y, hy, hrest⟩⟩ := h
    · intro c hc
      rw [List.mem_singleton.mp hc]
    · intro c hc
      rcases List.mem_cons.mp hc with rfl | hc
      · exact le_rfl
      · exact (hsound.after_lt (List.mem_of_getLast? hy)).le.trans (ih hrest c hc)

theorem Walk.count_of_le {after : WithBot κ} {cuts : List (Cut κ)} (h : Walk after cuts) {x : κ}
    (hx : (x : WithBot κ) ≤ after) : (cuts.flatMap Cut.kept).count x = 0 := by
  induction cuts generalizing after with
  | nil => cases h
  | cons c rest ih =>
    obtain ⟨rfl, hsound, htail⟩ := h
    have hnot : x ∉ c.kept := fun hmem => (hsound.after_lt hmem).not_ge hx
    rw [List.flatMap_cons, List.count_append, hsound.count_kept, if_neg hnot, Nat.zero_add]
    obtain ⟨rfl, -⟩ | ⟨-, y, hy, hrest⟩ := htail
    · rfl
    · exact ih hrest (hx.trans (hsound.after_lt (List.mem_of_getLast? hy)).le)

/- A key that the table holds all along is shown once, unless the last page stops short of it. -/
theorem Walk.count_eq_one_iff {after : WithBot κ} {cuts : List (Cut κ)} {last : Cut κ}
    (h : Walk after (cuts ++ [last])) {x : κ} (hx : ∀ c ∈ cuts ++ [last], c.Holds x)
    (hafter : after < (x : WithBot κ)) :
    ((cuts ++ [last]).flatMap Cut.kept).count x = 1 ↔ last.Reaches x := by
  induction cuts generalizing after with
  | nil =>
    obtain ⟨rfl, hsound, -⟩ := h
    have hlast : last.Holds x := hx last (List.mem_singleton_self last)
    rw [List.nil_append, List.flatMap_singleton, hsound.count_kept, Cut.Reaches,
      forall_prop_of_true hafter, ← hsound.mem_kept_iff hlast hafter]
    split <;> simp_all
  | cons c cuts ih =>
    rw [List.cons_append] at h
    obtain ⟨rfl, hsound, ⟨hnil, -⟩ | ⟨hfull, y, hy, hrest⟩⟩ := h
    · simp at hnil
    · have hhead : c.Holds x := hx c (List.mem_cons_self ..)
      rw [List.cons_append, List.flatMap_cons, List.count_append, hsound.count_kept]
      by_cases hmem : x ∈ c.kept
      · -- shown here: the later pages start after it, and so does the last
        have hle : (x : WithBot κ) ≤ y :=
          WithBot.coe_le_coe.mpr (le_last_of_sorted hsound.kept_sorted hmem hy)
        rw [if_pos hmem, hrest.count_of_le hle]
        have hbeyond : (x : WithBot κ) ≤ last.after := hle.trans (hrest.after_le last (by simp))
        exact ⟨fun _ hlt => absurd hlt hbeyond.not_gt, fun _ => rfl⟩
      · rw [if_neg hmem, Nat.zero_add]
        refine ih hrest (fun d hd => hx d (List.mem_cons_of_mem c hd)) ?_
        exact WithBot.coe_lt_coe.mpr (hsound.last_lt hfull hhead hafter hmem hy)

end Changing

end Liquifact.Lib
