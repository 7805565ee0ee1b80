import Mathlib.Algebra.GroupWithZero.Nat
import Mathlib.Data.List.Chain
import Mathlib.Data.List.DropRight
import Mathlib.Tactic.Common

/-!
# Runs of blanks

`collapse p r` is `replace(/[p]+/g, r)`: each run of units of the class `p` becomes one `r`.
`trimEnds p` takes the units of `p` from both ends, and `words p` are the runs of other
units, so that a text collapsed and trimmed is its words joined by `r`.
-/

namespace Liquifact.Lib

variable {α : Type}

/- `inside`: the unit before is one of `p`. -/
def collapseFrom (p : α → Bool) (r : α) : Bool → List α → List α
  | _, [] => []
  | inside, a :: s =>
    if p a then
      if inside then collapseFrom p r true s else r :: collapseFrom p r true s
    else a :: collapseFrom p r false s

def collapse (p : α → Bool) (r : α) (s : List α) : List α := collapseFrom p r false s

def trimEnds (p : α → Bool) (s : List α) : List α := (s.dropWhile p).rdropWhile p

def words (p : α → Bool) (s : List α) : List (List α) :=
  (s.splitOnP p).filter fun w => !w.isEmpty

/-- No two units of `p` stand next to each other. -/
def Apart (p : α → Bool) (s : List α) : Prop := s.IsChain fun a b => ¬ (p a = true ∧ p b = true)

section

variable {p : α → Bool} {r : α}

theorem collapseFrom_inside {b : α} (hb : p b = true) (s : List α) :
    collapseFrom p r true (b :: s) = collapseFrom p r true s :=
  (if_pos hb).trans (if_pos rfl)

theorem collapseFrom_outside {b : α} (hb : p b = true) (s : List α) :
    collapseFrom p r false (b :: s) = r :: collapseFrom p r true s :=
  (if_pos hb).trans (if_neg Bool.false_ne_true)

theorem collapseFrom_of_not {b : α} (hb : ¬ p b = true) (inside : Bool) (s : List α) :
    collapseFrom p r inside (b :: s) = b :: collapseFrom p r false s :=
  if_neg hb

/-! ### What collapsing leaves -/

theorem mem_collapseFrom (inside : Bool) (s : List α) {a : α}
    (h : a ∈ collapseFrom p r inside s) : a = r ∨ a ∈ s ∧ p a = false := by
  induction s generalizing inside with
  | nil => cases h
  | cons b s ih =>
    have htail : ∀ {now : Bool}, a ∈ collapseFrom p r now s → a = r ∨ a ∈ b :: s ∧ p a = false := by
      intro now hmem
      exact (ih now hmem).imp id fun ⟨hs, hp⟩ => ⟨List.mem_cons_of_mem _ hs, hp⟩
    by_cases hb : p b = true
    · cases inside with
      | true =>
        rw [collapseFrom_inside hb] at h
        exact htail h
      | false =>
        rw [collapseFrom_outside hb] at h
        rcases List.mem_cons.mp h with rfl | h
        · exact .inl rfl
        · exact htail h
    · rw [collapseFrom_of_not hb] at h
      rcases List.mem_cons.mp h with rfl | h
      · exact .inr ⟨List.mem_cons_self, Bool.not_eq_true _ ▸ hb⟩
      · exact htail h

/- After a unit of `p` the result goes on with another one. -/
theorem head_collapseFrom_true (s : List α) : ∀ a ∈ (collapseFrom p r true s).head?, p a = false := by
  induction s with
  | nil => nofun
  | cons b s ih =>
    by_cases hb : p b = true
    · rw [collapseFrom_inside hb]
      exact ih
    · rw [collapseFrom_of_not hb]
      intro a ha
      obtain rfl : b = a := by simpa using ha
      exact Bool.not_eq_true _ ▸ hb

theorem apart_collapseFrom (inside : Bool) (s : List α) : Apart p (collapseFrom p r inside s) := by
  induction s generalizing inside with
  | nil => exact List.IsChain.nil
  | cons b s ih =>
    by_cases hb : p b = true
    · cases inside with
      | true =>
        rw [collapseFrom_inside hb]
        exact ih true
      | false =>
        rw [collapseFrom_outside hb]
        refine List.isChain_cons.mpr ⟨?_, ih true⟩
        intro a ha hboth
        exact Bool.false_ne_true ((head_collapseFrom_true s a ha).symm.trans hboth.2)
    · rw [collapseFrom_of_not hb]
      refine List.isChain_cons.mpr ⟨?_, ih false⟩
      intro a ha hboth
      exact hb hboth.1

theorem filter_collapseFrom (hr : p r = true) (inside : Bool) (s : List α) :
    (collapseFrom p r inside s).filter (fun a => !p a) = s.filter fun a => !p a := by
  induction s generalizing inside with
  | nil => rfl
  | cons b s ih =>
    by_cases hb : p b = true
    · cases inside with
      | true => simp [collapseFrom_inside hb, hb, ih]
      | false => simp [collapseFrom_outside hb, hb, hr, ih]
    · simp [collapseFrom_of_not hb, hb, ih]

theorem collapseFrom_sublist (inside : Bool) (s : List α) (hs : ∀ a ∈ s, p a = true → a = r) :
    (collapseFrom p r inside s).Sublist s := by
  induction s generalizing inside with
  | nil => exact List.Sublist.slnil
  | cons b s ih =>
    have htail : ∀ a ∈ s, p a = true → a = r := fun a ha => hs a (List.mem_cons_of_mem _ ha)
    by_cases hb : p b = true
    · cases inside with
      | true =>
        rw [collapseFrom_inside hb]
        exact (ih true htail).cons b
      | false =>
        rw [collapseFrom_outside hb, hs b List.mem_cons_self hb]
        exact (ih true htail).cons_cons r
    · rw [collapseFrom_of_not hb]
      exact (ih false htail).cons_cons b

/- A text that is collapsed already. -/
theorem collapseFrom_eq_self (inside : Bool) (s : List α) (hs : ∀ a ∈ s, p a = true → a = r)
    (hapart : Apart p s) (hhead : inside = true → ∀ a ∈ s.head?, p a = false) :
    collapseFrom p r inside s = s := by
  induction s generalizing inside with
  | nil => rfl
  | cons b s ih =>
    have htail : ∀ a ∈ s, p a = true → a = r := fun a ha => hs a (List.mem_cons_of_mem _ ha)
    obtain ⟨hnext, hrest⟩ := List.isChain_cons.mp hapart
    by_cases hb : p b = true
    · cases inside with
      | true => exact absurd (hhead rfl b rfl) (by simp [hb])
      | false =>
        have hstart : ∀ a ∈ s.head?, p a = false := by
          intro a ha
          by_contra hpa
          exact hnext a ha ⟨hb, by simpa using hpa⟩
        rw [collapseFrom_outside hb,
          ih true htail hrest fun _ => hstart, hs b List.mem_cons_self hb]
    · rw [collapseFrom_of_not hb, ih false htail hrest (fun h => absurd h Bool.false_ne_true)]

/-! ### Trimming -/

theorem trimEnds_isInfix (s : List α) : (trimEnds p s).IsInfix s :=
  (List.rdropWhile_prefix p _).isInfix.trans (List.dropWhile_suffix p).isInfix

theorem filter_dropWhile (s : List α) :
    (s.dropWhile p).filter (fun a => !p a) = s.filter fun a => !p a := by
  induction s with
  | nil => rfl
  | cons b s ih =>
    by_cases hb : p b = true
    · simp [hb, ih]
    · simp [hb]

theorem filter_trimEnds (s : List α) :
    (trimEnds p s).filter (fun a => !p a) = s.filter fun a => !p a := by
  rw [trimEnds, List.rdropWhile, List.filter_reverse, filter_dropWhile, List.filter_reverse,
    List.reverse_reverse, filter_dropWhile]

theorem trimEnds_of_head {s : List α} (hhead : ∀ a ∈ s.head?, p a = false) :
    trimEnds p s = s.rdropWhile p := by
  cases s with
  | nil => rfl
  | cons b s => rw [trimEnds, List.dropWhile_cons_of_neg (by simp [hhead b rfl])]

theorem head_trimEnds (s : List α) : ∀ a ∈ (trimEnds p s).head?, p a = false := by
  intro a ha
  have hpre : (trimEnds p s).IsPrefix (s.dropWhile p) := List.rdropWhile_prefix p _
  obtain ⟨rest, hrest⟩ := hpre
  have hhead : (s.dropWhile p).head? = some a := by
    rw [← hrest, List.head?_append, Option.mem_def.mp ha, Option.some_or]
  have hnot := List.head?_dropWhile_not p s
  rw [hhead] at hnot
  exact hnot

/-! ### Collapsed and trimmed -/

theorem Apart.of_isInfix {s t : List α} (h : Apart p s) (hts : t.IsInfix s) : Apart p t :=
  List.IsChain.infix h hts

theorem apart_trimEnds_collapse (s : List α) : Apart p (trimEnds p (collapse p r s)) :=
  (apart_collapseFrom false s).of_isInfix (trimEnds_isInfix _)

theorem mem_trimEnds_collapse {s : List α} {a : α} (h : a ∈ trimEnds p (collapse p r s)) :
    a = r ∨ a ∈ s ∧ p a = false :=
  mem_collapseFrom false s ((trimEnds_isInfix _).subset h)

theorem length_eq_of_filter {s t : List α} (hrest : s.filter (fun a => !p a) = t.filter fun a => !p a)
    (hcount : s.countP p = t.countP p) : s.length = t.length := by
  have hs := List.length_eq_countP_add_countP p (l := s)
  have ht := List.length_eq_countP_add_countP p (l := t)
  have hboth := congrArg List.length hrest
  rw [← List.countP_eq_length_filter, ← List.countP_eq_length_filter] at hboth
  simp only [Bool.not_eq_true, Bool.decide_eq_false] at hs ht
  omega

/- Only units of `p` are lost, so a text with as many of them as before is as it was. -/
theorem trimEnds_collapse_eq_self_of_count (hr : p r = true) {s : List α}
    (hs : ∀ a ∈ s, p a = true → a = r)
    (hcount : s.countP p ≤ (trimEnds p (collapse p r s)).countP p) :
    trimEnds p (collapse p r s) = s := by
  have hsub : (trimEnds p (collapse p r s)).Sublist s :=
    (trimEnds_isInfix _).sublist.trans (collapseFrom_sublist false s hs)
  apply hsub.eq_of_length
  refine length_eq_of_filter (p := p) ?_ (le_antisymm hsub.countP_le hcount)
  rw [filter_trimEnds, collapse, filter_collapseFrom hr]

/-! ### Words -/

theorem not_isEmpty_of_mem_words {s w : List α} (h : w ∈ words p s) : w ≠ [] := by
  have hw := List.of_mem_filter h
  rintro rfl
  simp at hw

theorem words_cons_blank {b : α} (hb : p b = true) (s : List α) : words p (b :: s) = words p s := by
  simp [words, List.splitOnP_cons_eq_if_modifyHead, hb]

/- A unit that belongs to a word, before a blank or at the end and inside a word. -/
theorem words_cons_last {b : α} (hb : p b = false) {s : List α} (hs : ∀ a ∈ s.head?, p a = true) :
    words p (b :: s) = [b] :: words p s := by
  cases s with
  | nil => simp [words, List.splitOnP_cons_eq_if_modifyHead, hb]
  | cons a s => simp [words, List.splitOnP_cons_eq_if_modifyHead, hb, hs a rfl]

theorem words_cons_inside {a b : α} (hb : p b = false) (ha : p a = false) (s : List α) :
    ∃ w rest, words p (a :: s) = (a :: w) :: rest ∧ words p (b :: a :: s) = (b :: a :: w) :: rest := by
  obtain ⟨w, rest, hsplit⟩ := List.exists_cons_of_ne_nil (List.splitOnP_ne_nil p s)
  refine ⟨w, rest.filter fun w => !w.isEmpty, ?_, ?_⟩
  · simp [words, List.splitOnP_cons_eq_if_modifyHead, ha, hsplit]
  · simp [words, List.splitOnP_cons_eq_if_modifyHead, ha, hb, hsplit]

theorem not_blank_of_mem_words {s w : List α} (h : w ∈ words p s) : ∀ a ∈ w, p a = false := by
  induction s generalizing w with
  | nil => cases h
  | cons b s ih =>
    by_cases hb : p b = true
    · rw [words_cons_blank hb] at h
      exact ih h
    · rw [Bool.not_eq_true] at hb
      cases s with
      | nil =>
        rw [words_cons_last hb (by simp)] at h
        obtain rfl : w = [b] := by simpa [words] using h
        intro a ha
        rwa [List.mem_singleton.mp ha]
      | cons c s =>
        by_cases hc : p c = true
        · rw [words_cons_last hb (by simp [hc])] at h
          rcases List.mem_cons.mp h with rfl | h
          · intro a ha
            rwa [List.mem_singleton.mp ha]
          · exact ih h
        · obtain ⟨v, rest, hinner, houter⟩ := words_cons_inside hb (Bool.not_eq_true _ ▸ hc) s
          rw [houter] at h
          rcases List.mem_cons.mp h with rfl | h
          · intro a ha
            rcases List.mem_cons.mp ha with rfl | ha
            · exact hb
            · exact ih (hinner ▸ List.mem_cons_self) a ha
          · exact ih (hinner ▸ List.mem_cons_of_mem _ h)

theorem rdropWhile_cons_of_neg {b : α} (hb : p b = false) (s : List α) :
    (b :: s).rdropWhile p = b :: s.rdropWhile p := by
  rw [List.rdropWhile, List.rdropWhile, List.reverse_cons, List.dropWhile_append]
  split
  · rename_i hempty
    simp [List.isEmpty_iff.mp hempty, hb]
  · simp

theorem rdropWhile_cons_of_pos {b : α} (hb : p b = true) (s : List α) :
    (b :: s).rdropWhile p = if s.rdropWhile p = [] then [] else b :: s.rdropWhile p := by
  rw [List.rdropWhile, List.rdropWhile, List.reverse_cons, List.dropWhile_append]
  split
  · rename_i hempty
    simp [List.isEmpty_iff.mp hempty, hb]
  · rename_i hrest
    rw [List.isEmpty_iff] at hrest
    simp [hrest]

theorem trimEnds_collapseFrom (hr : p r = true) (inside : Bool) (s : List α) :
    trimEnds p (collapseFrom p r inside s) = trimEnds p (collapse p r s) := by
  cases inside with
  | false => rfl
  | true =>
    cases s with
    | nil => rfl
    | cons b s =>
      by_cases hb : p b = true
      · rw [collapse, collapseFrom_inside hb, collapseFrom_outside hb, trimEnds, trimEnds,
          List.dropWhile_cons_of_pos hr]
      · rw [collapse, collapseFrom_of_not hb, collapseFrom_of_not hb]

theorem intercalate_eq_nil {ws : List (List α)} (hws : ∀ w ∈ ws, w ≠ [])
    (h : [r].intercalate ws = []) : ws = [] := by
  cases ws with
  | nil => rfl
  | cons w ws =>
    cases ws with
    | nil =>
      rw [List.intercalate_singleton] at h
      exact absurd h (hws w List.mem_cons_self)
    | cons v ws =>
      rw [List.intercalate_cons_cons] at h
      simp at h

/- A collapsed and trimmed text is its words with `r` between them. -/
theorem trimEnds_collapse_eq_words (hr : p r = true) (s : List α) :
    trimEnds p (collapse p r s) = [r].intercalate (words p s) := by
  induction s with
  | nil => rfl
  | cons b s ih =>
    by_cases hb : p b = true
    · rw [words_cons_blank hb, ← ih, ← trimEnds_collapseFrom hr true s, collapse,
        collapseFrom_outside hb, trimEnds, List.dropWhile_cons_of_pos hr, trimEnds]
    · have hb' : p b = false := Bool.not_eq_true _ ▸ hb
      rw [collapse, collapseFrom_of_not hb, trimEnds_of_head (by simp [hb']),
        rdropWhile_cons_of_neg hb']
      cases s with
      | nil =>
        have hnil : collapseFrom p r false [] = [] := rfl
        rw [words_cons_last hb' (by simp)]
        simp [words, hnil]
      | cons a s =>
        by_cases ha : p a = true
        · -- The word ends here; what follows the blank starts with the next word.
          have hrest : (collapseFrom p r true s).rdropWhile p = [r].intercalate (words p (a :: s)) := by
            rw [← trimEnds_of_head (head_collapseFrom_true s), trimEnds_collapseFrom hr,
              words_cons_blank ha, ← words_cons_blank ha, ← ih, ← trimEnds_collapseFrom hr true (a :: s),
              collapseFrom_inside ha, trimEnds_collapseFrom hr]
          rw [words_cons_last hb' (by simp [ha]), collapseFrom_outside ha,
            rdropWhile_cons_of_pos hr, hrest]
          by_cases hnil : words p (a :: s) = []
          · simp [hnil]
          · rw [if_neg fun h => hnil (intercalate_eq_nil (fun w hw => not_isEmpty_of_mem_words hw) h),
              List.intercalate_cons_of_ne_nil hnil]
            rfl
        · obtain ⟨w, rest, hinner, houter⟩ := words_cons_inside hb' (Bool.not_eq_true _ ▸ ha) s
          have hhead : ∀ c ∈ (collapse p r (a :: s)).head?, p c = false := by
            rw [collapse, collapseFrom_of_not ha]
            simp [ha]
          rw [trimEnds_of_head hhead, hinner] at ih
          rw [houter, List.intercalate_cons_cons_left, ← ih, collapse]

/-- A word other than the first starts at unit `n` of the joined text. -/
def WordAt (ws : List (List α)) (n : ℕ) : Prop :=
  ∃ j, 0 < j ∧ j < ws.length ∧ ((ws.take j).map List.length).sum + j = n

theorem wordAt_cons (w : List α) (ws : List (List α)) (n : ℕ) :
    WordAt (w :: ws) n ↔ ws ≠ [] ∧ n = w.length + 1 ∨ ∃ m, WordAt ws m ∧ n = w.length + 1 + m := by
  constructor
  · rintro ⟨j, hpos, hlt, hsum⟩
    obtain ⟨i, rfl⟩ : ∃ i, j = i + 1 := ⟨j - 1, by omega⟩
    simp only [List.take_succ_cons, List.map_cons, List.sum_cons, List.length_cons] at hsum hlt
    cases i with
    | zero =>
      refine .inl ⟨?_, by simp at hsum; omega⟩
      rintro rfl
      simp at hlt
    | succ i => exact .inr ⟨_, ⟨i + 1, by omega, by omega, rfl⟩, by omega⟩
  · rintro (⟨hne, rfl⟩ | ⟨m, ⟨j, hpos, hlt, hsum⟩, rfl⟩)
    · have hlen := List.length_pos_of_ne_nil hne
      exact ⟨1, Nat.one_pos, by simp only [List.length_cons]; omega, by simp⟩
    · refine ⟨j + 1, by omega, by simp only [List.length_cons]; omega, ?_⟩
      simp only [List.take_succ_cons, List.map_cons, List.sum_cons]
      omega

/- Cut at `n`, the joined text ends in a blank exactly when the next word starts there. -/
theorem ends_blank_take_iff (hr : p r = true) {ws : List (List α)} (hne : ∀ w ∈ ws, w ≠ [])
    (hws : ∀ w ∈ ws, ∀ a ∈ w, p a = false) (n : ℕ) :
    (∃ a ∈ (([r].intercalate ws).take n).getLast?, p a = true) ↔ WordAt ws n := by
  induction ws generalizing n with
  | nil => simp [WordAt]
  | cons w ws ih =>
    have hnot : ∀ m, ¬ ∃ a ∈ (w.take m).getLast?, p a = true := by
      rintro m ⟨a, ha, hpa⟩
      have hmem := List.mem_of_mem_take (List.mem_of_getLast? ha)
      rw [hws w List.mem_cons_self a hmem] at hpa
      exact Bool.false_ne_true hpa
    rw [wordAt_cons]
    cases ws with
    | nil =>
      rw [List.intercalate_singleton]
      refine iff_of_false (hnot n) ?_
      rintro (⟨h, -⟩ | ⟨m, ⟨j, hpos, hlt, -⟩, -⟩)
      · exact h rfl
      · simp at hlt
    | cons v ws =>
      have htail := ih (fun u hu => hne u (List.mem_cons_of_mem _ hu))
        (fun u hu => hws u (List.mem_cons_of_mem _ hu))
      rw [List.intercalate_cons_cons, List.append_assoc, List.singleton_append]
      rcases lt_trichotomy n (w.length + 1) with hn | rfl | hn
      · rw [List.take_append_of_le_length (by omega)]
        refine iff_of_false (hnot n) ?_
        rintro (⟨-, h⟩ | ⟨m, -, h⟩)
        · omega
        · omega
      · refine iff_of_true ⟨r, ?_, hr⟩ (.inl ⟨by simp, rfl⟩)
        simp [List.take_append]
      · obtain ⟨m, rfl⟩ : ∃ m, n = w.length + 1 + (m + 1) := ⟨n - (w.length + 2), by omega⟩
        have hcut : (w ++ r :: [r].intercalate (v :: ws)).take (w.length + 1 + (m + 1)) =
            w ++ r :: ([r].intercalate (v :: ws)).take (m + 1) := by
          rw [List.take_append, List.take_of_length_le (by omega),
            show w.length + 1 + (m + 1) - w.length = (m + 1) + 1 by omega, List.take_succ_cons]
        have hfull : [r].intercalate (v :: ws) ≠ [] := fun h =>
          List.cons_ne_nil v ws (intercalate_eq_nil (fun u hu => hne u (List.mem_cons_of_mem _ hu)) h)
        obtain ⟨c, rest, htext⟩ := List.exists_cons_of_ne_nil hfull
        have hlast : (w ++ r :: ([r].intercalate (v :: ws)).take (m + 1)).getLast? =
            (([r].intercalate (v :: ws)).take (m + 1)).getLast? := by
          rw [htext, List.take_succ_cons]
          simp [List.getLast?_cons]
        rw [hcut, hlast, htail (m + 1)]
        constructor
        · intro h
          exact .inr ⟨m + 1, h, rfl⟩
        · rintro (⟨-, h⟩ | ⟨k, hk, h⟩)
          · omega
          · obtain rfl : k = m + 1 := by omega
            exact hk

end

end Liquifact.Lib
