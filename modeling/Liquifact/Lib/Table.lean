import Mathlib.Tactic.Common

/-!
# Tables seen through a condition

A table is the list of its rows; `updateWhere` is `UPDATE … SET … WHERE`. The part of a
table that satisfies `q` answers every query whose condition implies `q`, and a statement
that keeps its rows inside `q`, or outside, acts on that part alone.

`Thinned` compares a table with one that lacks some of the rows outside the part.
-/

namespace Liquifact.Lib

section Table
variable {ρ : Type} {p q : ρ → Bool} {f : ρ → ρ}

/- The order in which a query without `ORDER BY` gives its rows. -/
structure RowOrder (ρ : Type) where
  arrange : List ρ → List ρ
  perm : ∀ rows, (arrange rows).Perm rows

def updateWhere (p : ρ → Bool) (f : ρ → ρ) (t : List ρ) : List ρ :=
  t.map fun r => if p r then f r else r

theorem filter_of_part (hpq : ∀ r, p r = true → q r = true) (t : List ρ) :
    t.filter p = (t.filter q).filter p := by
  rw [List.filter_filter]
  refine List.filter_congr fun r _ => ?_
  cases hp : p r with
  | false => rfl
  | true => rw [hpq r hp]; rfl

theorem find_of_part (hpq : ∀ r, p r = true → q r = true) (t : List ρ) :
    t.find? p = (t.filter q).find? p := by
  rw [List.find?_filter]
  induction t with
  | nil => rfl
  | cons r t ih =>
    cases hp : p r with
    | false => simp [hp, ih]
    | true => simp [hp, hpq r hp]

/- The first row found is in the part, so the part has it first too. -/
theorem find_of_first (t : List ρ) (h : ∀ r, t.find? p = some r → q r = true) :
    t.find? p = (t.filter q).find? p := by
  induction t with
  | nil => rfl
  | cons r t ih =>
    by_cases hp : p r = true
    · have hq : q r = true := h r (List.find?_cons_of_pos hp)
      rw [List.filter_cons_of_pos hq, List.find?_cons_of_pos hp, List.find?_cons_of_pos hp]
    · rw [List.find?_cons_of_neg hp] at h ⊢
      by_cases hq : q r = true
      · rw [List.filter_cons_of_pos hq, List.find?_cons_of_neg hp]
        exact ih h
      · rw [List.filter_cons_of_neg hq]
        exact ih h

/- The rows stay inside the part. -/
theorem filter_updateWhere_inside (hpq : ∀ r, p r = true → q r = true)
    (hkeep : ∀ r, p r = true → q (f r) = true) (t : List ρ) :
    (updateWhere p f t).filter q = updateWhere p f (t.filter q) := by
  induction t with
  | nil => rfl
  | cons r t ih =>
    unfold updateWhere at ih ⊢
    rw [List.map_cons]
    cases hp : p r with
    | false =>
      simp only [Bool.false_eq_true, if_false, List.filter_cons]
      split
      · rw [List.map_cons, ih, hp]
        rfl
      · exact ih
    | true =>
      simp only [if_true, List.filter_cons, hkeep r hp, hpq r hp]
      rw [List.map_cons, ih, hp]
      rfl

/- The rows stay outside the part. -/
theorem filter_updateWhere_outside (hpq : ∀ r, p r = true → q r = false)
    (hkeep : ∀ r, p r = true → q (f r) = false) (t : List ρ) :
    (updateWhere p f t).filter q = t.filter q := by
  induction t with
  | nil => rfl
  | cons r t ih =>
    unfold updateWhere at ih ⊢
    rw [List.map_cons]
    cases hp : p r with
    | false => simp only [Bool.false_eq_true, if_false, List.filter_cons, ih]
    | true => simp only [if_true, List.filter_cons, hkeep r hp, hpq r hp, Bool.false_eq_true,
        if_false, ih]

/- Rows that move into the part make it longer. -/
theorem length_filter_updateWhere_gain (hpq : ∀ r, p r = true → q r = false)
    (hmove : ∀ r, p r = true → q (f r) = true) (t : List ρ) :
    ((updateWhere p f t).filter q).length = (t.filter q).length + (t.filter p).length := by
  induction t with
  | nil => rfl
  | cons r t ih =>
    unfold updateWhere at ih ⊢
    rw [List.map_cons]
    cases hp : p r with
    | false =>
      simp only [Bool.false_eq_true, if_false, List.filter_cons, hp]
      split
      · rw [List.length_cons, List.length_cons, ih]
        omega
      · exact ih
    | true =>
      simp only [if_true, List.filter_cons, hmove r hp, hpq r hp, hp, Bool.false_eq_true, if_false,
        List.length_cons, ih]
      omega

theorem mem_updateWhere {r : ρ} {t : List ρ} :
    r ∈ updateWhere p f t ↔ ∃ r' ∈ t, (if p r' then f r' else r') = r := by
  unfold updateWhere
  exact List.mem_map

/-- The second table is the first without some of the rows outside the part; the others outside
it are only the `same`. -/
inductive Thinned (q : ρ → Bool) (same : ρ → ρ → Prop) : List ρ → List ρ → Prop where
  | nil : Thinned q same [] []
  | own {r : ρ} {t t' : List ρ} : q r = true → Thinned q same t t' →
      Thinned q same (r :: t) (r :: t')
  | other {r r' : ρ} {t t' : List ρ} : q r = false → q r' = false → same r r' →
      Thinned q same t t' → Thinned q same (r :: t) (r' :: t')
  | skip {r : ρ} {t t' : List ρ} : q r = false → Thinned q same t t' → Thinned q same (r :: t) t'

namespace Thinned
variable {same : ρ → ρ → Prop} {t t' u u' : List ρ}

theorem refl (hsame : ∀ r, same r r) (t : List ρ) : Thinned q same t t := by
  induction t with
  | nil => exact .nil
  | cons r t ih =>
    cases hq : q r with
    | true => exact .own hq ih
    | false => exact .other hq hq (hsame r) ih

theorem filter_eq (h : Thinned q same t t') : t.filter q = t'.filter q := by
  induction h with
  | nil => rfl
  | own hq _ ih => rw [List.filter_cons_of_pos hq, List.filter_cons_of_pos hq, ih]
  | other hq hq' _ _ ih =>
    rw [List.filter_cons_of_neg (by simp [hq]), List.filter_cons_of_neg (by simp [hq']), ih]
  | skip hq _ ih => rw [List.filter_cons_of_neg (by simp [hq]), ih]

theorem find_eq (h : Thinned q same t t') (hpq : ∀ r, p r = true → q r = true) :
    t.find? p = t'.find? p := by
  rw [find_of_part hpq t, find_of_part hpq t', h.filter_eq]

theorem mem_right (h : Thinned q same t t') {r' : ρ} (hr' : r' ∈ t') :
    r' ∈ t ∨ q r' = false ∧ ∃ r ∈ t, q r = false ∧ same r r' := by
  induction h with
  | nil => exact .inl hr'
  | own hq _ ih =>
    rcases List.mem_cons.mp hr' with rfl | hr'
    · exact .inl (List.mem_cons_self ..)
    · rcases ih hr' with hmem | ⟨hout, r, hr, hrest⟩
      · exact .inl (List.mem_cons_of_mem _ hmem)
      · exact .inr ⟨hout, r, List.mem_cons_of_mem _ hr, hrest⟩
  | other hq hq' hsame _ ih =>
    rcases List.mem_cons.mp hr' with rfl | hr'
    · exact .inr ⟨hq', _, List.mem_cons_self .., hq, hsame⟩
    · rcases ih hr' with hmem | ⟨hout, r, hr, hrest⟩
      · exact .inl (List.mem_cons_of_mem _ hmem)
      · exact .inr ⟨hout, r, List.mem_cons_of_mem _ hr, hrest⟩
  | skip hq _ ih =>
    rcases ih hr' with hmem | ⟨hout, r, hr, hrest⟩
    · exact .inl (List.mem_cons_of_mem _ hmem)
    · exact .inr ⟨hout, r, List.mem_cons_of_mem _ hr, hrest⟩

/- What is found first is in the part, so it is also first where rows outside are missing. -/
theorem find_first (h : Thinned q same t t')
    (hsame : ∀ r r', q r = false → same r r' → p r = p r')
    (hfirst : ∀ r, t.find? p = some r → q r = true) : t'.find? p = t.find? p := by
  induction h with
  | nil => rfl
  | @own r t t' hq _ ih =>
    rw [List.find?_cons, List.find?_cons] at *
    cases hp : p r with
    | true => rfl
    | false =>
      rw [hp] at hfirst
      exact ih hfirst
  | @other r r' t t' hq hq' hrr _ ih =>
    rw [List.find?_cons, List.find?_cons, ← hsame r r' hq hrr] at *
    cases hp : p r with
    | true =>
      rw [hp] at hfirst
      exact absurd (hfirst r rfl) (by simp [hq])
    | false =>
      rw [hp] at hfirst
      exact ih hfirst
  | @skip r t t' hq _ ih =>
    rw [List.find?_cons] at *
    cases hp : p r with
    | true =>
      rw [hp] at hfirst
      exact absurd (hfirst r rfl) (by simp [hq])
    | false =>
      rw [hp] at hfirst
      exact ih hfirst

theorem append (h : Thinned q same t t') (h' : Thinned q same u u') :
    Thinned q same (t ++ u) (t' ++ u') := by
  induction h with
  | nil => exact h'
  | own hq _ ih => exact .own hq ih
  | other hq hq' hsame _ ih => exact .other hq hq' hsame ih
  | skip hq _ ih => exact .skip hq ih

theorem update_inside (h : Thinned q same t t') (hpq : ∀ r, p r = true → q r = true)
    (hkeep : ∀ r, p r = true → q (f r) = true) :
    Thinned q same (updateWhere p f t) (updateWhere p f t') := by
  have houtside : ∀ r, q r = false → (if p r = true then f r else r) = r := by
    intro r hq
    rw [if_neg]
    intro hp
    rw [hpq r hp] at hq
    cases hq
  unfold updateWhere
  induction h with
  | nil => exact .nil
  | @own r t t' hq _ ih =>
    refine .own ?_ ih
    dsimp only
    split
    · next hp => exact hkeep r hp
    · exact hq
  | other hq hq' hsame _ ih =>
    rw [List.map_cons, List.map_cons, houtside _ hq, houtside _ hq']
    exact .other hq hq' hsame ih
  | skip hq _ ih =>
    rw [List.map_cons, houtside _ hq]
    exact .skip hq ih

theorem update_outside (h : Thinned q same t t') (hpq : ∀ r, p r = true → q r = false)
    (hkeep : ∀ r, p r = true → q (f r) = false)
    (hsame : ∀ r r', p r = true → same r r' → same (f r) r') :
    Thinned q same (updateWhere p f t) t' := by
  have hout : ∀ r, q r = false → q (if p r = true then f r else r) = false := by
    intro r hq
    split
    · next hp => exact hkeep r hp
    · exact hq
  unfold updateWhere
  induction h with
  | nil => exact .nil
  | @own r t t' hq _ ih =>
    have hp : ¬ p r = true := by
      intro hp
      rw [hpq r hp] at hq
      cases hq
    rw [List.map_cons, if_neg hp]
    exact .own hq ih
  | @other r r' t t' hq hq' hrr _ ih =>
    refine .other (hout r hq) hq' ?_ ih
    dsimp only
    split
    · next hp => exact hsame r r' hp hrr
    · exact hrr
  | @skip r t t' hq _ ih => exact .skip (hout r hq) ih

end Thinned

end Table

end Liquifact.Lib
