import Mathlib.Data.List.Nodup
import Mathlib.Tactic.Common

/-!
# Keyset pagination of a fixed list

A client takes the first `limit` rows, then again and again the first `limit` rows that a
seek predicate places after the last row it saw, until no row is left over. The pages are
those of an offset scan when the predicate is exact at every page boundary, that is, when
it selects the rows after the boundary. If it errs on one side only, exactness at the
boundaries is also necessary for seeing every row once.
-/

namespace Liquifact.Lib

section Keyset
variable {ρ : Type} (rows : List ρ) (seek : ρ → ρ → Bool) (limit : ℕ)

/- The pages a client sees that starts with the candidates `cand`; `none` if `fuel` pages
are not enough. -/
def follow : ℕ → List ρ → Option (List (List ρ))
  | 0, _ => none
  | fuel + 1, cand =>
    if cand.length ≤ limit then some [cand]
    else match (cand.take limit).getLast? with
      | none => none
      | some r => (follow fuel (rows.filter (seek r))).map (cand.take limit :: ·)

def offsetPage (k : ℕ) : List ρ := (rows.drop (k * limit)).take limit

/- Every row is seen once: the walk ends and its pages hold the rows. -/
def SeenOnce : Prop :=
  ∃ fuel pages, follow rows seek limit fuel rows = some pages ∧ pages.flatten.Perm rows

/- The last row of page `k`, when rows follow it. -/
def IsBoundary (k : ℕ) (r : ρ) : Prop :=
  0 < k ∧ k * limit < rows.length ∧ rows[k * limit - 1]? = some r

def ExactAt (k : ℕ) (r : ρ) : Prop := rows.filter (seek r) = rows.drop (k * limit)

def ExactBoundaries : Prop := ∀ k r, IsBoundary rows limit k r → ExactAt rows seek limit k r

/- The predicate loses no row that follows a boundary. -/
def Widens : Prop :=
  ∀ k r, IsBoundary rows limit k r → ∀ x ∈ rows.drop (k * limit), seek r x = true

/- The predicate takes no row up to a boundary, and what it has lost stays lost. -/
structure Narrows : Prop where
  after : ∀ k r, IsBoundary rows limit k r → ∀ x ∈ rows, seek r x = true → x ∈ rows.drop (k * limit)
  trans : ∀ r ∈ rows, ∀ x ∈ rows, ∀ y ∈ rows, seek r x = true → seek x y = true → seek r y = true

variable {rows seek limit}

theorem drop_take_getLast (hlimit : 0 < limit) {k : ℕ} (h : (k + 1) * limit < rows.length) :
    ∃ r, ((rows.drop (k * limit)).take limit).getLast? = some r ∧
      IsBoundary rows limit (k + 1) r := by
  have hmul : (k + 1) * limit = k * limit + limit := Nat.succ_mul k limit
  have hlt : (k + 1) * limit - 1 < rows.length := by omega
  refine ⟨rows[(k + 1) * limit - 1], ?_, by omega, h, List.getElem?_eq_getElem hlt⟩
  rw [List.getLast?_eq_getElem?, List.length_take, List.length_drop,
    Nat.min_eq_left (by omega), List.getElem?_take_of_lt (by omega), List.getElem?_drop,
    show k * limit + (limit - 1) = (k + 1) * limit - 1 by omega]
  exact List.getElem?_eq_getElem hlt

theorem follow_drop (hlimit : 0 < limit) {k fuel : ℕ} (h : (k + 1) * limit < rows.length) {r : ρ}
    (hr : IsBoundary rows limit (k + 1) r) :
    follow rows seek limit (fuel + 1) (rows.drop (k * limit)) =
      (follow rows seek limit fuel (rows.filter (seek r))).map (offsetPage rows limit k :: ·) := by
  obtain ⟨r', hlast, hr'⟩ := drop_take_getLast hlimit h
  have hrr : r' = r := by
    have := hr'.2.2.symm.trans hr.2.2
    simpa using this
  have hmul : (k + 1) * limit = k * limit + limit := Nat.succ_mul k limit
  have hlen : ¬ (rows.drop (k * limit)).length ≤ limit := by
    rw [List.length_drop]
    omega
  rw [follow, if_neg hlen, hlast, hrr]
  rfl

/-! ### Exact boundaries give the offset pages -/

theorem follow_exact (hlimit : 0 < limit) (hexact : ExactBoundaries rows seek limit) (k : ℕ) :
    ∃ n, follow rows seek limit (n + 1) (rows.drop (k * limit)) =
        some ((List.range' k (n + 1)).map (offsetPage rows limit)) ∧
      rows.length ≤ (k + n + 1) * limit := by
  -- by the number of rows after page k
  induction hm : rows.length - k * limit using Nat.strongRecOn generalizing k with
  | ind m ih =>
    have hmul : (k + 1) * limit = k * limit + limit := Nat.succ_mul k limit
    by_cases hlast : (k + 1) * limit < rows.length
    · obtain ⟨r, -, hr⟩ := drop_take_getLast hlimit hlast
      obtain ⟨n, hn, hlen⟩ := ih (rows.length - (k + 1) * limit) (by omega) (k + 1) rfl
      refine ⟨n + 1, ?_, ?_⟩
      · rw [follow_drop hlimit hlast hr, hexact (k + 1) r hr, hn, Option.map_some,
          List.range'_succ (s := k) (n := n + 1), List.map_cons]
      · rw [show k + (n + 1) + 1 = k + 1 + n + 1 by omega]
        exact hlen
    · refine ⟨0, ?_, by rw [Nat.add_zero]; omega⟩
      have hlen : (rows.drop (k * limit)).length ≤ limit := by
        rw [List.length_drop]
        omega
      rw [follow, if_pos hlen]
      simp [offsetPage, List.take_of_length_le hlen]

theorem flatten_offsetPages (k n : ℕ) :
    ((List.range' k n).map (offsetPage rows limit)).flatten =
      (rows.drop (k * limit)).take (n * limit) := by
  induction n generalizing k with
  | zero => simp
  | succ n ih =>
    rw [List.range'_succ, List.map_cons, List.flatten_cons, ih, offsetPage,
      show (n + 1) * limit = limit + n * limit by rw [Nat.succ_mul, Nat.add_comm], List.take_add, List.drop_drop,
      ← Nat.succ_mul]

theorem flatten_offsetPages_all {n : ℕ} (h : rows.length ≤ n * limit) :
    ((List.range n).map (offsetPage rows limit)).flatten = rows := by
  rw [List.range_eq_range', flatten_offsetPages, Nat.zero_mul, List.drop_zero]
  exact List.take_of_length_le h

theorem offsetPage_ne_nil_iff (hlimit : 0 < limit) (k : ℕ) :
    offsetPage rows limit k ≠ [] ↔ k * limit < rows.length := by
  rw [← List.length_pos_iff, offsetPage, List.length_take, List.length_drop]
  omega

theorem seenOnce_of_exact (hlimit : 0 < limit) (hexact : ExactBoundaries rows seek limit) :
    ∃ n, follow rows seek limit (n + 1) rows =
        some ((List.range (n + 1)).map (offsetPage rows limit)) ∧
      ((List.range (n + 1)).map (offsetPage rows limit)).flatten = rows ∧
      rows.length ≤ (n + 1) * limit := by
  obtain ⟨n, hn, hlen⟩ := follow_exact hlimit hexact 0
  rw [Nat.zero_mul, List.drop_zero] at hn
  rw [Nat.zero_add] at hlen
  refine ⟨n, by rw [hn, List.range_eq_range'], ?_, hlen⟩
  rw [List.range_eq_range', flatten_offsetPages, Nat.zero_mul, List.drop_zero,
    List.take_of_length_le hlen]

/-! ### One-sided predicates see every row once only if they are exact -/

theorem take_prefix_follow {fuel : ℕ} {cand : List ρ} {pages : List (List ρ)}
    (h : follow rows seek limit fuel cand = some pages) : cand.take limit <+: pages.flatten := by
  cases fuel with
  | zero => cases h
  | succ fuel =>
    rw [follow] at h
    split at h
    · cases h
      simpa using List.take_prefix limit cand
    · split at h
      · cases h
      · obtain ⟨rest, -, rfl⟩ := Option.map_eq_some_iff.mp h
        exact List.prefix_append _ _

theorem follow_subset (htrans : ∀ r ∈ rows, ∀ x ∈ rows, ∀ y ∈ rows,
      seek r x = true → seek x y = true → seek r y = true)
    {r : ρ} (hr : r ∈ rows) {fuel : ℕ} {cand : List ρ} {pages : List (List ρ)}
    (hcand : ∀ x ∈ cand, x ∈ rows ∧ seek r x = true)
    (h : follow rows seek limit fuel cand = some pages) :
    ∀ x ∈ pages.flatten, seek r x = true := by
  induction fuel generalizing cand pages with
  | zero => cases h
  | succ fuel ih =>
    rw [follow] at h
    split at h
    · cases h
      intro x hx
      rw [List.flatten_singleton] at hx
      exact (hcand x hx).2
    · split at h
      · cases h
      · rename_i last hlast
        obtain ⟨rest, hrest, rfl⟩ := Option.map_eq_some_iff.mp h
        have hmem : last ∈ cand := List.mem_of_mem_take (List.mem_of_getLast? hlast)
        obtain ⟨hlrows, hlseek⟩ := hcand last hmem
        intro x hx
        rcases List.mem_append.mp hx with hx | hx
        · exact (hcand x (List.mem_of_mem_take hx)).2
        · refine ih ?_ hrest x hx
          intro y hy
          obtain ⟨hyrows, hyseek⟩ := List.mem_filter.mp hy
          exact ⟨hyrows, htrans r hr last hlrows y hyrows hlseek hyseek⟩

theorem filter_take_append_drop (p : ρ → Bool) (m : ℕ) :
    rows.filter p = (rows.take m).filter p ++ (rows.drop m).filter p := by
  rw [← List.filter_append, List.take_append_drop]

theorem exactAt_of_widens (hnodup : rows.Nodup) (hlimit : 0 < limit) (hwide : Widens rows seek limit)
    {k fuel : ℕ} {r : ρ} {pages : List (List ρ)} (hr : IsBoundary rows limit k r)
    (hfollow : follow rows seek limit fuel (rows.filter (seek r)) = some pages)
    (hperm : pages.flatten.Perm (rows.drop (k * limit))) : ExactAt rows seek limit k r := by
  have hafter : (rows.drop (k * limit)).filter (seek r) = rows.drop (k * limit) :=
    List.filter_eq_self.mpr (hwide k r hr)
  unfold ExactAt
  rw [filter_take_append_drop _ (k * limit), hafter]
  cases hbefore : (rows.take (k * limit)).filter (seek r) with
  | nil => rfl
  | cons y ys =>
    -- the next page would open with a row already seen
    exfalso
    have hy : y ∈ rows.take (k * limit) :=
      (List.mem_filter.mp (hbefore ▸ List.mem_cons_self ..)).1
    have hpage : y ∈ (rows.filter (seek r)).take limit := by
      rw [filter_take_append_drop _ (k * limit), hbefore]
      obtain ⟨l, rfl⟩ : ∃ l, limit = l + 1 := ⟨limit - 1, by omega⟩
      simp
    have hseen : y ∈ rows.drop (k * limit) :=
      hperm.subset ((take_prefix_follow hfollow).subset hpage)
    rw [← List.take_append_drop (k * limit) rows] at hnodup
    exact (List.nodup_append.mp hnodup).2.2 y hy y hseen rfl

theorem exactAt_of_narrows (hnodup : rows.Nodup) (hnarrow : Narrows rows seek limit)
    {k fuel : ℕ} {r : ρ} {pages : List (List ρ)} (hr : IsBoundary rows limit k r)
    (hfollow : follow rows seek limit fuel (rows.filter (seek r)) = some pages)
    (hperm : pages.flatten.Perm (rows.drop (k * limit))) : ExactAt rows seek limit k r := by
  have hrmem : r ∈ rows := List.mem_of_getElem? hr.2.2
  have hbefore : (rows.take (k * limit)).filter (seek r) = [] := by
    rw [List.filter_eq_nil_iff]
    intro x hx hseek
    have hx' := hnarrow.after k r hr x (List.mem_of_mem_take hx) hseek
    rw [← List.take_append_drop (k * limit) rows] at hnodup
    exact (List.nodup_append.mp hnodup).2.2 x hx x hx' rfl
  have hafter : (rows.drop (k * limit)).filter (seek r) = rows.drop (k * limit) := by
    rw [List.filter_eq_self]
    intro x hx
    refine follow_subset hnarrow.trans hrmem ?_ hfollow x (hperm.symm.subset hx)
    intro y hy
    exact List.mem_filter.mp hy
  unfold ExactAt
  rw [filter_take_append_drop _ (k * limit), hbefore, hafter, List.nil_append]

theorem exact_of_follow (hnodup : rows.Nodup) (hlimit : 0 < limit)
    (hside : Widens rows seek limit ∨ Narrows rows seek limit) {fuel k : ℕ} {pages : List (List ρ)}
    (hfollow : follow rows seek limit fuel (rows.drop (k * limit)) = some pages)
    (hperm : pages.flatten.Perm (rows.drop (k * limit))) :
    ∀ j r, k < j → IsBoundary rows limit j r → ExactAt rows seek limit j r := by
  induction fuel generalizing k pages with
  | zero => cases hfollow
  | succ fuel ih =>
    intro j r hj hr
    have hle : (k + 1) * limit ≤ j * limit := Nat.mul_le_mul_right limit hj
    have hlast : (k + 1) * limit < rows.length := Nat.lt_of_le_of_lt hle hr.2.1
    obtain ⟨b, -, hb⟩ := drop_take_getLast hlimit hlast
    rw [follow_drop hlimit hlast hb] at hfollow
    obtain ⟨rest, hrest, rfl⟩ := Option.map_eq_some_iff.mp hfollow
    -- page k is the next page of the offset scan, so the rest has to be the rest of the scan
    have hpermRest : rest.flatten.Perm (rows.drop ((k + 1) * limit)) := by
      have hsplit : rows.drop (k * limit) =
          offsetPage rows limit k ++ rows.drop ((k + 1) * limit) := by
        rw [offsetPage, Nat.succ_mul, ← List.drop_drop, List.take_append_drop]
      rw [List.flatten_cons, hsplit] at hperm
      exact (List.perm_append_left_iff _).mp hperm
    have hexact : ExactAt rows seek limit (k + 1) b := by
      rcases hside with hwide | hnarrow
      · exact exactAt_of_widens hnodup hlimit hwide hb hrest hpermRest
      · exact exactAt_of_narrows hnodup hnarrow hb hrest hpermRest
    rcases Nat.lt_or_eq_of_le hj with hlt | heq
    · rw [hexact] at hrest
      exact ih hrest hpermRest j r hlt hr
    · subst heq
      have hrb : b = r := by
        have := hb.2.2.symm.trans hr.2.2
        simpa using this
      exact hrb ▸ hexact

theorem seenOnce_iff_exact (hnodup : rows.Nodup) (hlimit : 0 < limit)
    (hside : Widens rows seek limit ∨ Narrows rows seek limit) :
    SeenOnce rows seek limit ↔ ExactBoundaries rows seek limit := by
  constructor
  · rintro ⟨fuel, pages, hfollow, hperm⟩ k r hr
    have h0 : rows.drop (0 * limit) = rows := by rw [Nat.zero_mul, List.drop_zero]
    have hfollow0 : follow rows seek limit fuel (rows.drop (0 * limit)) = some pages := by
      rw [h0]
      exact hfollow
    rw [← h0] at hperm
    exact exact_of_follow hnodup hlimit hside hfollow0 hperm k r hr.1 hr
  · intro hexact
    obtain ⟨n, hfollow, hflat, -⟩ := seenOnce_of_exact hlimit hexact
    exact ⟨n + 1, _, hfollow, by rw [hflat]⟩

/-! ### Exactness against a strict order of the rows -/

section Ordered
variable {R : ρ → ρ → Prop} (hasymm : ∀ a b, R a b → ¬ R b a)
include hasymm

theorem mem_drop_iff (hrows : rows.Pairwise R) {k : ℕ} {r x : ρ} (hr : IsBoundary rows limit k r)
    (hx : x ∈ rows) (hlimit : 0 < limit) : x ∈ rows.drop (k * limit) ↔ R r x := by
  obtain ⟨hk, hlt, hget⟩ := hr
  have hpos : 0 < k * limit := Nat.mul_pos hk hlimit
  have hr' : r ∈ rows.take (k * limit) := by
    refine List.mem_of_getElem? (i := k * limit - 1) ?_
    rw [List.getElem?_take_of_lt (by omega)]
    exact hget
  have hsplit := hrows
  rw [← List.take_append_drop (k * limit) rows, List.pairwise_append] at hsplit
  obtain ⟨htake, -, hcross⟩ := hsplit
  constructor
  · intro hmem
    exact hcross r hr' x hmem
  · intro hrx
    rw [← List.take_append_drop (k * limit) rows] at hx
    refine (List.mem_append.mp hx).resolve_left fun hxtake => ?_
    -- a row of the first pages is the boundary row or precedes it
    have htake' : rows.take (k * limit) = rows.take (k * limit - 1) ++ [r] := by
      rw [show k * limit = k * limit - 1 + 1 by omega, List.take_add_one, Nat.add_sub_cancel, hget]
      rfl
    rw [htake'] at hxtake htake
    rcases List.mem_append.mp hxtake with hbefore | hself
    · have hxr := (List.pairwise_append.mp htake).2.2 x hbefore r (List.mem_singleton_self r)
      exact hasymm x r hxr hrx
    · rw [List.mem_singleton.mp hself] at hrx
      exact hasymm r r hrx hrx

theorem exactAt_iff (hrows : rows.Pairwise R) (hlimit : 0 < limit) {k : ℕ} {r : ρ}
    (hr : IsBoundary rows limit k r) :
    ExactAt rows seek limit k r ↔ ∀ x ∈ rows, (seek r x = true ↔ R r x) := by
  constructor
  · intro hexact x hx
    rw [← mem_drop_iff hasymm hrows hr hx hlimit, ← hexact, List.mem_filter, and_iff_right hx]
  · intro h
    have hnodup : rows.Nodup := by
      refine hrows.imp ?_
      rintro a b hab rfl
      exact hasymm a a hab hab
    have hbefore : (rows.take (k * limit)).filter (seek r) = [] := by
      rw [List.filter_eq_nil_iff]
      intro x hx hseek
      have hx' := (mem_drop_iff hasymm hrows hr (List.mem_of_mem_take hx) hlimit).mpr
        ((h x (List.mem_of_mem_take hx)).mp hseek)
      rw [← List.take_append_drop (k * limit) rows] at hnodup
      exact (List.nodup_append.mp hnodup).2.2 x hx x hx' rfl
    have hafter : (rows.drop (k * limit)).filter (seek r) = rows.drop (k * limit) := by
      rw [List.filter_eq_self]
      intro x hx
      have hx' := List.mem_of_mem_drop hx
      exact (h x hx').mpr ((mem_drop_iff hasymm hrows hr hx' hlimit).mp hx)
    rw [ExactAt, filter_take_append_drop _ (k * limit), hbefore, hafter, List.nil_append]

end Ordered

/-! ### Rows of a class that comes first -/

theorem first_class_iff {P : ρ → Bool} (hfirst : rows.Pairwise fun a b => P b = true → P a = true)
    {i : ℕ} {r : ρ} (h : rows[i]? = some r) : P r = true ↔ i < rows.countP P := by
  induction rows generalizing i with
  | nil => simp at h
  | cons a l ih =>
    obtain ⟨hhead, htail⟩ := List.pairwise_cons.mp hfirst
    cases hP : P a with
    | true =>
      rw [List.countP_cons_of_pos hP]
      cases i with
      | zero =>
        simp only [List.getElem?_cons_zero, Option.some.injEq] at h
        rw [← h, hP]
        simp
      | succ i =>
        rw [List.getElem?_cons_succ] at h
        rw [ih htail h]
        omega
    | false =>
      have hnone : ∀ b ∈ a :: l, ¬ P b = true := by
        intro b hb hPb
        rcases List.mem_cons.mp hb with rfl | hb
        · rw [hP] at hPb
          cases hPb
        · rw [hhead b hb hPb] at hP
          cases hP
      have hmem : r ∈ a :: l := List.mem_of_getElem? h
      rw [List.countP_eq_zero.mpr hnone]
      simpa using hnone r hmem

/- No boundary row is of the first class, unless all rows are, exactly when its rows do not
fill a page. -/
theorem boundary_first_class_iff {P : ρ → Bool} (hlimit : 0 < limit)
    (hfirst : rows.Pairwise fun a b => P b = true → P a = true) :
    (∀ k r, IsBoundary rows limit k r → P r = true → ∀ x ∈ rows, P x = true) ↔
      (∀ x ∈ rows, P x = true) ∨ rows.countP P < limit := by
  constructor
  · intro h
    by_contra hnot
    obtain ⟨hother, hfull⟩ := not_or.mp hnot
    have hlt : rows.countP P < rows.length := by
      refine Nat.lt_of_le_of_ne List.countP_le_length fun heq => hother ?_
      exact List.countP_eq_length.mp heq
    obtain ⟨r, hget⟩ : ∃ r, rows[1 * limit - 1]? = some r :=
      ⟨_, List.getElem?_eq_getElem (by omega)⟩
    exact hother (h 1 r ⟨by omega, by omega, hget⟩
      ((first_class_iff hfirst hget).mpr (by omega)))
  · rintro (hall | hfew) k r ⟨hk, -, hget⟩ hPr
    · exact hall
    · have hge : limit ≤ k * limit := Nat.le_mul_of_pos_left limit hk
      have hidx := (first_class_iff hfirst hget).mp hPr
      omega

end Keyset

end Liquifact.Lib
