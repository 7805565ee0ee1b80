import Liquifact.Lib.Keyset
import Mathlib.Data.List.Perm.Basic
import Mathlib.Data.List.Sort

/-!
# Pages by offset

Page `k` of a list are its rows from `k * limit` on, `limit` of them. Two things spoil the
pages of a query.

A query that orders rows by a key alone may give rows with equal keys in any order, in another
one each time it is asked. The pages hold every row once, whatever the orders, if and only if
no page boundary falls between two rows of one key (`pages_perm_iff`).

A condition that is applied to a page, not to the list, leaves fewer rows than a page of the
rows that satisfy it, or other ones (`filter_page_iff`).
-/

namespace Liquifact.Lib

section Ties
variable {ρ κ : Type} [LinearOrder κ]

/- An order in which a query may give the rows, the greatest key first. -/
structure Descending (key : ρ → κ) (rows xs : List ρ) : Prop where
  perm : xs.Perm rows
  sorted : xs.Pairwise fun a b => key b ≤ key a

/- The first pages, each cut from the order in which its query gave the rows. -/
def pagesOf (orders : ℕ → List ρ) (limit count : ℕ) : List ρ :=
  (List.range count).flatMap fun k => offsetPage (orders k) limit k

def sortedKeys (key : ρ → κ) (rows : List ρ) : List κ :=
  (rows.map key).insertionSort fun a b => b ≤ a

def NoTieCut (key : ρ → κ) (rows : List ρ) (limit : ℕ) : Prop :=
  ∀ k a b, 0 < k → (sortedKeys key rows)[k * limit - 1]? = some a →
    (sortedKeys key rows)[k * limit]? = some b → a ≠ b

variable {key : ρ → κ} {rows xs ys : List ρ} {limit : ℕ}

theorem sortedKeys_sorted (key : ρ → κ) (rows : List ρ) :
    (sortedKeys key rows).Pairwise fun a b => b ≤ a := by
  have htotal : Std.Total fun a b : κ => b ≤ a := ⟨fun a b => le_total b a⟩
  have htrans : IsTrans κ fun a b => b ≤ a := ⟨fun _ _ _ hab hbc => le_trans hbc hab⟩
  exact List.pairwise_insertionSort _ _

theorem Descending.keys (h : Descending key rows xs) : xs.map key = sortedKeys key rows := by
  have hperm : (xs.map key).Perm (sortedKeys key rows) :=
    (h.perm.map key).trans (List.perm_insertionSort _ _).symm
  have hsorted : (xs.map key).Pairwise fun a b => b ≤ a := List.pairwise_map.mpr h.sorted
  refine List.Perm.eq_of_pairwise ?_ hsorted (sortedKeys_sorted key rows) hperm
  intro a b _ _ hab hba
  exact le_antisymm hba hab

/- Rows of different keys have no tie to cut. -/
theorem noTieCut_of_nodup (h : (rows.map key).Nodup) (limit : ℕ) (hlimit : 0 < limit) :
    NoTieCut key rows limit := by
  have hsorted : (sortedKeys key rows).Nodup := (List.perm_insertionSort _ _).nodup_iff.mpr h
  intro k a b hk ha hb hab
  subst hab
  have hpos : 0 < k * limit := Nat.mul_pos hk hlimit
  obtain ⟨hlt, -⟩ := List.getElem?_eq_some_iff.mp ha
  have hindex := (List.getElem?_inj hlt hsorted).mp (ha.trans hb.symm)
  omega

theorem exists_descending (key : ρ → κ) (rows : List ρ) : ∃ xs, Descending key rows xs := by
  have htotal : Std.Total fun a b : ρ => key b ≤ key a := ⟨fun a b => le_total (key b) (key a)⟩
  have htrans : IsTrans ρ fun a b => key b ≤ key a := ⟨fun _ _ _ hab hbc => le_trans hbc hab⟩
  exact ⟨rows.insertionSort fun a b => key b ≤ key a, List.perm_insertionSort _ _,
    List.pairwise_insertionSort _ _⟩

/- The rows before a boundary that cuts no tie are those of the greatest keys. -/
theorem take_eq_filter (h : Descending key rows xs) {i : ℕ} {a b : κ}
    (ha : (sortedKeys key rows)[i]? = some a) (hb : (sortedKeys key rows)[i + 1]? = some b)
    (hab : a ≠ b) : xs.take (i + 1) = xs.filter fun r => decide (a ≤ key r) := by
  rw [← h.keys, List.getElem?_map, Option.map_eq_some_iff] at ha hb
  obtain ⟨r, hr, rfl⟩ := ha
  obtain ⟨s, hs, rfl⟩ := hb
  obtain ⟨hi, rfl⟩ := List.getElem?_eq_some_iff.mp hr
  obtain ⟨hi', rfl⟩ := List.getElem?_eq_some_iff.mp hs
  have hlater : ∀ j l (hj : j < xs.length) (hl : l < xs.length), j < l → key xs[l] ≤ key xs[j] :=
    fun j l hj hl hjl => List.pairwise_iff_getElem.mp h.sorted j l hj hl hjl
  have hdrop : key xs[i + 1] < key xs[i] :=
    lt_of_le_of_ne (hlater i (i + 1) hi hi' (Nat.lt_succ_self i)) (Ne.symm hab)
  have hfront : ∀ r ∈ xs.take (i + 1), decide (key xs[i] ≤ key r) = true := by
    intro r hr
    obtain ⟨j, hj, rfl⟩ := List.mem_take_iff_getElem.mp hr
    rw [decide_eq_true_eq]
    rcases Nat.lt_or_eq_of_le (Nat.le_of_lt_succ (Nat.lt_of_lt_of_le hj (Nat.min_le_left ..))) with
      hlt | rfl
    · exact hlater j i _ hi hlt
    · exact le_rfl
  have hback : ∀ r ∈ xs.drop (i + 1), ¬ decide (key xs[i] ≤ key r) = true := by
    intro r hr
    obtain ⟨j, hj, rfl⟩ := List.mem_drop_iff_getElem.mp hr
    rw [decide_eq_true_eq, not_le]
    rcases Nat.eq_zero_or_pos j with rfl | hpos
    · exact hdrop
    · exact (hlater (i + 1) (i + 1 + j) hi' _ (by omega)).trans_lt hdrop
  have hsplit : xs.filter (fun r => decide (key xs[i] ≤ key r)) =
      (xs.take (i + 1) ++ xs.drop (i + 1)).filter fun r => decide (key xs[i] ≤ key r) := by
    rw [List.take_append_drop]
  rw [hsplit, List.filter_append, List.filter_eq_self.mpr hfront, List.filter_eq_nil_iff.mpr hback,
    List.append_nil]

theorem take_perm (hcut : NoTieCut key rows limit) (hlimit : 0 < limit)
    (hx : Descending key rows xs) (hy : Descending key rows ys) (k : ℕ) :
    (xs.take (k * limit)).Perm (ys.take (k * limit)) := by
  rcases Nat.eq_zero_or_pos k with rfl | hk
  · simp
  · by_cases hlast : rows.length ≤ k * limit
    · rw [List.take_of_length_le (hx.perm.length_eq.trans_le hlast),
        List.take_of_length_le (hy.perm.length_eq.trans_le hlast)]
      exact hx.perm.trans hy.perm.symm
    · have hpos : 0 < k * limit := Nat.mul_pos hk hlimit
      have hlength : (sortedKeys key rows).length = rows.length := by
        rw [sortedKeys, List.length_insertionSort, List.length_map]
      obtain ⟨i, hi⟩ : ∃ i, k * limit = i + 1 := ⟨k * limit - 1, by omega⟩
      have ha := List.getElem?_eq_getElem (l := sortedKeys key rows) (i := i) (by omega)
      have hb := List.getElem?_eq_getElem (l := sortedKeys key rows) (i := i + 1) (by omega)
      have hne := hcut k _ _ hk (by rw [hi, Nat.add_sub_cancel]; exact ha) (by rw [hi]; exact hb)
      rw [hi, take_eq_filter hx ha hb hne, take_eq_filter hy ha hb hne]
      exact (hx.perm.trans hy.perm.symm).filter _

theorem take_succ_page (xs : List ρ) (limit k : ℕ) :
    xs.take ((k + 1) * limit) = xs.take (k * limit) ++ offsetPage xs limit k := by
  rw [Nat.succ_mul, List.take_add]
  rfl

theorem page_perm (hcut : NoTieCut key rows limit) (hlimit : 0 < limit)
    (hx : Descending key rows xs) (hy : Descending key rows ys) (k : ℕ) :
    (offsetPage xs limit k).Perm (offsetPage ys limit k) := by
  have hnext := take_perm hcut hlimit hx hy (k + 1)
  rw [take_succ_page, take_succ_page] at hnext
  have hfront := take_perm hcut hlimit hx hy k
  exact (List.perm_append_left_iff _).mp (hnext.trans (hfront.symm.append_right _))

theorem pages_perm (hcut : NoTieCut key rows limit) (hlimit : 0 < limit) {count : ℕ}
    (hcount : rows.length ≤ count * limit) {orders : ℕ → List ρ}
    (h : ∀ k, Descending key rows (orders k)) : (pagesOf orders limit count).Perm rows := by
  have hsame : (pagesOf orders limit count).Perm (pagesOf (fun _ => orders 0) limit count) :=
    List.Perm.flatMap_left _ fun k _ => page_perm hcut hlimit (h k) (h 0) k
  refine hsame.trans ?_
  have hwhole : pagesOf (fun _ => orders 0) limit count = orders 0 := by
    rw [pagesOf, List.flatMap_def, List.range_eq_range', flatten_offsetPages, Nat.zero_mul,
      List.drop_zero, List.take_of_length_le ((h 0).perm.length_eq.trans_le hcount)]
  rw [hwhole]
  exact (h 0).perm

/-! ### A tie that is cut -/

theorem exists_neighbours {i : ℕ} {a b : ρ} (ha : xs[i]? = some a) (hb : xs[i + 1]? = some b) :
    ∃ front back, xs = front ++ a :: b :: back ∧ front.length = i := by
  obtain ⟨hi, rfl⟩ := List.getElem?_eq_some_iff.mp ha
  obtain ⟨hi', rfl⟩ := List.getElem?_eq_some_iff.mp hb
  refine ⟨xs.take i, xs.drop (i + 1 + 1), ?_, by rw [List.length_take]; omega⟩
  rw [← List.drop_eq_getElem_cons hi', ← List.drop_eq_getElem_cons hi, List.take_append_drop]

/- Neighbours of one key may as well stand the other way round. -/
theorem Descending.swap {front back : List ρ} {a b : ρ}
    (h : Descending key rows (front ++ a :: b :: back)) (hab : key a = key b) :
    Descending key rows (front ++ b :: a :: back) := by
  refine ⟨((List.Perm.swap a b back).append_left front).trans h.perm, ?_⟩
  have hsorted := h.sorted
  rw [List.pairwise_append, List.pairwise_cons, List.pairwise_cons] at hsorted ⊢
  obtain ⟨hfront, ⟨ha, hb, hback⟩, hcross⟩ := hsorted
  refine ⟨hfront, ⟨?_, ?_, hback⟩, ?_⟩
  · intro x hx
    rcases List.mem_cons.mp hx with rfl | hx
    · exact hab.le
    · exact hb x hx
  · intro x hx
    exact ha x (List.mem_cons_of_mem b hx)
  · intro x hx y hy
    refine hcross x hx y ?_
    simp only [List.mem_cons] at hy ⊢
    exact or_left_comm.mp hy

theorem mem_page {k i : ℕ} {r : ρ} (hi : i < limit) (h : xs[k * limit + i]? = some r) :
    r ∈ offsetPage xs limit k := by
  refine List.mem_of_getElem? (i := i) ?_
  rw [offsetPage, List.getElem?_take_of_lt hi, List.getElem?_drop]
  exact h

theorem noTieCut_of_pages (hnodup : rows.Nodup) (hlimit : 0 < limit) {count : ℕ}
    (hcount : rows.length ≤ count * limit)
    (h : ∀ orders : ℕ → List ρ, (∀ k, Descending key rows (orders k)) →
      (pagesOf orders limit count).Perm rows) : NoTieCut key rows limit := by
  intro k p q hk hp hq hpq
  obtain ⟨xs, hxs⟩ := exists_descending key rows
  have hpos : 0 < k * limit := Nat.mul_pos hk hlimit
  obtain ⟨i, hi⟩ : ∃ i, k * limit = i + 1 := ⟨k * limit - 1, by omega⟩
  rw [← hxs.keys, List.getElem?_map, Option.map_eq_some_iff] at hp hq
  rw [hi, Nat.add_sub_cancel] at hp
  rw [hi] at hq
  obtain ⟨a, ha, rfl⟩ := hp
  obtain ⟨b, hb, rfl⟩ := hq
  obtain ⟨front, back, rfl, hfront⟩ := exists_neighbours ha hb
  have hswap := hxs.swap hpq
  -- the query for the page after the boundary gives the two rows the other way round
  have hpages := h (fun j => if j = k then front ++ b :: a :: back else front ++ a :: b :: back)
    (by intro j; split <;> assumption)
  have hdisjoint := (List.nodup_flatMap.mp (hpages.nodup_iff.mpr hnodup)).2
  have hlt : k < count := by
    have hlength := hxs.perm.length_eq
    simp only [List.length_append, List.length_cons] at hlength
    exact Nat.lt_of_mul_lt_mul_right (a := limit) (by omega)
  have hbefore : a ∈ offsetPage (front ++ a :: b :: back) limit (k - 1) := by
    refine mem_page (i := limit - 1) (by omega) ?_
    have hindex : (k - 1) * limit + (limit - 1) = i := by
      have hmul : (k - 1 + 1) * limit = (k - 1) * limit + limit := Nat.succ_mul _ _
      rw [Nat.sub_add_cancel hk] at hmul
      omega
    rw [hindex]
    exact ha
  have hafter : a ∈ offsetPage (front ++ b :: a :: back) limit k := by
    refine mem_page (i := 0) hlimit ?_
    rw [Nat.add_zero, hi, ← hfront]
    simp
  have hpair := List.pairwise_iff_getElem.mp hdisjoint (k - 1) k
    (by rw [List.length_range]; omega) (by rw [List.length_range]; exact hlt) (by omega)
  rw [List.getElem_range, List.getElem_range] at hpair
  have hne : k - 1 ≠ k := by omega
  refine hpair (a := a) ?_ ?_
  · simp only [if_neg hne]
    exact hbefore
  · simp only [if_true]
    exact hafter

/-- The pages hold every row once, in whatever orders the queries give rows of equal keys, if
and only if no page boundary falls between two rows of one key. -/
theorem pages_perm_iff (hnodup : rows.Nodup) (hlimit : 0 < limit) {count : ℕ}
    (hcount : rows.length ≤ count * limit) :
    (∀ orders : ℕ → List ρ, (∀ k, Descending key rows (orders k)) →
      (pagesOf orders limit count).Perm rows) ↔ NoTieCut key rows limit :=
  ⟨noTieCut_of_pages hnodup hlimit hcount,
    fun hcut _ horders => pages_perm hcut hlimit hcount horders⟩

end Ties

/-! ### A condition on the page -/

section Filter
variable {ρ : Type} {p : ρ → Bool} {xs : List ρ}

/- Two segments of a list without repetitions. -/
theorem segments_eq_iff (hnodup : xs.Nodup) {a b m n : ℕ} (hab : a + b ≤ xs.length) :
    (xs.drop a).take b = (xs.drop m).take n ↔
      b = min n (xs.length - m) ∧ (b = 0 ∨ a = m) := by
  constructor
  · intro h
    have hlength := congrArg List.length h
    rw [List.length_take, List.length_take, List.length_drop, List.length_drop,
      Nat.min_eq_left (by omega)] at hlength
    refine ⟨hlength, ?_⟩
    rcases Nat.eq_zero_or_pos b with hb | hb
    · exact .inl hb
    · refine .inr ?_
      have hhead := congrArg (fun l => l[0]?) h
      simp only [List.getElem?_take_of_lt hb, List.getElem?_drop, Nat.add_zero,
        List.getElem?_take_of_lt (show 0 < n by omega)] at hhead
      rw [List.getElem?_eq_getElem (by omega), List.getElem?_eq_getElem (by omega),
        Option.some.injEq] at hhead
      exact (hnodup.getElem_inj_iff).mp hhead
  · rintro ⟨hlength, hb | rfl⟩
    · rw [hb, List.take_zero, eq_comm, ← List.length_eq_zero_iff, List.length_take,
        List.length_drop, ← hlength, hb]
    · rw [hlength, ← List.length_drop, List.take_eq_take_iff]
      exact Nat.min_assoc .. ▸ by rw [Nat.min_self]

/-- What a page of `size` rows leaves of the condition is the page of `n` among the rows that
satisfy it exactly when as many are left as that page has and, if any, all rows before the
page satisfy the condition. -/
theorem filter_page_iff (hnodup : xs.Nodup) (m n size : ℕ) :
    ((xs.drop m).take size).filter p = ((xs.filter p).drop m).take n ↔
      ((xs.drop m).take size).countP p = min n (xs.countP p - m) ∧
        (((xs.drop m).take size).countP p = 0 ∨ (xs.take m).countP p = m) := by
  have hsplit : xs.filter p = (xs.take m).filter p ++ (((xs.drop m).take size).filter p ++
      ((xs.drop m).drop size).filter p) := by
    rw [← List.filter_append, ← List.filter_append, List.take_append_drop, List.take_append_drop]
  have hlength := congrArg List.length hsplit
  simp only [List.length_append, ← List.countP_eq_length_filter] at hlength
  have hsegment : ((xs.drop m).take size).filter p =
      ((xs.filter p).drop ((xs.take m).countP p)).take (((xs.drop m).take size).countP p) := by
    conv_rhs => rw [hsplit]
    rw [List.countP_eq_length_filter, List.countP_eq_length_filter, List.drop_left, List.take_left]
  rw [hsegment, segments_eq_iff (hnodup.filter p) (by rw [← List.countP_eq_length_filter]; omega),
    List.countP_eq_length_filter (l := xs)]

end Filter

end Liquifact.Lib
