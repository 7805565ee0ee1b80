import Mathlib.Data.List.Nodup
import Mathlib.Data.List.Sort
import Mathlib.Tactic.Common

/-!
# Keyset scans over rows that share keys

A scan takes the first `limit` rows after the last key it saw while its pages are full. With
several rows to a key a page may end inside a key's rows; the rest of them is then skipped.
Each key is seen once exactly when the keys with more than one row stand where a page ends.
-/

namespace Liquifact.Lib

section Spread
variable {κ : Type} (size : κ → ℕ) (limit : ℕ)

/- Each key once for each of its rows. -/
def spreadKeys (keys : List κ) : List κ := keys.flatMap fun k => List.replicate (size k) k

/- Keys with several rows are the last of a page. -/
def EndsPages (keys : List κ) : Prop :=
  ∀ i k, keys[i]? = some k → 2 ≤ size k → limit ∣ i + 1

variable {size} {limit}

@[simp] theorem spreadKeys_nil : spreadKeys size [] = [] := rfl

@[simp] theorem spreadKeys_cons (k : κ) (keys : List κ) :
    spreadKeys size (k :: keys) = List.replicate (size k) k ++ spreadKeys size keys := rfl

theorem length_le_spreadKeys {keys : List κ} (hsize : ∀ k ∈ keys, 1 ≤ size k) :
    keys.length ≤ (spreadKeys size keys).length := by
  induction keys with
  | nil => simp
  | cons k keys ih =>
    have hhead := hsize k (List.mem_cons_self ..)
    have hrest := ih fun x hx => hsize x (List.mem_cons_of_mem k hx)
    simp only [spreadKeys_cons, List.length_cons, List.length_append, List.length_replicate]
    omega

theorem spreadKeys_of_single {keys : List κ} (hsize : ∀ k ∈ keys, size k = 1) :
    spreadKeys size keys = keys := by
  induction keys with
  | nil => rfl
  | cons k keys ih =>
    rw [spreadKeys_cons, hsize k (List.mem_cons_self ..),
      ih fun x hx => hsize x (List.mem_cons_of_mem k hx)]
    rfl

theorem single_of_length {keys : List κ} (hsize : ∀ k ∈ keys, 1 ≤ size k)
    (h : (spreadKeys size keys).length ≤ keys.length) : ∀ k ∈ keys, size k = 1 := by
  induction keys with
  | nil => simp
  | cons k keys ih =>
    have hhead := hsize k (List.mem_cons_self ..)
    have hpos : ∀ x ∈ keys, 1 ≤ size x := fun x hx => hsize x (List.mem_cons_of_mem k hx)
    have hrest := length_le_spreadKeys hpos
    simp only [spreadKeys_cons, List.length_cons, List.length_append, List.length_replicate] at h
    intro x hx
    rcases List.mem_cons.mp hx with rfl | hx
    · omega
    · exact ih hpos (by omega) x hx

/- A full page ends with the first `c` rows of some key. -/
theorem take_spreadKeys {keys : List κ} (hlimit : 0 < limit)
    (hfull : limit ≤ (spreadKeys size keys).length) :
    ∃ pre k rest c, keys = pre ++ k :: rest ∧ 1 ≤ c ∧ c ≤ size k ∧
      (spreadKeys size keys).take limit = spreadKeys size pre ++ List.replicate c k ∧
      (spreadKeys size pre).length + c = limit := by
  induction keys generalizing limit with
  | nil =>
    simp only [spreadKeys_nil, List.length_nil] at hfull
    omega
  | cons k keys ih =>
    rw [spreadKeys_cons] at hfull ⊢
    by_cases hhere : limit ≤ size k
    · refine ⟨[], k, keys, limit, rfl, hlimit, hhere, ?_, by simp⟩
      rw [List.take_append_of_le_length (by simpa using hhere), List.take_replicate,
        Nat.min_eq_left hhere]
      rfl
    · simp only [List.length_append, List.length_replicate] at hfull
      obtain ⟨pre, x, rest, c, rfl, hc, hle, htake, hlen⟩ := ih (show 0 < limit - size k by omega)
        (by omega)
      refine ⟨k :: pre, x, rest, c, rfl, hc, hle, ?_, ?_⟩
      · rw [List.take_append, List.length_replicate, htake,
          List.take_of_length_le (by simp only [List.length_replicate]; omega), spreadKeys_cons,
          List.append_assoc]
      · simp only [spreadKeys_cons, List.length_append, List.length_replicate]
        omega

/- The page that ends with `c` rows of `k` shows each of its keys once exactly when `pre` and
`k` fill it. -/
theorem endsPages_append_iff {pre : List κ} {k : κ} {rest : List κ} {c : ℕ}
    (hsize : ∀ x ∈ pre, 1 ≤ size x) (hc : 1 ≤ c) (hle : c ≤ size k)
    (hlen : (spreadKeys size pre).length + c = limit) :
    EndsPages size limit (pre ++ k :: rest) ↔
      ((∀ x ∈ pre, size x = 1) ∧ c = 1) ∧ EndsPages size limit rest := by
  have hpre := length_le_spreadKeys hsize
  constructor
  · intro h
    have hsingle : ∀ x ∈ pre, size x = 1 := by
      intro x hx
      obtain ⟨i, hi, hget⟩ := List.getElem_of_mem hx
      by_contra hne
      have hpos := hsize x hx
      have hdvd := h i x (by rw [List.getElem?_append_left hi, List.getElem?_eq_getElem hi, hget])
        (by omega)
      have := Nat.le_of_dvd (by omega) hdvd
      omega
    have hone : c = 1 := by
      by_contra hne
      have hdvd := h pre.length k (by simp) (by omega)
      have := Nat.le_of_dvd (by omega) hdvd
      rw [spreadKeys_of_single hsingle] at hlen
      omega
    refine ⟨⟨hsingle, hone⟩, ?_⟩
    intro i x hx htwo
    rw [spreadKeys_of_single hsingle] at hlen
    have hdvd := h (pre.length + 1 + i) x
      (by rw [List.getElem?_append_right (by omega), ← hx]; simp [Nat.add_assoc, Nat.add_comm 1]) htwo
    rw [show pre.length + 1 + i + 1 = limit + (i + 1) by omega] at hdvd
    exact (Nat.dvd_add_right (Nat.dvd_refl limit)).mp hdvd
  · rintro ⟨⟨hsingle, rfl⟩, hrest⟩ i x hx htwo
    rw [spreadKeys_of_single hsingle] at hlen
    rcases Nat.lt_trichotomy i pre.length with hlt | rfl | hgt
    · rw [List.getElem?_append_left hlt] at hx
      have := hsingle x (List.mem_of_getElem? hx)
      omega
    · exact hlen.symm ▸ Nat.dvd_refl limit
    · rw [List.getElem?_append_right (by omega),
        show i - pre.length = i - pre.length - 1 + 1 by omega, List.getElem?_cons_succ] at hx
      have hdvd := hrest _ x hx htwo
      rw [show i + 1 = limit + (i - pre.length - 1 + 1) by omega]
      exact (Nat.dvd_add_right (Nat.dvd_refl limit)).mpr hdvd

end Spread

section Grouped
variable {κ : Type} [LinearOrder κ] (size : κ → ℕ) (limit : ℕ)

/- The keys of the rows seen, one page an iteration; `none` if `fuel` pages are not enough. -/
def groupedScan : ℕ → List κ → Option (List κ)
  | 0, _ => none
  | fuel + 1, keys =>
    let page := (spreadKeys size keys).take limit
    if page.length < limit then some page
    else match page.getLast? with
      | none => some page
      | some last => (groupedScan fuel (keys.filter fun k => decide (last < k))).map (page ++ ·)

variable {size} {limit}

theorem filter_after {pre : List κ} {k : κ} {rest : List κ}
    (hsorted : (pre ++ k :: rest).Pairwise (· < ·)) :
    (pre ++ k :: rest).filter (fun x => decide (k < x)) = rest := by
  obtain ⟨-, hrest, hcross⟩ := List.pairwise_append.mp hsorted
  have hlater := (List.pairwise_cons.mp hrest).1
  have hpre : pre.filter (fun x => decide (k < x)) = [] := by
    rw [List.filter_eq_nil_iff]
    intro x hx
    simpa using (hcross x hx k (List.mem_cons_self ..)).le
  have htail : rest.filter (fun x => decide (k < x)) = rest := by
    rw [List.filter_eq_self]
    intro x hx
    simpa using hlater x hx
  rw [List.filter_append, hpre, List.filter_cons_of_neg (by simp), htail, List.nil_append]

theorem spreadKeys_sorted {keys : List κ} (hsorted : keys.Pairwise (· < ·)) :
    (spreadKeys size keys).Pairwise (· ≤ ·) := by
  induction keys with
  | nil => exact .nil
  | cons k keys ih =>
    obtain ⟨hhead, htail⟩ := List.pairwise_cons.mp hsorted
    rw [spreadKeys_cons, List.pairwise_append]
    refine ⟨?_, ih htail, ?_⟩
    · exact List.pairwise_replicate.mpr (.inr le_rfl)
    · intro x hx y hy
      obtain ⟨z, hz, hyz⟩ := List.mem_flatMap.mp hy
      rw [List.eq_of_mem_replicate hx, List.eq_of_mem_replicate hyz]
      exact (hhead z hz).le

/- One page: the last one, or a full one after which the scan goes on behind its last key. -/
theorem groupedScan_succ {keys : List κ} (hlimit : 0 < limit) (hsorted : keys.Pairwise (· < ·))
    (fuel : ℕ) :
    ((spreadKeys size keys).length < limit ∧ groupedScan size limit (fuel + 1) keys =
      some (spreadKeys size keys)) ∨
    ∃ pre k rest c, keys = pre ++ k :: rest ∧ 1 ≤ c ∧ c ≤ size k ∧
      (spreadKeys size pre).length + c = limit ∧
      groupedScan size limit (fuel + 1) keys =
        (groupedScan size limit fuel rest).map ((spreadKeys size pre ++ List.replicate c k) ++ ·) := by
  by_cases hfull : limit ≤ (spreadKeys size keys).length
  · obtain ⟨pre, k, rest, c, rfl, hc, hle, htake, hlen⟩ := take_spreadKeys hlimit hfull
    refine .inr ⟨pre, k, rest, c, rfl, hc, hle, hlen, ?_⟩
    have hpage : (spreadKeys size pre ++ List.replicate c k).length = limit := by
      rw [List.length_append, List.length_replicate, hlen]
    have hlast : (spreadKeys size pre ++ List.replicate c k).getLast? = some k := by
      rw [show c = c - 1 + 1 by omega, List.replicate_succ', ← List.append_assoc]
      exact List.getLast?_concat
    rw [groupedScan, htake]
    simp only [hpage, lt_irrefl, if_false, hlast, filter_after hsorted]
  · have hlt := not_le.mp hfull
    refine .inl ⟨hlt, ?_⟩
    rw [groupedScan, List.take_of_length_le hlt.le]
    simp only [hlt, if_true]

theorem groupedScan_ends {keys : List κ} (hlimit : 0 < limit) (hsorted : keys.Pairwise (· < ·))
    {fuel : ℕ} (hfuel : keys.length < fuel) : ∃ out, groupedScan size limit fuel keys = some out := by
  induction fuel generalizing keys with
  | zero => omega
  | succ fuel ih =>
    obtain ⟨-, hscan⟩ | ⟨pre, k, rest, c, rfl, -, -, -, hscan⟩ :=
      groupedScan_succ hlimit hsorted fuel
    · exact ⟨_, hscan⟩
    · have hrest := (List.pairwise_cons.mp (List.pairwise_append.mp hsorted).2.1).2
      simp only [List.length_append, List.length_cons] at hfuel
      obtain ⟨out, hout⟩ := ih hrest (by omega)
      exact ⟨_, by rw [hscan, hout]; rfl⟩

/- Every key is seen. -/
theorem length_le_groupedScan {keys out : List κ} {fuel : ℕ} (hlimit : 0 < limit)
    (hsorted : keys.Pairwise (· < ·)) (hsize : ∀ k ∈ keys, 1 ≤ size k)
    (h : groupedScan size limit fuel keys = some out) : keys.length ≤ out.length := by
  induction fuel generalizing keys out with
  | zero => cases h
  | succ fuel ih =>
    obtain ⟨-, hscan⟩ | ⟨pre, k, rest, c, rfl, hc, -, -, hscan⟩ :=
      groupedScan_succ hlimit hsorted fuel
    · rw [h] at hscan
      rw [Option.some.inj hscan]
      exact length_le_spreadKeys hsize
    · rw [h] at hscan
      obtain ⟨seen, hseen, rfl⟩ := Option.map_eq_some_iff.mp hscan.symm
      have hrest := (List.pairwise_cons.mp (List.pairwise_append.mp hsorted).2.1).2
      have htail := ih hrest (fun x hx => hsize x (by simp [hx])) hseen
      have hhead : pre.length ≤ (spreadKeys size pre).length :=
        length_le_spreadKeys fun x hx => hsize x (List.mem_append_left _ hx)
      simp only [List.length_append, List.length_cons, List.length_replicate]
      omega

/- Each key is seen once, in order, exactly when keys with several rows end pages. -/
theorem groupedScan_eq_iff {keys out : List κ} {fuel : ℕ} (hlimit : 0 < limit)
    (hsorted : keys.Pairwise (· < ·)) (hsize : ∀ k ∈ keys, 1 ≤ size k)
    (h : groupedScan size limit fuel keys = some out) : out = keys ↔ EndsPages size limit keys := by
  induction fuel generalizing keys out with
  | zero => cases h
  | succ fuel ih =>
    obtain ⟨hshort, hscan⟩ | ⟨pre, k, rest, c, rfl, hc, hle, hlen, hscan⟩ :=
      groupedScan_succ hlimit hsorted fuel
    · -- the last page shows every row that is left
      rw [h] at hscan
      rw [Option.some.inj hscan]
      have hcount := length_le_spreadKeys hsize
      constructor
      · intro heq i k hk htwo
        have := single_of_length hsize (by rw [heq]) k (List.mem_of_getElem? hk)
        omega
      · intro hends
        refine spreadKeys_of_single fun k hk => ?_
        obtain ⟨i, hi, hget⟩ := List.getElem_of_mem hk
        have hpos := hsize k hk
        by_contra hne
        have hdvd := hends i k (by rw [List.getElem?_eq_getElem hi, hget]) (by omega)
        have := Nat.le_of_dvd (by omega) hdvd
        omega
    · rw [h] at hscan
      obtain ⟨seen, hseen, rfl⟩ := Option.map_eq_some_iff.mp hscan.symm
      have hrest := (List.pairwise_cons.mp (List.pairwise_append.mp hsorted).2.1).2
      have hsizePre : ∀ x ∈ pre, 1 ≤ size x := fun x hx => hsize x (List.mem_append_left _ hx)
      have hsizeRest : ∀ x ∈ rest, 1 ≤ size x := fun x hx => hsize x (by simp [hx])
      rw [endsPages_append_iff hsizePre hc hle hlen, ← ih hrest hsizeRest hseen]
      have hlePre := length_le_spreadKeys hsizePre
      have hleRest := length_le_groupedScan hlimit hrest hsizeRest hseen
      constructor
      · intro heq
        have hcount := congrArg List.length heq
        simp only [List.length_append, List.length_cons, List.length_replicate] at hcount
        have hsingle := single_of_length hsizePre (by omega)
        rw [spreadKeys_of_single hsingle] at heq hcount
        have hone : c = 1 := by omega
        subst hone
        refine ⟨⟨hsingle, rfl⟩, ?_⟩
        simpa using heq
      · rintro ⟨⟨hsingle, rfl⟩, rfl⟩
        rw [spreadKeys_of_single hsingle]
        simp

end Grouped

end Liquifact.Lib
