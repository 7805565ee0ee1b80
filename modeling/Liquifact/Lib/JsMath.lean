import Liquifact.Lib.JsNumber
import Mathlib.Data.List.Perm.Subperm

/-!
# `Math.min` and `Math.max`

Bounds of a minimum and of a maximum are bounds of the arguments; with a `NaN` among them there
is none. A loop that counts up to a minimum goes round as often as whole numbers are below it.
-/

namespace Liquifact.Lib.JsNumber

/- To be below a minimum is to be below both; with `NaN` neither holds. -/
theorem le_min_iff {x y z : JsNumber} :
    le x (min y z) = true ↔ le x y = true ∧ le x z = true := by
  unfold min
  split
  · next hnan =>
    refine iff_of_false (by rw [le_iff]; exact fun h => h.2.1 rfl) ?_
    rintro ⟨hy, hz⟩
    rcases hnan with h | h
    · exact ne_nan_of_le hy h
    · exact ne_nan_of_le hz h
  · next hnan =>
    rw [not_or] at hnan
    split
    · next hyz => exact ⟨fun h => ⟨h, le_trans h hyz⟩, And.left⟩
    · next hyz =>
      rw [Bool.not_eq_true] at hyz
      have hzy := lt_iff.mp (lt_of_not_le hnan.1 hnan.2 hyz)
      exact ⟨fun h => ⟨le_trans h (le_iff.mpr ⟨hzy.1, hzy.2.1, hzy.2.2.le⟩), h⟩, And.right⟩

theorem lt_min_iff {x y z : JsNumber} :
    lt x (min y z) = true ↔ lt x y = true ∧ lt x z = true := by
  constructor
  · intro h
    have hne := (lt_iff.mp h).2.1
    obtain ⟨hy, hz⟩ := le_min_iff.mp (le_iff.mpr ⟨hne, hne, le_rfl⟩)
    exact ⟨lt_of_lt_of_le h hy, lt_of_lt_of_le h hz⟩
  · rintro ⟨hy, hz⟩
    unfold min
    rw [if_neg (by simp [(lt_iff.mp hy).2.1, (lt_iff.mp hz).2.1])]
    split
    · exact hy
    · exact hz

theorem max_le_iff {x y z : JsNumber} :
    le (max x y) z = true ↔ le x z = true ∧ le y z = true := by
  unfold max
  split
  · next hnan =>
    refine iff_of_false (by rw [le_iff]; exact fun h => h.1 rfl) ?_
    rintro ⟨hx, hy⟩
    rcases hnan with h | h
    · exact (le_iff.mp hx).1 h
    · exact (le_iff.mp hy).1 h
  · next hnan =>
    rw [not_or] at hnan
    split
    · next hxy => exact ⟨fun h => ⟨le_trans hxy h, h⟩, And.right⟩
    · next hxy =>
      rw [Bool.not_eq_true] at hxy
      have hyx := lt_iff.mp (lt_of_not_le hnan.1 hnan.2 hxy)
      exact ⟨fun h => ⟨h, le_trans (le_iff.mpr ⟨hyx.1, hyx.2.1, hyx.2.2.le⟩) h⟩, And.left⟩

theorem le_refl {x : JsNumber} (h : x ≠ nan) : le x x = true := le_iff.mpr ⟨h, h, le_rfl⟩

theorem min_ne_nan_iff {x y : JsNumber} : min x y ≠ nan ↔ x ≠ nan ∧ y ≠ nan := by
  unfold min
  split
  · next h => simpa using fun hx => h.resolve_left hx
  · next h =>
    rw [not_or] at h
    split <;> simp [h]

theorem max_ne_nan_iff {x y : JsNumber} : max x y ≠ nan ↔ x ≠ nan ∧ y ≠ nan := by
  unfold max
  split
  · next h => simpa using fun hx => h.resolve_left hx
  · next h =>
    rw [not_or] at h
    split <;> simp [h]

theorem min_le_iff {x y z : JsNumber} :
    le (min x y) z = true ↔ min x y ≠ nan ∧ (le x z = true ∨ le y z = true) := by
  constructor
  · intro h
    refine ⟨(le_iff.mp h).1, ?_⟩
    have hne := min_ne_nan_iff.mp (le_iff.mp h).1
    unfold min at h
    rw [if_neg (by simp [hne])] at h
    split at h
    · exact .inl h
    · exact .inr h
  · rintro ⟨hne, h⟩
    obtain ⟨hx, hy⟩ := le_min_iff.mp (le_refl hne)
    rcases h with h | h
    · exact le_trans hx h
    · exact le_trans hy h

theorem le_max_left {x y : JsNumber} : le x (max x y) = true ↔ max x y ≠ nan :=
  ⟨fun h => (le_iff.mp h).2.1, fun hne => (max_le_iff.mp (le_refl hne)).1⟩

/- How often `for (let i = 0; i < Math.min(limit, n); i++)` goes round. -/
def rounds (limit : JsNumber) (n : ℕ) : ℕ :=
  (List.range n).countP fun i => (ofNat i).lt (limit.min (ofNat n))

theorem rounds_pos {limit : JsNumber} (h : (ofNat 1).le limit = true) {n : ℕ} (hn : 0 < n) :
    0 < limit.rounds n := by
  refine List.countP_pos_iff.mpr ⟨0, List.mem_range.mpr hn, ?_⟩
  have hone : (ofNat 0).lt (ofNat 1) = true := by
    rw [lt_ofNat]
    rfl
  refine lt_min_iff.mpr ⟨lt_of_lt_of_le hone h, ?_⟩
  rw [lt_ofNat]
  exact decide_eq_true hn

theorem rounds_le_self (limit : JsNumber) (n : ℕ) : limit.rounds n ≤ n := by
  have hle : limit.rounds n ≤ (List.range n).length := List.countP_le_length
  rwa [List.length_range] at hle

theorem rounds_le {limit : JsNumber} {m : ℕ} (h : limit.le (ofNat m) = true) (n : ℕ) :
    limit.rounds n ≤ m := by
  rw [rounds, List.countP_eq_length_filter]
  have hsub : (List.range n).filter (fun i => (ofNat i).lt (limit.min (ofNat n))) ⊆ List.range m := by
    intro i hi
    have hlt := lt_of_lt_of_le (lt_min_iff.mp (List.mem_filter.mp hi).2).1 h
    rw [lt_ofNat] at hlt
    exact List.mem_range.mpr (of_decide_eq_true hlt)
  have hlength := (List.subperm_of_subset (List.nodup_range.filter _) hsub).length_le
  rwa [List.length_range] at hlength

/- A limit that is no whole number is rounded up. -/
theorem lt_rounds {q : ℚ} {n : ℕ} (hpos : 0 ≤ q) (hfraction : ∀ m : ℕ, q ≠ m) (hn : q < n) :
    (fin q).lt (ofNat ((fin q).rounds n)) = true := by
  have hfloor : (⌊q⌋₊ : ℚ) < q := lt_of_le_of_ne (Nat.floor_le hpos) (hfraction _).symm
  have hsub : List.range (⌊q⌋₊ + 1) ⊆ (List.range n).filter fun i => (ofNat i).lt ((fin q).min (ofNat n)) := by
    intro i hi
    have hi' : (i : ℚ) ≤ ⌊q⌋₊ := by exact_mod_cast Nat.lt_succ_iff.mp (List.mem_range.mp hi)
    have hiq : (i : ℚ) < q := hi'.trans_lt hfloor
    have hin : i < n := by exact_mod_cast hiq.trans hn
    refine List.mem_filter.mpr ⟨List.mem_range.mpr hin, lt_min_iff.mpr ⟨?_, ?_⟩⟩
    · rw [ofNat, lt_fin]
      exact decide_eq_true hiq
    · rw [lt_ofNat]
      exact decide_eq_true hin
  have hlength := (List.subperm_of_subset List.nodup_range hsub).length_le
  rw [List.length_range, ← List.countP_eq_length_filter, ← rounds] at hlength
  have habove : (fin q).lt (ofNat (⌊q⌋₊ + 1)) = true := by
    rw [ofNat, lt_fin]
    exact decide_eq_true (by exact_mod_cast Nat.lt_floor_add_one q)
  exact lt_of_lt_of_le habove (le_ofNat hlength)

end Liquifact.Lib.JsNumber
