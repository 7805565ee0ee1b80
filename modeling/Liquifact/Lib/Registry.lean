import Liquifact.Lib.Run
import Mathlib.Data.List.Dedup

/-!
# Registers that keep the first record of a key

A record is appended unless the register has one under its key. After any run the keys
are distinct and are those of the records offered, so the register has as many records as
were offered exactly when no key was offered twice.
-/

namespace Liquifact.Lib

section Registry
variable {ρ κ : Type} [DecidableEq κ] (key : ρ → κ)

def register (t : List ρ) (r : ρ) : List ρ :=
  if key r ∈ t.map key then t else t ++ [r]

theorem mem_keys_register (t : List ρ) (r : ρ) (k : κ) :
    k ∈ (register key t r).map key ↔ k ∈ t.map key ∨ k = key r := by
  unfold register
  split
  · rename_i h
    constructor
    · exact .inl
    · intro hk
      rcases hk with hk | hk
      · exact hk
      · rw [hk]
        exact h
  · rw [List.map_append, List.mem_append, List.map_singleton, List.mem_singleton]

theorem register_keys_nodup {t : List ρ} (h : (t.map key).Nodup) (r : ρ) :
    ((register key t r).map key).Nodup := by
  unfold register
  split
  · exact h
  · rename_i hnew
    rw [List.map_append, List.map_singleton]
    exact List.nodup_append.mpr ⟨h, List.nodup_singleton _, fun a ha b hb => by
      rw [List.mem_singleton.mp hb]
      exact fun heq => hnew (heq ▸ ha)⟩

theorem mem_keys_run_register (rs t : List ρ) (k : κ) :
    k ∈ (run (register key) t rs).map key ↔ k ∈ t.map key ∨ k ∈ rs.map key := by
  induction rs generalizing t with
  | nil => simp [run]
  | cons r rs ih =>
    rw [run_cons, ih, mem_keys_register, List.map_cons, List.mem_cons, or_assoc]

theorem run_register_keys_nodup (rs : List ρ) {t : List ρ} (h : (t.map key).Nodup) :
    ((run (register key) t rs).map key).Nodup := by
  induction rs generalizing t with
  | nil => exact h
  | cons r rs ih => exact ih (register_keys_nodup key h r)

theorem run_register_keys_perm (rs : List ρ) :
    ((run (register key) [] rs).map key).Perm (rs.map key).dedup := by
  refine (List.perm_ext_iff_of_nodup
    (run_register_keys_nodup key rs (t := []) List.nodup_nil) (List.nodup_dedup _)).mpr fun k => ?_
  rw [mem_keys_run_register, List.mem_dedup, List.map_nil, List.mem_nil_iff, false_or]

theorem length_run_register_iff (rs : List ρ) :
    (run (register key) [] rs).length = rs.length ↔ (rs.map key).Nodup := by
  have hlen := (run_register_keys_perm key rs).length_eq
  rw [List.length_map] at hlen
  rw [hlen, ← List.length_map (f := key)]
  constructor
  · intro h
    rw [← (List.dedup_sublist (rs.map key)).eq_of_length h]
    exact List.nodup_dedup _
  · intro h
    rw [h.dedup]

/- Records with distinct keys are all kept. -/
theorem run_register_of_nodup {rs t : List ρ} (hnodup : (rs.map key).Nodup)
    (hnew : ∀ r ∈ rs, key r ∉ t.map key) : run (register key) t rs = t ++ rs := by
  induction rs generalizing t with
  | nil => simp [run]
  | cons r rs ih =>
    rw [List.map_cons, List.nodup_cons] at hnodup
    have hr : register key t r = t ++ [r] := if_neg (hnew r (List.mem_cons_self ..))
    have hrest : ∀ s ∈ rs, key s ∉ (t ++ [r]).map key := by
      intro s hs hmem
      rw [List.map_append, List.mem_append, List.map_singleton, List.mem_singleton] at hmem
      rcases hmem with hmem | heq
      · exact hnew s (List.mem_cons_of_mem _ hs) hmem
      · exact hnodup.1 (heq ▸ List.mem_map_of_mem hs)
    rw [run_cons, hr, ih hnodup.2 hrest, List.append_assoc, List.singleton_append]

end Registry

/- A unique index on a nullable column: one row has a given value. -/
theorem filter_eq_singleton_of_unique {ρ κ : Type} [DecidableEq κ] (key : ρ → Option κ) {t : List ρ}
    {r : ρ} {k : κ} (hunique : (t.filterMap key).Nodup) (hr : r ∈ t) (hk : key r = some k) :
    t.filter (fun row => key row = some k) = [r] := by
  induction t with
  | nil => cases hr
  | cons row t ih =>
    have hrest : (t.filterMap key).Nodup :=
      hunique.sublist ((List.sublist_cons_self row t).filterMap key)
    by_cases hrow : key row = some k
    · -- the head has the value, so no row of the tail has it
      rw [List.filterMap_cons_some hrow, List.nodup_cons] at hunique
      have hnone : t.filter (fun row => key row = some k) = [] := by
        rw [List.filter_eq_nil_iff]
        intro other hother hsame
        exact hunique.1 (List.mem_filterMap.mpr ⟨other, hother, of_decide_eq_true hsame⟩)
      have hhead : r = row := by
        rcases List.mem_cons.mp hr with heq | hmem
        · exact heq
        · exact absurd (List.mem_filterMap.mpr ⟨r, hmem, hk⟩) hunique.1
      rw [List.filter_cons_of_pos (by simpa using hrow), hnone, hhead]
    · have hmem : r ∈ t := by
        rcases List.mem_cons.mp hr with heq | hmem
        · exact absurd (heq ▸ hk) hrow
        · exact hmem
      rw [List.filter_cons_of_neg (by simpa using hrow)]
      exact ih hrest hmem

end Liquifact.Lib
