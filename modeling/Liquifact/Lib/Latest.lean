import Mathlib.Data.List.Induction
import Mathlib.Order.Lattice
import Mathlib.Tactic.Common

/-!
# Keeping the greatest element seen

A register that is overwritten only by an element with a greater key. After any
sequence it holds an element with the greatest key, so the order of the sequence
matters only between elements that share a key.
-/

namespace Liquifact.Lib

section Latest
variable {α κ : Type} [LinearOrder κ] (key : α → κ)

def keepGreatest (current : Option α) (a : α) : Option α :=
  match current with
  | none => some a
  | some c => if key c < key a then some a else some c

def latest (as : List α) : Option α := as.foldl (keepGreatest key) none

def IsLatest (as : List α) (c : α) : Prop := c ∈ as ∧ ∀ a ∈ as, key a ≤ key c

theorem IsLatest.append {as : List α} {a c : α} (h : IsLatest key as c) (ha : key a ≤ key c) :
    IsLatest key (as ++ [a]) c := by
  refine ⟨List.mem_append_left _ h.1, ?_⟩
  intro b hb
  rcases List.mem_append.mp hb with hb | hb
  · exact h.2 b hb
  · rw [List.mem_singleton.mp hb]
    exact ha

theorem isLatest_append_self {as : List α} {a : α} (h : ∀ b ∈ as, key b ≤ key a) :
    IsLatest key (as ++ [a]) a := by
  refine ⟨List.mem_append_right _ (List.mem_singleton_self a), ?_⟩
  intro b hb
  rcases List.mem_append.mp hb with hb | hb
  · exact h b hb
  · rw [List.mem_singleton.mp hb]

theorem latest_append (as : List α) (a : α) :
    latest key (as ++ [a]) = keepGreatest key (latest key as) a := by
  simp [latest, List.foldl_append]

theorem latest_eq_none {as : List α} : latest key as = none ↔ as = [] := by
  induction as using List.reverseRecOn with
  | nil => simp [latest]
  | append_singleton as a _ =>
    rw [latest_append]
    cases hc : latest key as with
    | none => simp [keepGreatest]
    | some c =>
      simp only [keepGreatest]
      split <;> simp

theorem isLatest_of_latest {as : List α} {c : α} (h : latest key as = some c) :
    IsLatest key as c := by
  induction as using List.reverseRecOn generalizing c with
  | nil => cases h
  | append_singleton as a ih =>
    rw [latest_append] at h
    cases hb : latest key as with
    | none =>
      rw [hb] at h
      cases h
      rw [(latest_eq_none key).mp hb]
      refine ⟨List.mem_singleton_self _, ?_⟩
      intro b hmem
      rw [List.mem_singleton.mp hmem]
    | some b =>
      obtain ⟨hbmem, hbmax⟩ := ih hb
      rw [hb] at h
      simp only [keepGreatest] at h
      split at h
      · rename_i hlt
        cases h
        refine ⟨List.mem_append_right _ (List.mem_singleton_self _), ?_⟩
        intro d hd
        rcases List.mem_append.mp hd with hd | hd
        · exact (hbmax d hd).trans hlt.le
        · rw [List.mem_singleton.mp hd]
      · rename_i hge
        cases h
        refine ⟨List.mem_append_left _ hbmem, ?_⟩
        intro d hd
        rcases List.mem_append.mp hd with hd | hd
        · exact hbmax d hd
        · rw [List.mem_singleton.mp hd]
          exact not_lt.mp hge

/- With distinct keys the register depends on the set of elements only. -/
theorem latest_eq_of_mem_iff {as bs : List α} (hmem : ∀ a, a ∈ as ↔ a ∈ bs)
    (hkey : ∀ a ∈ as, ∀ b ∈ as, key a = key b → a = b) : latest key as = latest key bs := by
  cases ha : latest key as with
  | none =>
    rw [(latest_eq_none key).mp ha] at hmem
    refine ((latest_eq_none key).mpr ?_).symm
    exact List.eq_nil_iff_forall_not_mem.mpr fun b hb => List.not_mem_nil ((hmem b).mpr hb)
  | some a =>
    obtain ⟨haas, hamax⟩ := isLatest_of_latest key ha
    cases hb : latest key bs with
    | none =>
      rw [(latest_eq_none key).mp hb] at hmem
      exact absurd ((hmem a).mp haas) List.not_mem_nil
    | some b =>
      obtain ⟨hbbs, hbmax⟩ := isLatest_of_latest key hb
      have hbas : b ∈ as := (hmem b).mpr hbbs
      have hle : key a = key b := le_antisymm (hbmax a ((hmem a).mp haas)) (hamax b hbas)
      rw [hkey a haas b hbas hle]

end Latest

end Liquifact.Lib
