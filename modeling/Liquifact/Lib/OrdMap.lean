import Mathlib.Algebra.BigOperators.Group.List.Basic
import Mathlib.Tactic.Common

/-!
# Insertion-ordered maps with unique keys

One container for the two keyed stores a service program has: the ECMAScript
`Map` (`set` keeps the place of a present key and appends a new one, iteration
follows that order) and a SQL table under its primary key. Unique keys are a
field, so a store with a doubled key cannot be built.
-/

namespace Liquifact.Lib

structure OrdMap (κ α : Type) where
  entries : List (κ × α)
  nodup : (entries.map Prod.fst).Nodup

namespace OrdMap

variable {κ α : Type} [DecidableEq κ]

/-! ### Association lists -/

def lookupL (k : κ) : List (κ × α) → Option α
  | [] => none
  | e :: es => if e.1 = k then some e.2 else lookupL k es

def setL (k : κ) (v : α) : List (κ × α) → List (κ × α)
  | [] => [(k, v)]
  | e :: es => if e.1 = k then (k, v) :: es else e :: setL k v es

def eraseL (k : κ) (es : List (κ × α)) : List (κ × α) := es.filter fun e => e.1 ≠ k

theorem mem_of_lookupL (k : κ) (v : α) (es : List (κ × α)) (h : lookupL k es = some v) :
    (k, v) ∈ es := by
  induction es with
  | nil => cases h
  | cons e es ih =>
    simp only [lookupL] at h
    by_cases he : e.1 = k
    · rw [if_pos he] at h
      cases h
      rw [← he]
      exact List.mem_cons_self ..
    · rw [if_neg he] at h
      exact List.mem_cons_of_mem _ (ih h)

theorem lookupL_of_mem (k : κ) (v : α) (es : List (κ × α))
    (hn : (es.map Prod.fst).Nodup) (h : (k, v) ∈ es) : lookupL k es = some v := by
  induction es with
  | nil => cases h
  | cons e es ih =>
    simp only [List.map_cons, List.nodup_cons] at hn
    simp only [lookupL]
    rcases List.mem_cons.mp h with he | he
    · rw [← he, if_pos rfl]
    · have hne : e.1 ≠ k := by
        intro hk
        exact hn.1 (hk ▸ List.mem_map_of_mem (f := Prod.fst) he)
      rw [if_neg hne]
      exact ih hn.2 he

theorem setL_keys_of_mem (k : κ) (v : α) (es : List (κ × α)) (h : k ∈ es.map Prod.fst) :
    (setL k v es).map Prod.fst = es.map Prod.fst := by
  induction es with
  | nil => simp at h
  | cons e es ih =>
    simp only [setL]
    by_cases he : e.1 = k
    · simp [he]
    · have ht : k ∈ es.map Prod.fst := by
        simp only [List.map_cons, List.mem_cons] at h
        exact h.resolve_left fun hk => he hk.symm
      rw [if_neg he]
      simp only [List.map_cons, ih ht]

theorem setL_of_not_mem (k : κ) (v : α) (es : List (κ × α)) (h : k ∉ es.map Prod.fst) :
    setL k v es = es ++ [(k, v)] := by
  induction es with
  | nil => rfl
  | cons e es ih =>
    simp only [List.map_cons, List.mem_cons, not_or] at h
    simp only [setL, if_neg (Ne.symm h.1), ih h.2, List.cons_append]

theorem mem_setL {k : κ} {v : α} {es : List (κ × α)} {e : κ × α} (h : e ∈ setL k v es) :
    e = (k, v) ∨ e ∈ es := by
  induction es with
  | nil => exact .inl (List.mem_singleton.mp h)
  | cons f es ih =>
    simp only [setL] at h
    split at h
    · exact (List.mem_cons.mp h).imp id (List.mem_cons_of_mem f)
    · rcases List.mem_cons.mp h with rfl | h
      · exact .inr List.mem_cons_self
      · exact (ih h).imp id (List.mem_cons_of_mem f)

theorem setL_nodup (k : κ) (v : α) (es : List (κ × α)) (h : (es.map Prod.fst).Nodup) :
    ((setL k v es).map Prod.fst).Nodup := by
  by_cases hk : k ∈ es.map Prod.fst
  · rw [setL_keys_of_mem k v es hk]
    exact h
  · rw [setL_of_not_mem k v es hk, List.map_append]
    exact List.nodup_append.mpr ⟨h, by simp, by
      intro a ha b hb
      simp only [List.map_cons, List.map_nil, List.mem_singleton] at hb
      intro hab
      exact hk (hb ▸ hab ▸ ha)⟩

theorem lookupL_setL (k j : κ) (v : α) (es : List (κ × α)) :
    lookupL j (setL k v es) = if k = j then some v else lookupL j es := by
  induction es with
  | nil => rfl
  | cons e es ih =>
    simp only [setL]
    by_cases he : e.1 = k
    · rw [if_pos he]
      simp only [lookupL, he]
      by_cases hk : k = j <;> simp [hk]
    · rw [if_neg he]
      simp only [lookupL, ih]
      by_cases hj : e.1 = j
      · have hk : k ≠ j := fun hk => he (hj.trans hk.symm)
        simp [hj, hk]
      · simp [hj]

theorem eraseL_nodup (k : κ) (es : List (κ × α)) (h : (es.map Prod.fst).Nodup) :
    ((eraseL k es).map Prod.fst).Nodup :=
  List.Nodup.sublist (List.Sublist.map Prod.fst List.filter_sublist) h

theorem lookupL_eraseL (k j : κ) (es : List (κ × α)) :
    lookupL j (eraseL k es) = if k = j then none else lookupL j es := by
  induction es with
  | nil => simp [eraseL, lookupL]
  | cons e es ih =>
    simp only [eraseL] at ih
    simp only [eraseL, List.filter_cons]
    by_cases he : e.1 = k
    · simp only [he, ne_eq, not_true_eq_false, decide_false, Bool.false_eq_true, if_false, ih,
        lookupL]
      by_cases hk : k = j <;> simp [hk]
    · simp only [he, ne_eq, not_false_eq_true, decide_true, if_true, lookupL, ih]
      by_cases hj : e.1 = j
      · have hk : k ≠ j := fun hk => he (hj.trans hk.symm)
        simp [hj, hk]
      · simp [hj]

/-! ### The map and its operations -/

def empty : OrdMap κ α := ⟨[], List.nodup_nil⟩

def get (m : OrdMap κ α) (k : κ) : Option α := lookupL k m.entries

def has (m : OrdMap κ α) (k : κ) : Bool := (m.get k).isSome

def set (m : OrdMap κ α) (k : κ) (v : α) : OrdMap κ α :=
  ⟨setL k v m.entries, setL_nodup k v m.entries m.nodup⟩

def delete (m : OrdMap κ α) (k : κ) : OrdMap κ α :=
  ⟨eraseL k m.entries, eraseL_nodup k m.entries m.nodup⟩

/- Rewrite the value under `k`, if there is one (a keyed SQL `UPDATE`). -/
def modify (m : OrdMap κ α) (k : κ) (f : α → α) : OrdMap κ α :=
  match m.get k with
  | none => m
  | some v => m.set k (f v)

/- A SQL `DELETE … WHERE`. -/
def removeWhere (m : OrdMap κ α) (p : α → Bool) : OrdMap κ α :=
  ⟨m.entries.filter fun e => !p e.2, m.nodup.sublist (List.filter_sublist.map Prod.fst)⟩

def size (m : OrdMap κ α) : ℕ := m.entries.length

def values (m : OrdMap κ α) : List α := m.entries.map Prod.snd

theorem get_set (m : OrdMap κ α) (k j : κ) (v : α) :
    (m.set k v).get j = if k = j then some v else m.get j :=
  lookupL_setL k j v m.entries

@[simp] theorem get_set_self (m : OrdMap κ α) (k : κ) (v : α) : (m.set k v).get k = some v := by
  rw [get_set, if_pos rfl]

theorem get_set_of_ne (m : OrdMap κ α) {k j : κ} (v : α) (h : k ≠ j) :
    (m.set k v).get j = m.get j := by
  rw [get_set, if_neg h]

theorem keys_set (m : OrdMap κ α) (k : κ) (v : α) :
    (m.set k v).entries.map Prod.fst =
      if k ∈ m.entries.map Prod.fst then m.entries.map Prod.fst
      else m.entries.map Prod.fst ++ [k] := by
  by_cases hk : k ∈ m.entries.map Prod.fst
  · rw [if_pos hk]
    exact setL_keys_of_mem k v m.entries hk
  · have hset : (m.set k v).entries = m.entries ++ [(k, v)] := setL_of_not_mem k v m.entries hk
    rw [if_neg hk, hset, List.map_append]
    rfl

theorem get_delete (m : OrdMap κ α) (k j : κ) :
    (m.delete k).get j = if k = j then none else m.get j :=
  lookupL_eraseL k j m.entries

theorem get_modify (m : OrdMap κ α) (k j : κ) (f : α → α) :
    (m.modify k f).get j = if k = j then (m.get j).map f else m.get j := by
  unfold modify
  by_cases hk : k = j
  · subst hk
    cases hv : m.get k with
    | none => simp [hv]
    | some v => simp
  · cases hv : m.get k with
    | none => simp [hk]
    | some v => simp [get_set, hk]

theorem mem_entries_iff (m : OrdMap κ α) (k : κ) (v : α) :
    (k, v) ∈ m.entries ↔ m.get k = some v :=
  ⟨fun h => lookupL_of_mem k v m.entries m.nodup h, fun h => mem_of_lookupL k v m.entries h⟩

theorem get_removeWhere (m : OrdMap κ α) (p : α → Bool) (k : κ) (v : α) :
    (m.removeWhere p).get k = some v ↔ m.get k = some v ∧ p v = false := by
  rw [← mem_entries_iff, ← mem_entries_iff]
  simp [removeWhere]

theorem mem_values_iff (m : OrdMap κ α) (v : α) : v ∈ m.values ↔ ∃ k, m.get k = some v := by
  simp only [values, List.mem_map, Prod.exists, exists_eq_right]
  exact ⟨fun ⟨k, h⟩ => ⟨k, (mem_entries_iff m k v).mp h⟩,
    fun ⟨k, h⟩ => ⟨k, (mem_entries_iff m k v).mpr h⟩⟩

theorem values_eq_filterMap (m : OrdMap κ α) :
    m.values = (m.entries.map Prod.fst).filterMap m.get := by
  have hget : ∀ e ∈ m.entries, m.get e.1 = some e.2 := fun e he => (mem_entries_iff m e.1 e.2).mp he
  rw [values, List.filterMap_map, ← List.filterMap_eq_map]
  exact (List.filterMap_congr fun e he => (hget e he).trans rfl).symm

/-! ### Renamed keys -/

section Rename
variable {κ' : Type} [DecidableEq κ'] (f : κ → κ')

/- The same entries under other keys. -/
def renameL (es : List (κ × α)) : List (κ' × α) := es.map fun e => (f e.1, e.2)

variable {f} {k : κ} {es : List (κ × α)}

theorem lookupL_renameL (hf : ∀ e ∈ es, f e.1 = f k → e.1 = k) :
    lookupL (f k) (renameL f es) = lookupL k es := by
  induction es with
  | nil => rfl
  | cons e es ih =>
    have hrest := ih fun e' he' => hf e' (List.mem_cons_of_mem e he')
    have hhead : f e.1 = f k ↔ e.1 = k := ⟨hf e List.mem_cons_self, congrArg f⟩
    simp only [renameL, List.map_cons, lookupL, hhead]
    rw [← hrest]
    rfl

theorem setL_renameL (v : α) (hf : ∀ e ∈ es, f e.1 = f k → e.1 = k) :
    setL (f k) v (renameL f es) = renameL f (setL k v es) := by
  induction es with
  | nil => rfl
  | cons e es ih =>
    have hrest := ih fun e' he' => hf e' (List.mem_cons_of_mem e he')
    have hhead : f e.1 = f k ↔ e.1 = k := ⟨hf e List.mem_cons_self, congrArg f⟩
    simp only [renameL, List.map_cons, setL, hhead]
    by_cases he : e.1 = k
    · simp [he]
    · simp only [if_neg he, List.map_cons]
      exact congrArg _ hrest

end Rename

/-! ### Totals over the stored values -/

section Total
variable {M : Type} [AddCommMonoid M]

def total (f : α → M) (m : OrdMap κ α) : M := (m.values.map f).sum

theorem sum_setL (f : α → M) (k : κ) (v : α) (es : List (κ × α)) :
    (((setL k v es).map Prod.snd).map f).sum + ((lookupL k es).map f).getD 0 =
      ((es.map Prod.snd).map f).sum + f v := by
  induction es with
  | nil => simp [setL, lookupL, add_comm]
  | cons e es ih =>
    simp only [setL, lookupL]
    by_cases he : e.1 = k
    · simp only [if_pos he, List.map_cons, List.sum_cons, Option.map_some, Option.getD_some]
      rw [add_comm (f v), add_assoc, add_comm (f v), ← add_assoc, add_comm (f e.2)]
    · simp only [if_neg he, List.map_cons, List.sum_cons, add_assoc, ih]

/- Writing `v` under `k` exchanges the old value's share for the new one's. -/
theorem total_set (f : α → M) (m : OrdMap κ α) (k : κ) (v : α) :
    total f (m.set k v) + ((m.get k).map f).getD 0 = total f m + f v :=
  sum_setL f k v m.entries

end Total

end OrdMap

end Liquifact.Lib
