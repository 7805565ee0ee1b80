import Liquifact.Lib.OrdMap
import Mathlib.Data.List.Nodup

/-!
# Least-recently-used maps

An insertion-ordered map from which an entry is deleted and inserted again whenever it is
used keeps its keys in the order of their last use; a bound is kept by deleting from the
front. `ByAge` says that a list of keys is in this order, where the age of a key is the
number of events since the last one that used it. Journals are newest first.
-/

namespace Liquifact.Lib

namespace OrdMap

variable {κ α : Type} [DecidableEq κ]

def keys (m : OrdMap κ α) : List κ := m.entries.map Prod.fst

/- `m.delete(k); m.set(k, v)`: the key goes to the end. -/
def reinsert (m : OrdMap κ α) (k : κ) (v : α) : OrdMap κ α := (m.delete k).set k v

theorem mem_keys_iff (m : OrdMap κ α) (k : κ) : k ∈ m.keys ↔ m.has k = true := by
  rw [has, Option.isSome_iff_exists]
  constructor
  · intro h
    obtain ⟨e, he, hk⟩ := List.mem_map.mp h
    exact ⟨e.2, (mem_entries_iff m k e.2).mp (hk ▸ he)⟩
  · rintro ⟨v, hv⟩
    exact List.mem_map_of_mem (f := Prod.fst) ((mem_entries_iff m k v).mpr hv)

theorem eraseL_of_not_mem (k : κ) (es : List (κ × α)) (h : k ∉ es.map Prod.fst) :
    eraseL k es = es := by
  apply List.filter_eq_self.mpr
  intro e he
  have hne : e.1 ≠ k := fun hk => h (hk ▸ List.mem_map_of_mem (f := Prod.fst) he)
  simpa using hne

theorem not_mem_eraseL (k : κ) (es : List (κ × α)) : k ∉ (eraseL k es).map Prod.fst := by
  intro h
  obtain ⟨e, he, hk⟩ := List.mem_map.mp h
  have hne := (List.mem_filter.mp he).2
  simp [hk] at hne

theorem entries_reinsert (m : OrdMap κ α) (k : κ) (v : α) :
    (m.reinsert k v).entries = eraseL k m.entries ++ [(k, v)] :=
  setL_of_not_mem k v (eraseL k m.entries) (not_mem_eraseL k m.entries)

theorem keys_reinsert (m : OrdMap κ α) (k : κ) (v : α) :
    (m.reinsert k v).keys = (m.delete k).keys ++ [k] := by
  rw [keys, entries_reinsert, List.map_append]
  rfl

theorem get_reinsert (m : OrdMap κ α) (k j : κ) (v : α) :
    (m.reinsert k v).get j = if k = j then some v else m.get j := by
  rw [reinsert, get_set]
  by_cases h : k = j
  · rw [if_pos h, if_pos h]
  · rw [if_neg h, if_neg h, get_delete, if_neg h]

theorem keys_delete_sublist (m : OrdMap κ α) (k : κ) : (m.delete k).keys.Sublist m.keys :=
  List.Sublist.map Prod.fst List.filter_sublist

theorem not_mem_keys_delete (m : OrdMap κ α) (k : κ) : k ∉ (m.delete k).keys :=
  not_mem_eraseL k m.entries

theorem delete_of_not_has (m : OrdMap κ α) (k : κ) (h : m.has k = false) : m.delete k = m := by
  have hk : k ∉ m.entries.map Prod.fst := by
    intro hmem
    have := (mem_keys_iff m k).mp hmem
    rw [h] at this
    cases this
  obtain ⟨es, hn⟩ := m
  simp only [delete, OrdMap.mk.injEq]
  exact eraseL_of_not_mem k es hk

theorem size_delete_le (m : OrdMap κ α) (k : κ) : (m.delete k).size ≤ m.size :=
  List.length_filter_le ..

theorem size_delete_lt (m : OrdMap κ α) (k : κ) (h : m.has k = true) :
    (m.delete k).size < m.size := by
  obtain ⟨v, hv⟩ := Option.isSome_iff_exists.mp h
  have hmem := (mem_entries_iff m k v).mpr hv
  apply List.length_filter_lt_length_iff_exists.mpr
  exact ⟨(k, v), hmem, by simp⟩

@[simp] theorem size_reinsert (m : OrdMap κ α) (k : κ) (v : α) :
    (m.reinsert k v).size = (m.delete k).size + 1 := by
  rw [size, entries_reinsert, List.length_append]
  rfl

/-! ### Deleting from the front -/

/- Delete the first entry while `full` says so of the size; the deleted keys and the rest. -/
def evictL (full : ℕ → Bool) : List (κ × α) → List κ × List (κ × α)
  | [] => ([], [])
  | e :: es =>
    if full (es.length + 1) then (e.1 :: (evictL full es).1, (evictL full es).2)
    else ([], e :: es)

omit [DecidableEq κ] in
theorem evictL_suffix (full : ℕ → Bool) (es : List (κ × α)) : (evictL full es).2 <:+ es := by
  induction es with
  | nil => exact List.suffix_refl _
  | cons e es ih =>
    simp only [evictL]
    split
    · exact ih.trans (List.suffix_cons e es)
    · exact List.suffix_refl _

def evict (full : ℕ → Bool) (m : OrdMap κ α) : List κ × OrdMap κ α :=
  ((evictL full m.entries).1, ⟨(evictL full m.entries).2,
    List.Nodup.sublist (List.Sublist.map Prod.fst (evictL_suffix full m.entries).sublist) m.nodup⟩)

omit [DecidableEq κ] in
theorem evict_of_not_full {full : ℕ → Bool} {m : OrdMap κ α} (h : full m.size = false) :
    m.evict full = ([], m) := by
  obtain ⟨es, hn⟩ := m
  cases es with
  | nil => rfl
  | cons e es =>
    have hover : full (es.length + 1) = false := h
    simp [evict, evictL, hover]

omit [DecidableEq κ] in
theorem evict_one {full : ℕ → Bool} {m : OrdMap κ α} {e : κ × α} {es : List (κ × α)}
    (hm : m.entries = e :: es) (h : full m.size = true) (h' : full es.length = false) :
    (m.evict full).1 = [e.1] ∧ (m.evict full).2.entries = es := by
  have hover : full (es.length + 1) = true := by
    rw [size, hm] at h
    exact h
  have hrest : evictL full es = ([], es) := by
    cases es with
    | nil => rfl
    | cons e' es' =>
      have hlen : full (es'.length + 1) = false := h'
      simp [evictL, hlen]
  simp only [evict, hm, evictL, hover, if_true, hrest]
  exact ⟨trivial, trivial⟩

/-- What inserting under a bound does to a map that keeps it: the key is at the end, and at
most one entry was evicted, the first one, and only for a new key in a full map. -/
structure Inserted (n : ℕ) (m : OrdMap κ α) (k : κ) (v : α) (evicted : List κ)
    (m' : OrdMap κ α) : Prop where
  size_le : m'.size ≤ n
  get_iff : ∀ j w, m'.get j = some w ↔
    k = j ∧ v = w ∨ k ≠ j ∧ j ∉ evicted ∧ m.get j = some w
  keys_sublist : m'.keys.Sublist ((m.delete k).keys ++ [k])
  evicted_eq : evicted = [] ∨ ∃ j rest, m.has k = false ∧ m.size = n ∧ m.keys = j :: rest ∧
    evicted = [j]

/- A new key in a full map: the first entry goes, and it is not the new one. -/
theorem evict_full {n : ℕ} {m : OrdMap κ α} {e : κ × α} {es : List (κ × α)} (k : κ) (v : α)
    (hnew : m.has k = false) (hes : m.entries = e :: es) (hlen : es.length + 1 = n) :
    Inserted n m k v ((m.reinsert k v).evict fun size => decide (n < size)).1
      ((m.reinsert k v).evict fun size => decide (n < size)).2 := by
  have hdel : m.delete k = m := delete_of_not_has m k hnew
  have hentries : (m.reinsert k v).entries = e :: (es ++ [(k, v)]) := by
    have herase : eraseL k m.entries = m.entries := congrArg OrdMap.entries hdel
    rw [entries_reinsert, herase, hes, List.cons_append]
  have hover : n < (m.reinsert k v).size := by
    rw [size, hentries, List.length_cons, List.length_append, List.length_singleton]
    omega
  obtain ⟨hev, hrest⟩ := @evict_one κ α (fun size => decide (n < size)) _ _ _ hentries
    (by simpa using hover) (by simp [hlen])
  have hkeys : m.keys = e.1 :: es.map Prod.fst := by rw [keys, hes, List.map_cons]
  have hk : k ∉ es.map Prod.fst := by
    intro hmem
    have hhas := (mem_keys_iff m k).mp (hkeys ▸ List.mem_cons_of_mem _ hmem)
    rw [hnew] at hhas
    cases hhas
  have he : e.1 ∉ es.map Prod.fst := by
    have hnd := m.nodup
    rw [hes, List.map_cons, List.nodup_cons] at hnd
    exact hnd.1
  refine ⟨?_, ?_, ?_, .inr ⟨e.1, _, hnew, by rw [size, hes]; exact hlen, hkeys, hev⟩⟩
  · rw [size, hrest, List.length_append]
    exact Nat.le_of_eq hlen
  · intro j w
    rw [← mem_entries_iff, hrest, hev, List.mem_append, List.mem_singleton, List.mem_singleton,
      ← mem_entries_iff, hes, List.mem_cons, Prod.mk.injEq]
    constructor
    · rintro (hmem | ⟨rfl, rfl⟩)
      · have hj : j ∈ es.map Prod.fst := List.mem_map_of_mem (f := Prod.fst) hmem
        exact .inr ⟨fun hkj => hk (hkj ▸ hj), fun hje => he (hje ▸ hj), .inr hmem⟩
      · exact .inl ⟨rfl, rfl⟩
    · rintro (⟨rfl, rfl⟩ | ⟨-, hje, heq | hmem⟩)
      · exact .inr ⟨rfl, rfl⟩
      · exact absurd (congrArg Prod.fst heq) hje
      · exact .inl hmem
  · rw [keys, hrest, List.map_append, hdel, hkeys]
    exact (List.sublist_cons_self ..).append (List.Sublist.refl _)

theorem evict_reinsert {n : ℕ} (hn : 1 ≤ n) {m : OrdMap κ α} (hsize : m.size ≤ n) (k : κ)
    (v : α) : Inserted n m k v ((m.reinsert k v).evict fun size => decide (n < size)).1
      ((m.reinsert k v).evict fun size => decide (n < size)).2 := by
  by_cases hover : n < (m.reinsert k v).size
  · rw [size_reinsert] at hover
    have hnew : m.has k = false := by
      cases hhas : m.has k with
      | false => rfl
      | true =>
        have hlt := size_delete_lt m k hhas
        omega
    rw [delete_of_not_has m k hnew] at hover
    cases hes : m.entries with
    | nil =>
      have hzero : m.size = 0 := by rw [size, hes, List.length_nil]
      omega
    | cons e es =>
      have hlen : m.size = es.length + 1 := by rw [size, hes, List.length_cons]
      exact evict_full k v hnew hes (by omega)
  · rw [evict_of_not_full (by simpa using hover)]
    refine ⟨Nat.not_lt.mp hover, ?_, ?_, .inl rfl⟩
    · intro j w
      rw [get_reinsert]
      split
      · rename_i hj
        simp [hj]
      · rename_i hj
        simp [hj]
    · rw [keys_reinsert]

/-! ### Deleting in a loop over the entries -/

def deleteAll (ks : List κ) (m : OrdMap κ α) : OrdMap κ α := ks.foldl delete m

theorem entries_deleteAll (ks : List κ) (m : OrdMap κ α) :
    (deleteAll ks m).entries = m.entries.filter fun e => decide (e.1 ∉ ks) := by
  induction ks generalizing m with
  | nil =>
    apply (List.filter_eq_self.mpr _).symm
    intro e _
    simp
  | cons k ks ih =>
    have hrest : (deleteAll (k :: ks) m).entries =
        (eraseL k m.entries).filter fun e => decide (e.1 ∉ ks) := ih (m.delete k)
    rw [hrest, eraseL, List.filter_filter]
    apply List.filter_congr
    intro e _
    simp [Bool.and_comm]

/- A loop over the map's own entries that deletes those picked leaves the others, in order. -/
theorem entries_sweep (drop : κ × α → Bool) (m : OrdMap κ α) :
    (deleteAll ((m.entries.filter drop).map Prod.fst) m).entries =
      m.entries.filter fun e => !drop e := by
  rw [entries_deleteAll]
  apply List.filter_congr
  intro e he
  have hiff : e.1 ∈ (m.entries.filter drop).map Prod.fst ↔ drop e = true := by
    constructor
    · intro h
      obtain ⟨e', he', hk⟩ := List.mem_map.mp h
      obtain ⟨hmem, hdrop⟩ := List.mem_filter.mp he'
      rw [← List.inj_on_of_nodup_map m.nodup hmem he hk]
      exact hdrop
    · intro h
      exact List.mem_map_of_mem (f := Prod.fst) (List.mem_filter.mpr ⟨he, h⟩)
  cases hd : drop e with
  | true => simpa using hiff.mpr hd
  | false =>
    have hnot : e.1 ∉ (m.entries.filter drop).map Prod.fst := by
      rw [hiff, hd]
      exact Bool.false_ne_true
    simpa using hnot

theorem get_filter_iff {keep : κ × α → Bool} {m m' : OrdMap κ α}
    (h : m'.entries = m.entries.filter keep) (k : κ) (v : α) :
    m'.get k = some v ↔ m.get k = some v ∧ keep (k, v) = true := by
  rw [← mem_entries_iff, h, List.mem_filter, mem_entries_iff]

end OrdMap

/-! ### Ages -/

section Age
variable {κ ε : Type} (touches : ε → κ → Bool)

def age (journal : List ε) (k : κ) : ℕ := journal.findIdx fun e => touches e k

def ByAge (journal : List ε) (ks : List κ) : Prop :=
  ks.Pairwise fun a b => age touches journal b < age touches journal a

theorem age_cons (e : ε) (journal : List ε) (k : κ) :
    age touches (e :: journal) k = if touches e k then 0 else age touches journal k + 1 := by
  rw [age, List.findIdx_cons]
  cases touches e k <;> rfl

variable {touches} {e : ε} {journal : List ε} {k : κ} {ks ks' : List κ}

theorem ByAge.sublist (h : ByAge touches journal ks) (hs : ks'.Sublist ks) :
    ByAge touches journal ks' :=
  List.Pairwise.sublist hs h

/- An event that uses none of the keys makes each of them older by one. -/
theorem ByAge.idle (h : ByAge touches journal ks) (hks : ∀ j ∈ ks, touches e j = false) :
    ByAge touches (e :: journal) ks := by
  refine List.Pairwise.imp_of_mem ?_ h
  intro a b ha hb hab
  simp only [age_cons, hks a ha, hks b hb]
  simpa using hab

/- The key just used belongs at the end. -/
theorem ByAge.touch (h : ByAge touches journal ks) (hks : ∀ j ∈ ks, touches e j = false)
    (hk : touches e k = true) : ByAge touches (e :: journal) (ks ++ [k]) := by
  refine List.pairwise_append.mpr ⟨h.idle hks, List.pairwise_singleton _ _, ?_⟩
  intro a ha b hb
  rw [List.mem_singleton.mp hb]
  simp only [age_cons, hks a ha, hk]
  simp

/- The first key is older than every other. -/
theorem ByAge.oldest (h : ByAge touches journal (k :: ks)) :
    ∀ j ∈ ks, age touches journal j < age touches journal k :=
  (List.pairwise_cons.mp h).1

end Age

end Liquifact.Lib
