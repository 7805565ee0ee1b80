import Liquifact.Lib.JsNumber
import Liquifact.Lib.LruMap

/-!
# The in-memory cache store (`src/services/cacheStore.js`)

`MemoryCacheStore` (19-133): a `Map` whose insertion order is the order of last use, with an
expiry time in each entry and a bound on their number. `Date.now()` is read at most once in
each call; the reading is an argument. `get` answers `none` for a miss. The counters of
hits, misses and evictions are left out; `set` hands out the keys it evicted instead.
-/

namespace Liquifact.Cache
open Liquifact.Lib

structure CacheEntry (α : Type) where
  value : α
  expiresAt : JsNumber
  deriving DecidableEq

structure MemoryCacheStore (α : Type) where
  maxEntries : JsNumber
  cache : OrdMap String (CacheEntry α)

/- `key.startsWith(prefix)`. -/
def startsWith (key start : String) : Bool := start.toList.isPrefixOf key.toList

namespace MemoryCacheStore

variable {α : Type}

/-- The constructor; a bound that is not positive means no bound. -/
def new (maxEntries : Option JsNumber) : MemoryCacheStore α :=
  let limit := maxEntries.getD (.fin 5000)
  ⟨if JsNumber.lt (.fin 0) limit then limit else .posInf, .empty⟩

def get (s : MemoryCacheStore α) (key : String) (now : ℕ) : Option α × MemoryCacheStore α :=
  match s.cache.get key with
  | none => (none, s)
  | some entry =>
    if JsNumber.lt entry.expiresAt (.ofNat now) then
      (none, { s with cache := s.cache.delete key })
    else (some entry.value, { s with cache := s.cache.reinsert key entry })

/-- `set` (`cacheStore.js:70-84`), with the keys its `while` loop evicted. -/
def set (s : MemoryCacheStore α) (key : String) (value : α) (ttlMs : JsNumber) (now : ℕ) :
    List String × MemoryCacheStore α :=
  let cache := if s.cache.has key then s.cache.delete key else s.cache
  let entry : CacheEntry α := ⟨value, JsNumber.add (.ofNat now) ttlMs⟩
  let r := (cache.set key entry).evict fun size => JsNumber.lt s.maxEntries (.ofNat size)
  (r.1, { s with cache := r.2 })

def del (s : MemoryCacheStore α) (key : String) : MemoryCacheStore α :=
  { s with cache := s.cache.delete key }

/- The loop of `keys` over the entries; deleting the current one does not disturb it. -/
def keysLoop (now : ℕ) : List (String × CacheEntry α) → List String →
    OrdMap String (CacheEntry α) → List String × OrdMap String (CacheEntry α)
  | [], valid, cache => (valid, cache)
  | (key, entry) :: rest, valid, cache =>
    if JsNumber.le (.ofNat now) entry.expiresAt then keysLoop now rest (valid ++ [key]) cache
    else keysLoop now rest valid (cache.delete key)

def keys (s : MemoryCacheStore α) (now : ℕ) : List String × MemoryCacheStore α :=
  let r := keysLoop now s.cache.entries [] s.cache
  (r.1, { s with cache := r.2 })

def delByPrefixLoop (start : String) (now : ℕ) : List (String × CacheEntry α) →
    OrdMap String (CacheEntry α) → OrdMap String (CacheEntry α)
  | [], cache => cache
  | (key, entry) :: rest, cache =>
    if JsNumber.lt entry.expiresAt (.ofNat now) then
      delByPrefixLoop start now rest (cache.delete key)
    else if startsWith key start then delByPrefixLoop start now rest (cache.delete key)
    else delByPrefixLoop start now rest cache

def delByPrefix (s : MemoryCacheStore α) (start : String) (now : ℕ) : MemoryCacheStore α :=
  { s with cache := delByPrefixLoop start now s.cache.entries s.cache }

def clear (s : MemoryCacheStore α) : MemoryCacheStore α := { s with cache := .empty }

/-! ### What each operation does -/

section Spec
variable {s : MemoryCacheStore α} {key : String} {now : ℕ}

@[simp] theorem get_maxEntries : (s.get key now).2.maxEntries = s.maxEntries := by
  unfold get
  cases s.cache.get key with
  | none => rfl
  | some entry =>
    simp only
    split <;> rfl

theorem get_fst (s : MemoryCacheStore α) (key : String) (now : ℕ) :
    (s.get key now).1 = ((s.cache.get key).filter fun e =>
      !JsNumber.lt e.expiresAt (.ofNat now)).map CacheEntry.value := by
  unfold get
  cases s.cache.get key with
  | none => rfl
  | some entry =>
    simp only [Option.filter]
    split
    · rename_i h
      simp [h]
    · rename_i h
      simp [h]

theorem get_eq_some_iff {v : α} : (s.get key now).1 = some v ↔
    ∃ e, s.cache.get key = some e ∧ e.value = v ∧
      JsNumber.lt e.expiresAt (.ofNat now) = false := by
  rw [get_fst]
  simp only [Option.map_eq_some_iff, Option.filter_eq_some_iff, Bool.not_eq_true']
  constructor
  · rintro ⟨e, ⟨hget, hfresh⟩, hv⟩
    exact ⟨e, hget, hv, hfresh⟩
  · rintro ⟨e, hget, hv, hfresh⟩
    exact ⟨e, ⟨hget, hfresh⟩, hv⟩

/- The map before the bound is enforced: the key is at the end, whether it was there or not. -/
theorem set_eq (s : MemoryCacheStore α) (key : String) (v : α) (ttlMs : JsNumber) (now : ℕ) :
    s.set key v ttlMs now =
      let r := (s.cache.reinsert key ⟨v, JsNumber.add (.ofNat now) ttlMs⟩).evict fun size =>
        JsNumber.lt s.maxEntries (.ofNat size)
      (r.1, { s with cache := r.2 }) := by
  have hdel : (if s.cache.has key then s.cache.delete key else s.cache) = s.cache.delete key := by
    cases h : s.cache.has key with
    | true => rfl
    | false => exact (OrdMap.delete_of_not_has s.cache key h).symm
  simp only [set, hdel]
  rfl

end Spec

/- Under an integer bound that the store keeps, `set` is the insertion of an LRU map. -/
theorem set_spec {n : ℕ} (hn : 1 ≤ n) {s : MemoryCacheStore α} (hlimit : s.maxEntries = .ofNat n)
    (hsize : s.cache.size ≤ n) (key : String) (v : α) (ttlMs : JsNumber) (now : ℕ) :
    OrdMap.Inserted n s.cache key ⟨v, JsNumber.add (.ofNat now) ttlMs⟩
      (s.set key v ttlMs now).1 (s.set key v ttlMs now).2.cache := by
  rw [set_eq]
  simp only [hlimit, JsNumber.lt_ofNat]
  exact OrdMap.evict_reinsert hn hsize key _

/- Both loops delete the entries they pick and nothing else. -/
theorem keysLoop_eq (now : ℕ) (es : List (String × CacheEntry α)) (valid : List String)
    (m : OrdMap String (CacheEntry α)) :
    keysLoop now es valid m =
      (valid ++ (es.filter fun e => JsNumber.le (.ofNat now) e.2.expiresAt).map Prod.fst,
        OrdMap.deleteAll
          ((es.filter fun e => !JsNumber.le (.ofNat now) e.2.expiresAt).map Prod.fst) m) := by
  induction es generalizing valid m with
  | nil => simp [keysLoop, OrdMap.deleteAll]
  | cons e es ih =>
    obtain ⟨key, entry⟩ := e
    simp only [keysLoop]
    split
    · rename_i h
      rw [ih]
      simp [h]
    · rename_i h
      rw [ih]
      simp [h, OrdMap.deleteAll]

theorem delByPrefixLoop_eq (start : String) (now : ℕ) (es : List (String × CacheEntry α))
    (m : OrdMap String (CacheEntry α)) :
    delByPrefixLoop start now es m =
      OrdMap.deleteAll ((es.filter fun e => JsNumber.lt e.2.expiresAt (.ofNat now) ||
        startsWith e.1 start).map Prod.fst) m := by
  induction es generalizing m with
  | nil => rfl
  | cons e es ih =>
    obtain ⟨key, entry⟩ := e
    simp only [delByPrefixLoop, ih]
    split
    · rename_i h
      simp [h, OrdMap.deleteAll]
    · rename_i h
      split
      · rename_i h'
        simp [h', OrdMap.deleteAll]
      · rename_i h'
        simp [h, h']

theorem keys_fst (s : MemoryCacheStore α) (now : ℕ) :
    (s.keys now).1 =
      (s.cache.entries.filter fun e => JsNumber.le (.ofNat now) e.2.expiresAt).map Prod.fst := by
  simp [keys, keysLoop_eq]

theorem keys_entries (s : MemoryCacheStore α) (now : ℕ) :
    (s.keys now).2.cache.entries =
      s.cache.entries.filter fun e => JsNumber.le (.ofNat now) e.2.expiresAt := by
  simp only [keys, keysLoop_eq, OrdMap.entries_sweep, Bool.not_not]

theorem delByPrefix_entries (s : MemoryCacheStore α) (start : String) (now : ℕ) :
    (s.delByPrefix start now).cache.entries =
      s.cache.entries.filter fun e => !(JsNumber.lt e.2.expiresAt (.ofNat now) ||
        startsWith e.1 start) := by
  simp only [delByPrefix, delByPrefixLoop_eq, OrdMap.entries_sweep]

/-! ### Where an entry found after a call comes from -/

section Origin
variable {s : MemoryCacheStore α} {key j : String} {now : ℕ} {e : CacheEntry α}

theorem of_get_cache (h : (s.get key now).2.cache.get j = some e) :
    s.cache.get j = some e := by
  unfold get at h
  cases hget : s.cache.get key with
  | none =>
    simp only [hget] at h
    exact h
  | some entry =>
    simp only [hget] at h
    split at h
    · rw [OrdMap.get_delete] at h
      split at h
      · cases h
      · exact h
    · rw [OrdMap.get_reinsert] at h
      split at h
      · rename_i hj
        rw [← hj, hget]
        exact h
      · exact h

theorem of_set_cache {v : α} {ttlMs : JsNumber}
    (h : (s.set key v ttlMs now).2.cache.get j = some e) :
    key = j ∧ ⟨v, JsNumber.add (.ofNat now) ttlMs⟩ = e ∨ s.cache.get j = some e := by
  rw [set_eq, ← OrdMap.mem_entries_iff] at h
  have hmem := (OrdMap.evictL_suffix _ _).subset h
  rw [OrdMap.mem_entries_iff, OrdMap.get_reinsert] at hmem
  split at hmem
  · rename_i hj
    exact .inl ⟨hj, Option.some.inj hmem⟩
  · exact .inr hmem

theorem of_delByPrefix_cache {start : String}
    (h : (s.delByPrefix start now).cache.get j = some e) :
    s.cache.get j = some e ∧ startsWith j start = false := by
  obtain ⟨hget, hkeep⟩ := (OrdMap.get_filter_iff (s.delByPrefix_entries start now) j e).mp h
  simp only [Bool.not_or, Bool.and_eq_true, Bool.not_eq_true'] at hkeep
  exact ⟨hget, hkeep.2⟩

end Origin

end MemoryCacheStore

end Liquifact.Cache
