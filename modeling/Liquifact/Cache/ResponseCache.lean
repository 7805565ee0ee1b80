import Liquifact.Cache.CacheStore
import Liquifact.Lib.JsValue
import Liquifact.Lib.Run
import Mathlib.Data.List.Infix

/-!
# The response cache and its invalidation (`src/middleware/cache.js`)

`cacheResponse` (53-109) looks a key up when the request comes in and stores the body when
the handler calls `res.json`; the handler reads its data somewhere in between.
`invalidatePrefix` (163-170) is called by whoever has written data. Writes are numbered from
one. A body carries, besides its content, how many writes had been made when its data were
read (the first time, if they were read more than once).
-/

namespace Liquifact.Cache
open Liquifact.Lib

structure Body where
  content : Json
  readAt : ℕ

/- A request that missed and whose handler has not answered. -/
structure Handling where
  key : String
  readAt : Option ℕ
  deriving DecidableEq

/- `invalidatePrefix` has returned, called by the one who made the write. -/
structure Flush where
  start : String
  write : ℕ
  deriving DecidableEq

/- A request answered from the cache, with the invalidations that had returned by then. -/
structure Hit where
  key : String
  body : Body
  flushed : List Flush

structure ResponseCache where
  store : MemoryCacheStore Body
  writes : ℕ
  handling : List Handling
  flushed : List Flush
  hits : List Hit

inductive CacheStep where
  | arrive (cacheControl : Option String) (key : String) (now : ℕ)
  | read (i : ℕ)
  | respond (i : ℕ) (statusCode : ℕ) (content : Json) (ttl : JsNumber) (now : ℕ)
  | write
  | invalidatePrefix (w : ℕ) (start : String) (now : ℕ)

/- `cc && typeof cc === 'string' && cc.indexOf('no-cache') !== -1`. -/
def bypassed (cacheControl : Option String) : Bool :=
  match cacheControl with
  | none => false
  | some cc => decide ("no-cache".toList <:+: cc.toList)

namespace ResponseCache

def initial (maxEntries : Option JsNumber) : ResponseCache := ⟨.new maxEntries, 0, [], [], []⟩

/-- The middleware up to `next()`: a bypass leaves `res.json` as it is, a hit answers, a miss
goes to the handler with `res.json` patched. -/
def arrive (s : ResponseCache) (cacheControl : Option String) (key : String) (now : ℕ) :
    ResponseCache :=
  if bypassed cacheControl then s
  else
    match s.store.get key now with
    | (some body, store) => { s with store := store, hits := s.hits ++ [⟨key, body, s.flushed⟩] }
    | (none, store) => { s with store := store, handling := s.handling ++ [⟨key, none⟩] }

/- The body of a handler; one that read nothing depends on no write. -/
def bodyOf (s : ResponseCache) (h : Handling) (content : Json) : Body :=
  ⟨content, h.readAt.getD s.writes⟩

/-- The patched `res.json`. -/
def respond (s : ResponseCache) (h : Handling) (statusCode : ℕ) (content : Json) (ttl : JsNumber)
    (now : ℕ) : MemoryCacheStore Body :=
  if 200 ≤ statusCode ∧ statusCode < 300 then
    (s.store.set h.key (s.bodyOf h content) ttl now).2
  else s.store

def step (s : ResponseCache) : CacheStep → ResponseCache
  | .arrive cacheControl key now => s.arrive cacheControl key now
  | .read i => { s with handling := s.handling.modify i fun h =>
      { h with readAt := h.readAt.getD s.writes } }
  | .respond i statusCode content ttl now =>
    match s.handling[i]? with
    | none => s
    | some h => { s with
        store := s.respond h statusCode content ttl now
        handling := s.handling.eraseIdx i }
  | .write => { s with writes := s.writes + 1 }
  | .invalidatePrefix w start now =>
    if w ≤ s.writes then
      { s with store := s.store.delByPrefix start now, flushed := s.flushed ++ [⟨start, w⟩] }
    else s

end ResponseCache

/- The body holds what every write says whose invalidation covers the key. -/
def Fresh (flushed : List Flush) (key : String) (readAt : ℕ) : Prop :=
  ∀ f ∈ flushed, startsWith key f.start = true → f.write ≤ readAt

/-- No answer from the cache was computed from data read before a write whose invalidation
had returned. -/
def NoStaleHit (s : ResponseCache) : Prop := ∀ hit ∈ s.hits, Fresh hit.flushed hit.key hit.body.readAt

/-- A 2xx answer is not stored when its data were read before a write that has been followed
by the invalidation of its key already. -/
def StoresFresh (s : ResponseCache) : CacheStep → Prop
  | .respond i statusCode _ _ _ => 200 ≤ statusCode ∧ statusCode < 300 →
      ∀ h, s.handling[i]? = some h → Fresh s.flushed h.key (h.readAt.getD s.writes)
  | _ => True

/- Every stored body is fresh, not only those that were asked for. -/
structure StoreFresh (s : ResponseCache) : Prop where
  hits : NoStaleHit s
  store : ∀ k e, s.store.cache.get k = some e → Fresh s.flushed k e.value.readAt

section Steps
variable {s : ResponseCache}

theorem storeFresh_initial (maxEntries : Option JsNumber) : StoreFresh (.initial maxEntries) := by
  refine ⟨?_, ?_⟩
  · intro hit hhit
    cases hhit
  · intro k e hk
    cases hk

theorem StoreFresh.arrive (h : StoreFresh s) (cacheControl : Option String) (key : String)
    (now : ℕ) : StoreFresh (s.arrive cacheControl key now) := by
  unfold ResponseCache.arrive
  by_cases hb : bypassed cacheControl = true
  · rw [if_pos hb]
    exact h
  · rw [if_neg hb]
    have hsub : ∀ k e, (s.store.get key now).2.cache.get k = some e →
        Fresh s.flushed k e.value.readAt :=
      fun k e hk => h.store k e (MemoryCacheStore.of_get_cache hk)
    cases hr : s.store.get key now with
    | mk r store =>
      rw [hr] at hsub
      cases r with
      | none => exact ⟨h.hits, hsub⟩
      | some body =>
        refine ⟨?_, hsub⟩
        intro hit hhit
        rcases List.mem_append.mp hhit with hhit | hhit
        · exact h.hits hit hhit
        · rw [List.mem_singleton.mp hhit]
          obtain ⟨e, hget, rfl, -⟩ :=
            MemoryCacheStore.get_eq_some_iff.mp (congrArg Prod.fst hr)
          exact h.store key e hget

theorem StoreFresh.respond (h : StoreFresh s) {i : ℕ} {hd : Handling} (hi : s.handling[i]? = some hd)
    {statusCode : ℕ} {content : Json} {ttl : JsNumber} {now : ℕ}
    (hok : StoresFresh s (.respond i statusCode content ttl now)) :
    ∀ k e, (s.respond hd statusCode content ttl now).cache.get k = some e →
      Fresh s.flushed k e.value.readAt := by
  intro k e hk
  unfold ResponseCache.respond at hk
  split at hk
  · rename_i h2xx
    rcases MemoryCacheStore.of_set_cache hk with ⟨rfl, rfl⟩ | hold
    · exact hok h2xx hd hi
    · exact h.store k e hold
  · exact h.store k e hk

theorem StoreFresh.invalidatePrefix (h : StoreFresh s) (w : ℕ) (start : String) (now : ℕ) :
    ∀ k e, (s.store.delByPrefix start now).cache.get k = some e →
      Fresh (s.flushed ++ [⟨start, w⟩]) k e.value.readAt := by
  intro k e hk f hf hstart
  obtain ⟨hold, hkeep⟩ := MemoryCacheStore.of_delByPrefix_cache hk
  rcases List.mem_append.mp hf with hf | hf
  · exact h.store k e hold f hf hstart
  · -- nothing under the flushed prefix is left
    rw [List.mem_singleton.mp hf, hkeep] at hstart
    cases hstart

theorem StoreFresh.step (h : StoreFresh s) (a : CacheStep) (ha : StoresFresh s a) :
    StoreFresh (s.step a) := by
  cases a with
  | arrive cacheControl key now => exact h.arrive cacheControl key now
  | read i => exact ⟨h.hits, h.store⟩
  | respond i statusCode content ttl now =>
    simp only [ResponseCache.step]
    cases hi : s.handling[i]? with
    | none => exact h
    | some hd => exact ⟨h.hits, h.respond hi ha⟩
  | write => exact ⟨h.hits, h.store⟩
  | invalidatePrefix w start now =>
    simp only [ResponseCache.step]
    split
    · exact ⟨h.hits, h.invalidatePrefix w start now⟩
    · exact h

end Steps

/-- In every run that stores no answer older than an invalidation of its key, no later
request is answered with data read before the write. -/
theorem invalidated_responses_stay_out (maxEntries : Option JsNumber) (as : List CacheStep)
    (h : Along ResponseCache.step StoresFresh (.initial maxEntries) as) :
    NoStaleHit (run ResponseCache.step (.initial maxEntries) as) :=
  (run_invariant ResponseCache.step StoresFresh StoreFresh (fun _ a hs ha => hs.step a ha) _ as
    (storeFresh_initial maxEntries) h).hits

def sampleKey : String := "marketplace:tenant-a:/api/marketplace"

/- A miss answered and stored before the write, flushed by it, and read again after it. -/
def sampleOrderly : List CacheStep :=
  [.arrive none sampleKey 0, .read 0, .respond 0 200 (.obj []) (.fin 15000) 1, .write,
    .invalidatePrefix 1 "marketplace:" 2, .arrive none sampleKey 3, .read 0,
    .respond 0 200 (.obj []) (.fin 15000) 4, .arrive none sampleKey 5]

theorem invalidated_responses_stay_out_sample :
    ((run ResponseCache.step (.initial none) sampleOrderly).hits.map fun hit => hit.body.readAt) =
      [1] ∧ NoStaleHit (run ResponseCache.step (.initial none) sampleOrderly) := by
  refine ⟨by decide +kernel, invalidated_responses_stay_out none sampleOrderly ?_⟩
  refine ⟨trivial, trivial, ?_, trivial, trivial, trivial, trivial, ?_, trivial, trivial⟩
  · intro _ h hh f hf
    cases hf
  · have hhandling : (run ResponseCache.step (.initial none) (sampleOrderly.take 7)).handling =
        [⟨sampleKey, some 1⟩] := by decide +kernel
    have hflushed : (run ResponseCache.step (.initial none) (sampleOrderly.take 7)).flushed =
        [⟨"marketplace:", 1⟩] := by decide +kernel
    intro _ h hh f hf _
    have hh' : (run ResponseCache.step (.initial none) (sampleOrderly.take 7)).handling[0]? =
        some h := hh
    have hf' : f ∈ (run ResponseCache.step (.initial none) (sampleOrderly.take 7)).flushed := hf
    rw [hhandling] at hh'
    rw [hflushed] at hf'
    cases hh'
    rw [List.mem_singleton.mp hf']
    exact le_rfl

/- The handler reads before the write and answers after the invalidation. -/
def sampleLate : List CacheStep :=
  [.arrive none sampleKey 0, .read 0, .write, .invalidatePrefix 1 "marketplace:" 1,
    .respond 0 200 (.obj []) (.fin 15000) 2, .arrive none sampleKey 3]

/-- The old body is stored under the flushed key, and the next request gets it. -/
theorem stale_response_comes_back :
    ¬ ∀ (maxEntries : Option JsNumber) (as : List CacheStep),
      NoStaleHit (run ResponseCache.step (.initial maxEntries) as) := by
  intro hall
  have hhits : (run ResponseCache.step (.initial none) sampleLate).hits.map
      (fun hit => (hit.key, hit.body.readAt, hit.flushed)) =
      [(sampleKey, 0, [⟨"marketplace:", 1⟩])] := by
    decide +kernel
  obtain ⟨hit, hmem, heq⟩ := List.mem_map.mp (hhits ▸ List.mem_singleton_self _)
  simp only [Prod.mk.injEq] at heq
  obtain ⟨hkey, hread, hflushed⟩ := heq
  have hfresh := hall none sampleLate hit hmem ⟨"marketplace:", 1⟩
    (hflushed ▸ List.mem_singleton_self _) (by rw [hkey]; decide)
  rw [hread] at hfresh
  exact absurd hfresh (by decide)

end Liquifact.Cache
