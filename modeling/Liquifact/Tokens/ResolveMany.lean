import Liquifact.Lib.JsMath
import Liquifact.Lib.WorkerPool
import Liquifact.Tokens.Sources
import Mathlib.Data.List.Count
import Mathlib.Data.List.Dedup
import Mathlib.Data.List.Induction

/-!
# Resolving many tokens (`src/services/tokenMeta.js`)

`resolveMany` (418-485) looks every distinct valid asset up in the cache, starts workers on the
missing ones, and maps the results back to the list. A worker takes the next missing asset,
waits for its `getTokenMetadata`, and writes down what that returned, or null when it threw.
While the workers wait, fetches settle in any order and other callers use the service
(`outside`). A fetch that fails does so with an `Error`: `fetchFromSoroban` catches what the
contract call throws, and the other two sources throw nothing.

The readings of the clock before the first wait are numbered.
-/

namespace Liquifact.Tokens
open Liquifact.Lib Liquifact.Cache

/- `{ asset, key }`. -/
structure MissingAsset where
  asset : Asset
  key : String

structure ResolveOptions where
  concurrency : Option JsNumber
  ttlMs : Option JsNumber

namespace ResolveOptions

def limit (options : ResolveOptions) : JsNumber := options.concurrency.getD (.ofNat 5)

/- The options of the workers' calls. -/
def metadata (options : ResolveOptions) : MetadataOptions :=
  ⟨some (options.ttlMs.getD TokenMeta.defaultTtlMs), false⟩

end ResolveOptions

/-! ### Phase 1 -/

structure Gathered where
  tokenCache : MemoryCacheStore TokenMetadata
  uniqueKeys : List String
  missingAssets : List MissingAsset
  resultsByKey : OrdMap String (Option TokenMetadata)

namespace Gathered

/- A key that is new. -/
def lookUp (g : Gathered) (item : MissingAsset) (now : ℕ) : Gathered :=
  match g.tokenCache.get item.key now with
  | (some cached, store) => { g with
      tokenCache := store
      uniqueKeys := g.uniqueKeys ++ [item.key]
      resultsByKey := g.resultsByKey.set item.key (some cached) }
  | (none, store) => { g with
      tokenCache := store
      uniqueKeys := g.uniqueKeys ++ [item.key]
      missingAssets := g.missingAssets ++ [item] }

def consider (checks : AddressChecks) (clock : ℕ → ℕ) (g : Gathered) (asset : Option Asset) :
    Gathered :=
  match validateAsset checks asset with
  | .error _ => g
  | .ok a =>
    if generateCacheKey a ∈ g.uniqueKeys then g
    else g.lookUp ⟨a, generateCacheKey a⟩ (clock g.uniqueKeys.length)

end Gathered

def gather (checks : AddressChecks) (clock : ℕ → ℕ) (tokenCache : MemoryCacheStore TokenMetadata)
    (assets : List (Option Asset)) : Gathered :=
  assets.foldl (Gathered.consider checks clock) ⟨tokenCache, [], [], .empty⟩

/-! ### Phases 2 and 3 -/

structure Lookup where
  item : MissingAsset
  answer : Answer

/- The fetch that the call of a worker has started, if it has. -/
def Lookup.starts (l : Lookup) : Option ℕ :=
  match l.answer with
  | .starts fetch => some fetch
  | _ => none

/- The variables of a call, with the fetches that have settled since it was made; a worker
waits for the lookup with its number or has ended. -/
structure ResolveMany where
  service : Fetching
  settled : List (ℕ × Option TokenMetadata)
  remaining : List MissingAsset
  lookups : List Lookup
  workers : List (Option ℕ)
  resultsByKey : OrdMap String (Option TokenMetadata)

inductive ResolveEvent where
  | outside (a : TokenStep)
  | goesOn (worker now : ℕ)

def FetchedToken.metadata (t : FetchedToken) (now fetch : ℕ) : TokenMetadata :=
  ⟨t.symbol, t.name, t.decimals, t.source, now, fetch⟩

/- The fetch that a step settles, with what it obtained. -/
def TokenMeta.settles (s : TokenMeta) : TokenStep → List (ℕ × Option TokenMetadata)
  | .completes fetch outcome now =>
    ((s.fetches.find? fun f => decide (f.id = fetch)).map fun f =>
      (f.id, outcome.map fun t => t.metadata now f.id)).toList
  | _ => []

namespace ResolveMany

def serve (checks : AddressChecks) (b : ResolveMany) (a : TokenStep) : ResolveMany :=
  { b with
    service := b.service.step checks a
    settled := b.settled ++ b.service.tokens.settles a }

/- How a fetch has settled, if it has. -/
def outcomeOf (b : ResolveMany) (fetch : ℕ) : Option (Option TokenMetadata) :=
  (b.settled.find? fun s => decide (s.1 = fetch)).map Prod.snd

def outcome (b : ResolveMany) : Answer → Option (Option TokenMetadata)
  | .cached metadata => some (some metadata)
  | .joins fetch => b.outcomeOf fetch
  | .starts fetch => b.outcomeOf fetch

section Steps
variable (checks : AddressChecks) (options : ResolveOptions)

/- The loop of a worker up to its `await`, if there is something left. -/
def startNext (b : ResolveMany) (now : ℕ) : ResolveMany :=
  match b.remaining with
  | [] => b
  | item :: rest =>
    { b.serve checks (.getTokenMetadata (some item.asset) options.metadata now) with
      remaining := rest
      lookups := b.lookups ++ [⟨item, b.service.tokens.answer item.key false now⟩] }

def awaited (b : ResolveMany) : Option ℕ := b.remaining.head?.map fun _ => b.lookups.length

/- `workers.push(worker())`. -/
def startWorker (b : ResolveMany) (now : ℕ) : ResolveMany :=
  { b.startNext checks options now with workers := b.workers ++ [b.awaited] }

def goOn (b : ResolveMany) (w now : ℕ) : ResolveMany :=
  { b.startNext checks options now with workers := b.workers.set w b.awaited }

def launch (clock : ℕ → ℕ) (b : ResolveMany) : ℕ → ResolveMany
  | 0 => b
  | n + 1 => (launch clock b n).startWorker checks options (clock n)

/- The call before its first worker. -/
def start (w : Fetching) (g : Gathered) : ResolveMany :=
  ⟨⟨{ w.tokens with tokenCache := g.tokenCache }, w.asked⟩, [], g.missingAssets, [], [],
    g.resultsByKey⟩

/-- `resolveMany` up to the `await` of its workers. -/
def resolveMany (w : Fetching) (assets : List (Option Asset)) (clock : ℕ → ℕ) : ResolveMany :=
  let g := gather checks clock w.tokens.tokenCache assets
  launch checks options (fun i => clock (g.uniqueKeys.length + i)) (start w g)
    (options.limit.rounds g.missingAssets.length)

def record (b : ResolveMany) (l : Lookup) (metadata : Option TokenMetadata) : ResolveMany :=
  { b with resultsByKey := b.resultsByKey.set l.item.key metadata }

def resume (b : ResolveMany) (w : ℕ) (l : Lookup) (now : ℕ) : ResolveMany :=
  match b.outcome l.answer with
  | none => b
  | some metadata => (b.record l metadata).goOn checks options w now

def step (b : ResolveMany) : ResolveEvent → ResolveMany
  | .outside a => b.serve checks a
  | .goesOn w now =>
    match b.workers[w]? with
    | some (some lookup) =>
      match b.lookups[lookup]? with
      | some l => b.resume checks options w l now
      | none => b
    | _ => b

end Steps

/- All workers have ended, and `Promise.all` has resolved. -/
def Ended (b : ResolveMany) : Prop := ∀ worker ∈ b.workers, worker = none

/-- What the call returns once its workers have ended. -/
def results (checks : AddressChecks) (b : ResolveMany) (assets : List (Option Asset)) :
    List (Option TokenMetadata) :=
  assets.map fun asset =>
    match validateAsset checks asset with
    | .error _ => none
    | .ok a => (b.resultsByKey.get (generateCacheKey a)).join

/- The fetches that the call has started. -/
def started (b : ResolveMany) : List ℕ := b.lookups.filterMap Lookup.starts

def outstanding (b : ResolveMany) : ℕ := b.started.countP fun f => (b.outcomeOf f).isNone

end ResolveMany

/-! ### What phase 1 gathers -/

def validSource (checks : AddressChecks) (asset : Option Asset) : Option Source :=
  (validateAsset checks asset).toOption.map sourceOf

/-- Of every valid asset so far either an equal key is missing, once, or the cache has it. -/
structure GatheredFrom (checks : AddressChecks) (store : MemoryCacheStore TokenMetadata)
    (assets : List (Option Asset)) (g : Gathered) : Prop where
  cached : ∀ k e, g.tokenCache.cache.get k = some e → store.cache.get k = some e
  items : ∀ item ∈ g.missingAssets, some item.asset ∈ assets ∧
    validateAsset checks (some item.asset) = .ok item.asset ∧
      item.key = generateCacheKey item.asset ∧ item.key ∈ g.uniqueKeys
  nodup : (g.missingAssets.map MissingAsset.key).Nodup
  covers : ∀ asset ∈ assets, ∀ a, validateAsset checks asset = .ok a →
    generateCacheKey a ∈ g.uniqueKeys
  found : ∀ key ∈ g.uniqueKeys, (∃ item ∈ g.missingAssets, item.key = key) ∨
    (∀ item ∈ g.missingAssets, item.key ≠ key) ∧
      ∃ e, store.cache.get key = some e ∧ g.resultsByKey.get key = some (some e.value)

section Gather
variable {checks : AddressChecks} {store : MemoryCacheStore TokenMetadata}
  {assets : List (Option Asset)} {g : Gathered}

/- An asset whose key is known adds nothing. -/
theorem GatheredFrom.skip (h : GatheredFrom checks store assets g) {asset : Option Asset}
    (hknown : ∀ a, validateAsset checks asset = .ok a → generateCacheKey a ∈ g.uniqueKeys) :
    GatheredFrom checks store (assets ++ [asset]) g := by
  refine ⟨h.cached, ?_, h.nodup, ?_, h.found⟩
  · intro item hitem
    obtain ⟨hmem, hrest⟩ := h.items item hitem
    exact ⟨List.mem_append_left _ hmem, hrest⟩
  · intro asset' hmem a ha
    rcases List.mem_append.mp hmem with hold | hnew
    · exact h.covers asset' hold a ha
    · rw [List.mem_singleton.mp hnew] at ha
      exact hknown a ha

theorem GatheredFrom.covers_concat (h : GatheredFrom checks store assets g) {a : Asset}
    (ha : validateAsset checks (some a) = .ok a) : ∀ asset ∈ assets ++ [some a], ∀ b,
      validateAsset checks asset = .ok b →
        generateCacheKey b ∈ g.uniqueKeys ++ [generateCacheKey a] := by
  intro asset hmem b hb
  rcases List.mem_append.mp hmem with hold | hnew
  · exact List.mem_append_left _ (h.covers asset hold b hb)
  · rw [List.mem_singleton.mp hnew, ha] at hb
    cases hb
    exact List.mem_append_right _ (List.mem_singleton_self _)

theorem GatheredFrom.items_concat (h : GatheredFrom checks store assets g) (a : Asset) (key : String) :
    ∀ item ∈ g.missingAssets, some item.asset ∈ assets ++ [some a] ∧
      validateAsset checks (some item.asset) = .ok item.asset ∧
        item.key = generateCacheKey item.asset ∧ item.key ∈ g.uniqueKeys ++ [key] := by
  intro item hitem
  obtain ⟨hmem, hvalid, hkey, hunique⟩ := h.items item hitem
  exact ⟨List.mem_append_left _ hmem, hvalid, hkey, List.mem_append_left _ hunique⟩

theorem GatheredFrom.lookUp (h : GatheredFrom checks store assets g) {a : Asset} {now : ℕ}
    (ha : validateAsset checks (some a) = .ok a) (hnew : generateCacheKey a ∉ g.uniqueKeys) :
    GatheredFrom checks store (assets ++ [some a]) (g.lookUp ⟨a, generateCacheKey a⟩ now) := by
  have hfresh : ∀ item ∈ g.missingAssets, item.key ≠ generateCacheKey a := by
    rintro item hitem hkey
    exact hnew (hkey ▸ (h.items item hitem).2.2.2)
  have hstore : ∀ k e, (g.tokenCache.get (generateCacheKey a) now).2.cache.get k = some e →
      store.cache.get k = some e := fun k e hk => h.cached k e (MemoryCacheStore.of_get_cache hk)
  unfold Gathered.lookUp
  cases hget : g.tokenCache.get (generateCacheKey a) now with
  | mk r cache =>
    rw [hget] at hstore
    cases r with
    | some cached =>
      refine ⟨hstore, h.items_concat a _, h.nodup, h.covers_concat ha, ?_⟩
      intro key hkey
      rcases List.mem_append.mp hkey with hold | hlast
      · have hne : generateCacheKey a ≠ key := by
          rintro rfl
          exact hnew hold
        rcases h.found key hold with hmissing | ⟨hno, e, he, hres⟩
        · exact .inl hmissing
        · exact .inr ⟨hno, e, he, (OrdMap.get_set_of_ne _ _ hne).trans hres⟩
      · rw [List.mem_singleton.mp hlast]
        obtain ⟨e, he, rfl, -⟩ := MemoryCacheStore.get_eq_some_iff.mp (congrArg Prod.fst hget)
        exact .inr ⟨hfresh, e, h.cached _ e he, OrdMap.get_set_self ..⟩
    | none =>
      refine ⟨hstore, ?_, ?_, h.covers_concat ha, ?_⟩
      · intro item hitem
        rcases List.mem_append.mp hitem with hold | hlast
        · exact h.items_concat a _ item hold
        · rw [List.mem_singleton.mp hlast]
          exact ⟨List.mem_append_right _ (List.mem_singleton_self _), ha, rfl,
            List.mem_append_right _ (List.mem_singleton_self _)⟩
      · rw [List.map_append, List.nodup_append]
        refine ⟨h.nodup, List.nodup_singleton _, ?_⟩
        intro k hk k' hk'
        obtain ⟨item, hitem, rfl⟩ := List.mem_map.mp hk
        rw [List.mem_singleton.mp hk']
        exact hfresh item hitem
      · intro key hkey
        rcases List.mem_append.mp hkey with hold | hlast
        · have hne : generateCacheKey a ≠ key := by
            rintro rfl
            exact hnew hold
          rcases h.found key hold with ⟨item, hitem, hk⟩ | ⟨hno, hcached⟩
          · exact .inl ⟨item, List.mem_append_left _ hitem, hk⟩
          · refine .inr ⟨?_, hcached⟩
            intro item hitem
            rcases List.mem_append.mp hitem with hitem | hlast
            · exact hno item hitem
            · rw [List.mem_singleton.mp hlast]
              exact hne
        · exact .inl ⟨_, List.mem_append_right _ (List.mem_singleton_self _),
            (List.mem_singleton.mp hlast).symm⟩

/-- What has been gathered after the loop. -/
theorem gatheredFrom_gather (checks : AddressChecks) (clock : ℕ → ℕ)
    (store : MemoryCacheStore TokenMetadata) (assets : List (Option Asset)) :
    GatheredFrom checks store assets (gather checks clock store assets) := by
  induction assets using List.reverseRecOn with
  | nil =>
    refine ⟨fun _ _ h => h, ?_, List.nodup_nil, ?_, ?_⟩
    · intro item hitem
      cases hitem
    · intro asset hasset
      cases hasset
    · intro key hkey
      cases hkey
  | append_singleton assets asset ih =>
    rw [gather, List.foldl_append, List.foldl_cons, List.foldl_nil, ← gather, Gathered.consider]
    cases ha : validateAsset checks asset with
    | error m =>
      refine ih.skip fun a h => ?_
      rw [ha] at h
      cases h
    | ok a =>
      obtain ⟨rfl, -⟩ := of_validateAsset ha
      dsimp only
      split
      · next hknown =>
        refine ih.skip fun b hb => ?_
        rw [ha] at hb
        cases hb
        exact hknown
      · next hnew => exact ih.lookUp ha hnew

end Gather

/-! ### What a step of the service can do -/

/- What runs goes on running, and there is no new entry in the cache. -/
structure Quiet (s s' : TokenMeta) : Prop where
  fetches : ∀ f ∈ s.fetches, f ∈ s'.fetches
  cached : ∀ k e, s'.tokenCache.cache.get k = some e → s.tokenCache.cache.get k = some e

section Service
variable {checks : AddressChecks} {s s' : TokenMeta} {w : Fetching}

theorem quiet_refl (s : TokenMeta) : Quiet s s := ⟨fun _ h => h, fun _ _ h => h⟩

theorem Unfetched.quiet (h : Unfetched s s') : Quiet s s' := by
  refine ⟨?_, h.cached⟩
  rw [h.fetches]
  exact fun _ hf => hf

theorem Requested.quiet {key : String} {answer : Answer} (h : Requested s key answer s') :
    Quiet s s' := by
  cases h with
  | cached hget hsame => exact hsame.quiet
  | joins hin hsame => exact hsame.quiet
  | starts ttlMs hin hbegun hfetches hinFlight hcached =>
    refine ⟨?_, hcached⟩
    rw [hfetches]
    exact fun _ hf => List.mem_append_left _ hf

theorem quiet_getTokenMetadata (s : TokenMeta) (asset : Option Asset) (options : MetadataOptions)
    (now : ℕ) : Quiet s (s.getTokenMetadata checks asset options now) := by
  unfold TokenMeta.getTokenMetadata
  split
  · exact quiet_refl s
  · exact (requested_request s _ options now).quiet

/- A step settles nothing, or it is the end of a fetch that runs. -/
theorem step_cases (s : TokenMeta) (a : TokenStep) :
    (Quiet s (s.step checks a) ∧ s.settles a = []) ∨
      ∃ f ∈ s.fetches, ∃ outcome now, s.step checks a = s.complete f outcome now ∧
        s.settles a = [(f.id, outcome.map fun t => t.metadata now f.id)] := by
  cases a with
  | getTokenMetadata asset options now => exact .inl ⟨quiet_getTokenMetadata s asset options now, rfl⟩
  | getFreshTokenMetadata asset now => exact .inl ⟨quiet_getTokenMetadata s asset ⟨none, true⟩ now, rfl⟩
  | completes fetch outcome now =>
    simp only [TokenMeta.step, TokenMeta.settles]
    cases hf : s.fetches.find? fun f => decide (f.id = fetch) with
    | none => exact .inl ⟨quiet_refl s, rfl⟩
    | some f => exact .inr ⟨f, List.mem_of_find?_eq_some hf, outcome, now, rfl, rfl⟩
  | invalidateTokenMetadata asset now =>
    simp only [TokenMeta.step]
    split
    · exact .inl ⟨quiet_refl s, rfl⟩
    · refine .inl ⟨⟨fun _ h => h, ?_⟩, rfl⟩
      intro k e hk
      have hk' : ((s.tokenCache.get (generateCacheKey _) now).2.cache.delete _).get k = some e := hk
      rw [OrdMap.get_delete] at hk'
      split at hk'
      · cases hk'
      · exact MemoryCacheStore.of_get_cache hk'

/- A fetch that runs goes on or settles. -/
theorem runs_or_settles {f : Fetch} (hf : f ∈ s.fetches) (a : TokenStep) :
    (∃ g ∈ (s.step checks a).fetches, g.id = f.id) ∨ ∃ r, (f.id, r) ∈ s.settles a := by
  rcases @step_cases checks s a with ⟨hquiet, -⟩ | ⟨g, hg, outcome, now, hstep, hsettles⟩
  · exact .inl ⟨f, hquiet.fetches f hf, rfl⟩
  · by_cases hid : f.id = g.id
    · rw [hsettles, hid]
      exact .inr ⟨_, List.mem_singleton_self _⟩
    · rw [hstep]
      refine .inl ⟨f, ?_, rfl⟩
      have hleft : f ∈ s.fetches.filter fun h => decide (h.id ≠ g.id) :=
        List.mem_filter.mpr ⟨hf, by rwa [decide_eq_true_eq]⟩
      cases outcome <;> exact hleft

/- What is cached after a step was cached, or a fetch has just obtained it. -/
theorem cached_or_settles {k : String} {e : CacheEntry TokenMetadata} {a : TokenStep}
    (hk : (s.step checks a).tokenCache.cache.get k = some e) :
    s.tokenCache.cache.get k = some e ∨ (e.value.fetch, some e.value) ∈ s.settles a := by
  rcases @step_cases checks s a with ⟨hquiet, -⟩ | ⟨f, hf, outcome, now, hstep, hsettles⟩
  · exact .inl (hquiet.cached k e hk)
  · rw [hstep] at hk
    rw [hsettles]
    cases outcome with
    | none => exact .inl hk
    | some t =>
      rcases MemoryCacheStore.of_set_cache hk with ⟨-, rfl⟩ | hold
      · exact .inr (List.mem_singleton_self _)
      · exact .inl hold

theorem fetch_of_settles {f : ℕ} {m : TokenMetadata} {a : TokenStep}
    (h : (f, some m) ∈ s.settles a) : m.fetch = f := by
  cases a with
  | completes fetch outcome now =>
    simp only [TokenMeta.settles, Option.mem_toList, Option.map_eq_some_iff] at h
    obtain ⟨g, -, hpair⟩ := h
    obtain ⟨rfl, hm⟩ := Prod.mk.inj hpair
    obtain ⟨t, -, rfl⟩ := Option.map_eq_some_iff.mp hm
    rfl
  | getTokenMetadata asset options now => cases h
  | getFreshTokenMetadata asset now => cases h
  | invalidateTokenMetadata asset now => cases h

theorem asked_step {f : ℕ} {src : Source} (a : TokenStep) (h : w.asked[f]? = some src) :
    (w.step checks a).asked[f]? = some src := by
  obtain ⟨hlt, -⟩ := List.getElem?_eq_some_iff.mp h
  simp only [Fetching.step, Fetching.follow]
  split
  · exact (List.getElem?_append_left hlt).trans h
  · exact h

end Service

namespace ResolveMany

/-! ### As a pool of workers -/

def kept : MissingAsset → Bool := fun _ => true

def pool (b : ResolveMany) : Pool MissingAsset := ⟨b.remaining, b.lookups.map Lookup.item, b.workers⟩

section Steps
variable {checks : AddressChecks} {options : ResolveOptions} {b : ResolveMany}

theorem hand_pool (b : ResolveMany) : b.awaited = b.pool.hand kept := by
  rw [awaited, Pool.hand, pool, List.length_map, Pool.nextItem]
  cases b.remaining <;> rfl

theorem pool_startNext (b : ResolveMany) (now : ℕ) :
    (b.startNext checks options now).pool = b.pool.draw kept := by
  unfold startNext
  cases hremaining : b.remaining with
  | nil =>
    rw [pool, Pool.draw, Pool.nextItem, hremaining]
    simp [Pool.takeNext]
  | cons item rest =>
    simp only [pool, Pool.draw, Pool.nextItem, hremaining, List.map_append]
    rfl

theorem pool_startWorker (b : ResolveMany) (now : ℕ) :
    (b.startWorker checks options now).pool = b.pool.hire kept := by
  rw [Pool.hire, ← @pool_startNext checks options b now, ← hand_pool]
  rfl

theorem pool_goOn (b : ResolveMany) (w now : ℕ) :
    (b.goOn checks options w now).pool = b.pool.next kept w := by
  rw [Pool.next, ← @pool_startNext checks options b now, ← hand_pool]
  rfl

theorem pool_launch (clock : ℕ → ℕ) {items : List MissingAsset} (hpool : b.pool = ⟨items, [], []⟩)
    (n : ℕ) : (launch checks options clock b n).pool = Pool.launch kept items n := by
  induction n with
  | zero => exact hpool
  | succ n ih => rw [launch, pool_startWorker, ih, Pool.launch]

/- What it is for a worker to go on: nothing, while the fetch that it waits for runs. -/
inductive Resumed (checks : AddressChecks) (options : ResolveOptions) (b : ResolveMany) (w now : ℕ) :
    ResolveMany → Prop where
  | idle : Resumed checks options b w now b
  | records {k : ℕ} {l : Lookup} {metadata : Option TokenMetadata} (hw : b.workers[w]? = some (some k))
      (hk : b.lookups[k]? = some l) (hout : b.outcome l.answer = some metadata) :
      Resumed checks options b w now ((b.record l metadata).goOn checks options w now)

theorem step_goesOn (b : ResolveMany) (w now : ℕ) :
    Resumed checks options b w now (b.step checks options (.goesOn w now)) := by
  simp only [step]
  split
  · next k hw =>
    split
    · next l hk =>
      unfold resume
      split
      · exact .idle
      · next metadata hout => exact .records hw hk hout
    · exact .idle
  · exact .idle

end Steps

/-! ### Answers are of the source -/

/- Metadata of the source that was cached when the call was made, or obtained since. -/
def Obtained (store : MemoryCacheStore TokenMetadata) (b : ResolveMany) (src : Source)
    (m : TokenMetadata) : Prop :=
  b.service.asked[m.fetch]? = some src ∧
    ((∃ e, store.cache.get src.key = some e ∧ e.value = m) ∨ (m.fetch, some m) ∈ b.settled)

/- A fetch that asked the source and runs until it settles. -/
def Asked (b : ResolveMany) (fetch : ℕ) (src : Source) : Prop :=
  b.service.asked[fetch]? = some src ∧
    ((∃ g ∈ b.service.tokens.fetches, g.id = fetch) ∨ ∃ r, (fetch, r) ∈ b.settled)

def Awaits (store : MemoryCacheStore TokenMetadata) (b : ResolveMany) (src : Source) : Answer → Prop
  | .cached metadata => b.Obtained store src metadata
  | .joins fetch => b.Asked fetch src
  | .starts fetch => b.Asked fetch src

structure Serving (store : MemoryCacheStore TokenMetadata) (b : ResolveMany) : Prop where
  service : Consistent b.service
  stored : ∀ k e, store.cache.get k = some e → b.service.Asks e.value.fetch k
  cached : ∀ k e, b.service.tokens.tokenCache.cache.get k = some e →
    (∃ e₀, store.cache.get k = some e₀ ∧ e₀.value = e.value) ∨
      (e.value.fetch, some e.value) ∈ b.settled
  settled : ∀ f m, (f, some m) ∈ b.settled → m.fetch = f
  awaits : ∀ l ∈ b.lookups, b.Awaits store (sourceOf l.item.asset) l.answer

section Serving
variable {checks : AddressChecks} {options : ResolveOptions} {b : ResolveMany}
  {store : MemoryCacheStore TokenMetadata}

theorem Awaits.serve {src : Source} {answer : Answer} (h : b.Awaits store src answer) (a : TokenStep) :
    (b.serve checks a).Awaits store src answer := by
  have hasked : ∀ f, b.Asked f src → (b.serve checks a).Asked f src := by
    rintro f ⟨hsrc, hruns⟩
    refine ⟨asked_step a hsrc, ?_⟩
    rcases hruns with ⟨g, hg, rfl⟩ | ⟨r, hr⟩
    · rcases @runs_or_settles checks _ g hg a with hgoes | ⟨r, hr⟩
      · exact .inl hgoes
      · exact .inr ⟨r, List.mem_append_right _ hr⟩
    · exact .inr ⟨r, List.mem_append_left _ hr⟩
  cases answer with
  | cached m =>
    obtain ⟨hsrc, hfrom⟩ := h
    exact ⟨asked_step a hsrc, hfrom.imp_right fun hm => List.mem_append_left _ hm⟩
  | joins f => exact hasked f h
  | starts f => exact hasked f h

theorem Serving.serve (h : Serving store b) (a : TokenStep) : Serving store (b.serve checks a) := by
  refine ⟨h.service.step a, ?_, ?_, ?_, fun l hl => (h.awaits l hl).serve a⟩
  · intro k e hk
    obtain ⟨src, hsrc, hproper, hkey⟩ := h.stored k e hk
    exact ⟨src, asked_step a hsrc, hproper, hkey⟩
  · intro k e hk
    rcases cached_or_settles hk with hold | hnew
    · exact (h.cached k e hold).imp_right fun hm => List.mem_append_left _ hm
    · exact .inr (List.mem_append_right _ hnew)
  · intro f m hm
    rcases List.mem_append.mp hm with hold | hnew
    · exact h.settled f m hold
    · exact fetch_of_settles hnew

theorem step_call (w : Fetching) (options : MetadataOptions) (now : ℕ) {item : MissingAsset}
    (hvalid : validateAsset checks (some item.asset) = .ok item.asset)
    (hkey : item.key = generateCacheKey item.asset) :
    w.step checks (.getTokenMetadata (some item.asset) options now) =
      w.follow (some (sourceOf item.asset)) (w.tokens.request item.key options now) := by
  simp only [Fetching.step, TokenMeta.step, TokenMeta.getTokenMetadata, TokenStep.source, hvalid, hkey]
  rfl

/- What the call for a missing asset waits for. -/
theorem Serving.awaits_call (h : Serving store b) {item : MissingAsset} (now : ℕ)
    (hvalid : validateAsset checks (some item.asset) = .ok item.asset)
    (hkey : item.key = generateCacheKey item.asset) :
    (b.serve checks (.getTokenMetadata (some item.asset) options.metadata now)).Awaits store
      (sourceOf item.asset) (b.service.tokens.answer item.key false now) := by
  have hsource : item.key = (sourceOf item.asset).key := hkey.trans (generateCacheKey_eq hvalid)
  have hcall := requested_request b.service.tokens item.key options.metadata now
  have hstep := step_call b.service options.metadata now hvalid hkey
  have hproper := sourceOf_valid hvalid
  rw [hsource] at hcall hstep ⊢
  change Requested _ _ (b.service.tokens.answer (sourceOf item.asset).key false now) _ at hcall
  generalize b.service.tokens.answer (sourceOf item.asset).key false now = answer at hcall ⊢
  generalize b.service.tokens.request _ _ now = s' at hcall hstep
  cases hcall with
  | @cached _ e hget hsame =>
    have hsrc := (h.service.cached _ e hget).asked_eq hproper
    have hheld : b.Awaits store (sourceOf item.asset) (.cached e.value) := ⟨hsrc, h.cached _ e hget⟩
    exact hheld.serve _
  | joins hin hsame =>
    obtain ⟨g, hg, hgkey, rfl⟩ := h.service.tracked _ _ hin
    have hsrc := (hgkey ▸ h.service.running g hg).asked_eq hproper
    have hheld : b.Awaits store (sourceOf item.asset) (.joins g.id) := ⟨hsrc, .inl ⟨g, hg, rfl⟩⟩
    exact hheld.serve _
  | starts ttlMs hin hbegun hfetches hinFlight hcached =>
    constructor
    · change (b.service.step checks _).asked[_]? = _
      rw [hstep, Fetching.follow, if_pos (by rw [hbegun]; exact Nat.lt_succ_self _), ← h.service.begun]
      exact List.getElem?_concat_length
    · left
      change ∃ g ∈ (b.service.step checks _).tokens.fetches, _
      rw [hstep]
      change ∃ g ∈ s'.fetches, _
      rw [hfetches]
      exact ⟨_, List.mem_append_right _ (List.mem_singleton_self _), rfl⟩

theorem Serving.startNext (h : Serving store b) (now : ℕ)
    (hvalid : ∀ item ∈ b.remaining, validateAsset checks (some item.asset) = .ok item.asset ∧
      item.key = generateCacheKey item.asset) : Serving store (b.startNext checks options now) := by
  unfold ResolveMany.startNext
  cases hremaining : b.remaining with
  | nil => exact h
  | cons item rest =>
    obtain ⟨hok, hkey⟩ := hvalid item (hremaining ▸ List.mem_cons_self ..)
    have hserve := @Serving.serve checks b store h
      (.getTokenMetadata (some item.asset) options.metadata now)
    refine ⟨hserve.service, hserve.stored, hserve.cached, hserve.settled, ?_⟩
    intro l hl
    rcases List.mem_append.mp hl with hold | hnew
    · exact hserve.awaits l hold
    · rw [List.mem_singleton.mp hnew]
      exact h.awaits_call now hok hkey

end Serving

/-! ### A call in progress -/

/- The missing assets are valid, and no two have the same key. -/
structure Missing (checks : AddressChecks) (items : List MissingAsset) : Prop where
  valid : ∀ item ∈ items, validateAsset checks (some item.asset) = .ok item.asset ∧
    item.key = generateCacheKey item.asset
  nodup : (items.map MissingAsset.key).Nodup

/-- The call with the numbers of the lookups that its workers are done with: these are written
down, and what phase 1 wrote under other keys is still there. -/
structure Resolving (store : MemoryCacheStore TokenMetadata)
    (found : OrdMap String (Option TokenMetadata)) (items : List MissingAsset) (done : List ℕ)
    (b : ResolveMany) : Prop where
  sound : Pool.Sound kept items done b.pool
  serving : Serving store b
  written : ∀ k ∈ done, ∀ l, b.lookups[k]? = some l → ∃ r, b.outcome l.answer = some r ∧
    b.resultsByKey.get l.item.key = some r
  others : ∀ key, (∀ item ∈ items, item.key ≠ key) → b.resultsByKey.get key = found.get key

section Resolving
variable {checks : AddressChecks} {options : ResolveOptions} {b : ResolveMany}
  {store : MemoryCacheStore TokenMetadata} {found : OrdMap String (Option TokenMetadata)}
  {items : List MissingAsset} {done : List ℕ}

theorem filter_kept (items : List MissingAsset) : items.filter kept = items :=
  List.filter_eq_self.mpr fun _ _ => rfl

theorem Resolving.inOrder (h : Resolving store found items done b) :
    b.lookups.map Lookup.item ++ b.remaining = items := by
  have hinOrder := h.sound.inOrder
  rw [Pool.InOrder, filter_kept, filter_kept] at hinOrder
  exact hinOrder

theorem Resolving.remaining_subset (h : Resolving store found items done b) :
    ∀ item ∈ b.remaining, item ∈ items := by
  intro item hitem
  rw [← h.inOrder]
  exact List.mem_append_right _ hitem

theorem Resolving.item_mem (h : Resolving store found items done b) {l : Lookup} (hl : l ∈ b.lookups) :
    l.item ∈ items := by
  rw [← h.inOrder]
  exact List.mem_append_left _ (List.mem_map_of_mem hl)

/- The keys of the lookups are as different as those of the missing assets. -/
theorem Resolving.keys_nodup (h : Resolving store found items done b) (hitems : Missing checks items) :
    (b.lookups.map fun l => l.item.key).Nodup := by
  have hnodup := hitems.nodup
  rw [← h.inOrder, List.map_append, List.map_map] at hnodup
  exact (List.nodup_append.mp hnodup).1

theorem outcomeOf_serve {f : ℕ} {r : Option TokenMetadata} (a : TokenStep)
    (h : b.outcomeOf f = some r) : (b.serve checks a).outcomeOf f = some r := by
  obtain ⟨s, hs, rfl⟩ := Option.map_eq_some_iff.mp h
  rw [outcomeOf, ResolveMany.serve, List.find?_append, hs]
  rfl

theorem outcome_serve {answer : Answer} {r : Option TokenMetadata} (a : TokenStep)
    (h : b.outcome answer = some r) : (b.serve checks a).outcome answer = some r := by
  cases answer with
  | cached m => exact h
  | joins f => exact outcomeOf_serve a h
  | starts f => exact outcomeOf_serve a h

theorem outcome_startNext {answer : Answer} {r : Option TokenMetadata} (now : ℕ)
    (h : b.outcome answer = some r) : (b.startNext checks options now).outcome answer = some r := by
  unfold startNext
  split
  · exact h
  · exact @outcome_serve checks b answer r _ h

theorem Resolving.serve (h : Resolving store found items done b) (a : TokenStep) :
    Resolving store found items done (b.serve checks a) := by
  refine ⟨h.sound, h.serving.serve a, ?_, h.others⟩
  intro k hk l hl
  obtain ⟨r, hr, hwritten⟩ := h.written k hk l hl
  exact ⟨r, outcome_serve a hr, hwritten⟩

theorem lookups_startNext {k : ℕ} (now : ℕ) (hk : k < b.lookups.length) :
    (b.startNext checks options now).lookups[k]? = b.lookups[k]? := by
  unfold startNext
  split
  · rfl
  · exact List.getElem?_append_left hk

theorem resultsByKey_startNext (b : ResolveMany) (now : ℕ) :
    (b.startNext checks options now).resultsByKey = b.resultsByKey := by
  unfold startNext
  split <;> rfl

theorem Resolving.lt_length (h : Resolving store found items done b) {k : ℕ} (hk : k ∈ done) :
    k < b.lookups.length := by
  have hmem := h.sound.numbers.subset (List.mem_append_left _ hk)
  rw [List.mem_range, pool, List.length_map] at hmem
  exact hmem

theorem Resolving.not_done (h : Resolving store found items done b) {w k : ℕ}
    (hw : b.workers[w]? = some (some k)) : k ∉ done := by
  have hnodup := h.sound.numbers.nodup_iff.mpr List.nodup_range
  have hheld : k ∈ b.workers.reduceOption := List.reduceOption_mem_iff.mpr (List.mem_of_getElem? hw)
  intro hdone
  exact (List.nodup_append.mp hnodup).2.2 k hdone k hheld rfl

/- The next worker starts. -/
theorem Resolving.startWorker (h : Resolving store found items done b) (hitems : Missing checks items)
    (now : ℕ) : Resolving store found items done (b.startWorker checks options now) := by
  refine ⟨?_, ?_, ?_, ?_⟩
  · rw [pool_startWorker]
    exact h.sound.hire
  · have hserving := @Serving.startNext checks options b store h.serving now
      fun item hitem => hitems.valid item (h.remaining_subset item hitem)
    exact ⟨hserving.service, hserving.stored, hserving.cached, hserving.settled, hserving.awaits⟩
  · intro k hk l hl
    have hl' := (@lookups_startNext checks options b k now (h.lt_length hk)).symm.trans hl
    obtain ⟨r, hr, hwritten⟩ := h.written k hk l hl'
    refine ⟨r, @outcome_startNext checks options b _ _ now hr, ?_⟩
    exact (congrArg (·.get l.item.key) (resultsByKey_startNext b now)).trans hwritten
  · intro key hkey
    exact (congrArg (·.get key) (resultsByKey_startNext b now)).trans (h.others key hkey)

/- A worker writes down what its lookup came to and goes on. -/
theorem Resolving.goOn (h : Resolving store found items done b) (hitems : Missing checks items)
    {w k : ℕ} {l : Lookup} {r : Option TokenMetadata} (hw : b.workers[w]? = some (some k))
    (hk : b.lookups[k]? = some l) (hout : b.outcome l.answer = some r) (now : ℕ) :
    Resolving store found items (done ++ [k]) ((b.record l r).goOn checks options w now) := by
  have hresults : ((b.record l r).startNext checks options now).resultsByKey =
      b.resultsByKey.set l.item.key r := resultsByKey_startNext (b.record l r) now
  refine ⟨?_, ?_, ?_, ?_⟩
  · rw [pool_goOn]
    exact h.sound.next hw
  · have hrecord : Serving store (b.record l r) :=
      ⟨h.serving.service, h.serving.stored, h.serving.cached, h.serving.settled, h.serving.awaits⟩
    have hserving := @Serving.startNext checks options _ store hrecord now
      fun item hitem => hitems.valid item (h.remaining_subset item hitem)
    exact ⟨hserving.service, hserving.stored, hserving.cached, hserving.settled, hserving.awaits⟩
  · intro j hj l' hl'
    have hlt : j < b.lookups.length := by
      rcases List.mem_append.mp hj with hold | hlast
      · exact h.lt_length hold
      · rw [List.mem_singleton.mp hlast]
        exact (List.getElem?_eq_some_iff.mp hk).1
    have hl := (@lookups_startNext checks options (b.record l r) j now hlt).symm.trans hl'
    rcases List.mem_append.mp hj with hold | hlast
    · obtain ⟨r', hr', hwritten⟩ := h.written j hold l' hl
      refine ⟨r', @outcome_startNext checks options (b.record l r) _ _ now hr', ?_⟩
      -- another lookup, and so another key
      have hne : l.item.key ≠ l'.item.key := by
        intro hsame
        have hindex : (b.lookups.map fun l => l.item.key)[j]? = (b.lookups.map fun l => l.item.key)[k]? := by
          rw [List.getElem?_map, List.getElem?_map, hk]
          exact (congrArg (Option.map fun l => l.item.key) hl).trans (congrArg some hsame.symm)
        have hjk := (List.getElem?_inj (by rwa [List.length_map]) (h.keys_nodup hitems)).mp hindex
        exact h.not_done hw (hjk ▸ hold)
      change ((b.record l r).startNext checks options now).resultsByKey.get _ = _
      rw [hresults, OrdMap.get_set_of_ne _ _ hne]
      exact hwritten
    · rw [List.mem_singleton.mp hlast] at hl
      obtain rfl := Option.some.inj (hk.symm.trans hl)
      refine ⟨r, @outcome_startNext checks options (b.record l r) _ _ now hout, ?_⟩
      change ((b.record l r).startNext checks options now).resultsByKey.get _ = _
      rw [hresults, OrdMap.get_set_self]
  · intro key hkey
    change ((b.record l r).startNext checks options now).resultsByKey.get _ = _
    rw [hresults, OrdMap.get_set_of_ne _ _ (hkey l.item (h.item_mem (List.mem_of_getElem? hk)))]
    exact h.others key hkey

theorem Resolving.step (h : Resolving store found items done b) (hitems : Missing checks items)
    (e : ResolveEvent) : ∃ done', Resolving store found items done' (b.step checks options e) := by
  cases e with
  | outside a => exact ⟨done, h.serve a⟩
  | goesOn w now =>
    have hresumed := @step_goesOn checks options b w now
    generalize b.step checks options (.goesOn w now) = b' at hresumed ⊢
    cases hresumed with
    | idle => exact ⟨done, h⟩
    | records hw hk hout => exact ⟨_, h.goOn hitems hw hk hout now⟩

end Resolving

/-! ### A call ends -/

/- The lookups whose fetch runs. -/
def unsettled (b : ResolveMany) : ℕ := b.lookups.countP fun l => (b.outcome l.answer).isNone

/- What is left to do, for a missing asset to be taken two: its fetch, and the worker to go on. -/
def load (b : ResolveMany) : ℕ := 2 * b.pool.load kept + b.unsettled

/- A worker can go on, or a fetch that it waits for runs; either brings the end nearer. -/
def Advances (checks : AddressChecks) (options : ResolveOptions) (b : ResolveMany) : Prop :=
  (∃ w, ∀ now, (b.step checks options (.goesOn w now)).load < b.load) ∨
    ∃ f ∈ b.service.tokens.fetches, ∀ outcome now,
      (b.step checks options (.outside (.completes f.id outcome now))).load < b.load

section Load
variable {checks : AddressChecks} {options : ResolveOptions} {b : ResolveMany}
  {store : MemoryCacheStore TokenMetadata} {found : OrdMap String (Option TokenMetadata)}
  {items : List MissingAsset} {done : List ℕ}

theorem isNone_of_serve {a : TokenStep} {answer : Answer}
    (h : ((b.serve checks a).outcome answer).isNone = true) : (b.outcome answer).isNone = true := by
  cases hr : b.outcome answer with
  | none => rfl
  | some r =>
    rw [outcome_serve a hr] at h
    cases h

theorem load_serve_le (a : TokenStep) : (b.serve checks a).load ≤ b.load := by
  refine Nat.add_le_add_left ?_ _
  exact List.countP_mono_left fun l _ hl => isNone_of_serve hl

theorem load_serve_lt {a : TokenStep} {l : Lookup} (hl : l ∈ b.lookups) (hopen : b.outcome l.answer = none)
    {r : Option TokenMetadata} (hsettles : (b.serve checks a).outcome l.answer = some r) :
    (b.serve checks a).load < b.load := by
  refine Nat.add_lt_add_left ?_ _
  have hsub : (b.serve checks a).unsettled ≤
      (b.lookups.filter fun l => (b.outcome l.answer).isNone).countP fun l =>
        ((b.serve checks a).outcome l.answer).isNone := by
    rw [List.countP_filter]
    refine List.countP_mono_left fun l _ hl => ?_
    rw [Bool.and_eq_true]
    exact ⟨hl, isNone_of_serve hl⟩
  refine Nat.lt_of_le_of_lt hsub ?_
  have hlength : b.unsettled = (b.lookups.filter fun l => (b.outcome l.answer).isNone).length :=
    List.countP_eq_length_filter
  rw [hlength]
  refine List.countP_lt_length_iff.mpr ⟨l, List.mem_filter.mpr ⟨hl, ?_⟩, ?_⟩
  · rw [hopen]
    rfl
  · rw [hsettles]
    rfl

theorem unsettled_startNext_le (b : ResolveMany) (now : ℕ) :
    (b.startNext checks options now).unsettled ≤ b.unsettled + 1 := by
  unfold startNext
  cases b.remaining with
  | nil => exact Nat.le_succ _
  | cons item rest =>
    rw [unsettled, List.countP_append]
    refine Nat.add_le_add ?_ List.countP_le_length
    exact List.countP_mono_left fun l _ hl => @isNone_of_serve checks b _ _ hl

theorem load_goOn_lt {w k : ℕ} (l : Lookup) (r : Option TokenMetadata)
    (hw : b.workers[w]? = some (some k)) (now : ℕ) :
    ((b.record l r).goOn checks options w now).load < b.load := by
  have hpool : (b.pool.next kept w).load kept + 1 = b.pool.load kept := Pool.load_next hw
  have hopen : ((b.record l r).goOn checks options w now).unsettled ≤ b.unsettled + 1 :=
    unsettled_startNext_le (b.record l r) now
  have hsame : (b.record l r).pool = b.pool := rfl
  rw [load, load, pool_goOn, hsame]
  omega

theorem load_step_le (e : ResolveEvent) : (b.step checks options e).load ≤ b.load := by
  cases e with
  | outside a => exact load_serve_le a
  | goesOn w now =>
    have hresumed := @step_goesOn checks options b w now
    generalize b.step checks options (.goesOn w now) = b' at hresumed ⊢
    cases hresumed with
    | idle => exact le_rfl
    | records hw hk hout => exact (load_goOn_lt _ _ hw now).le

theorem outcomeOf_of_mem {f : ℕ} {r : Option TokenMetadata} (h : (f, r) ∈ b.settled) :
    ∃ r', b.outcomeOf f = some r' := by
  have hfound : (b.settled.find? fun s => decide (s.1 = f)).isSome = true :=
    List.find?_isSome.mpr ⟨(f, r), h, decide_eq_true rfl⟩
  obtain ⟨s, hs⟩ := Option.isSome_iff_exists.mp hfound
  exact ⟨s.2, by rw [outcomeOf, hs]; rfl⟩

theorem settled_of_outcomeOf {f : ℕ} {r : Option TokenMetadata} (h : b.outcomeOf f = some r) :
    (f, r) ∈ b.settled := by
  obtain ⟨⟨g, r'⟩, hs, rfl⟩ := Option.map_eq_some_iff.mp h
  have hg : g = f := by simpa using List.find?_some hs
  rw [← hg]
  exact List.mem_of_find?_eq_some hs

/- The end of a fetch that runs settles it. -/
theorem outcomeOf_completes {g : Fetch} (hg : g ∈ b.service.tokens.fetches)
    (outcome : Option FetchedToken) (now : ℕ) :
    ∃ r, (b.serve checks (.completes g.id outcome now)).outcomeOf g.id = some r := by
  have hfound : (b.service.tokens.fetches.find? fun f => decide (f.id = g.id)).isSome = true :=
    List.find?_isSome.mpr ⟨g, hg, decide_eq_true rfl⟩
  obtain ⟨f, hf⟩ := Option.isSome_iff_exists.mp hfound
  have hid : f.id = g.id := by simpa using List.find?_some hf
  have hmem : (g.id, outcome.map fun t => t.metadata now f.id) ∈
      b.service.tokens.settles (.completes g.id outcome now) := by
    simp only [TokenMeta.settles, hf, Option.map_some, Option.toList_some, hid]
    exact List.mem_singleton_self _
  exact outcomeOf_of_mem (List.mem_append_right _ hmem)

theorem Resolving.advances (h : Resolving store found items done b) (hwaits : ¬ b.Ended) :
    Advances checks options b := by
  simp only [Ended, not_forall] at hwaits
  obtain ⟨hand, hmem, hne⟩ := hwaits
  obtain ⟨k, rfl⟩ := Option.ne_none_iff_exists'.mp hne
  obtain ⟨w, hw⟩ := List.mem_iff_getElem?.mp hmem
  have hlt : k < b.lookups.length := by
    have hnumber := h.sound.numbers.subset
      (List.mem_append_right _ (List.reduceOption_mem_iff.mpr hmem))
    rw [List.mem_range, pool, List.length_map] at hnumber
    exact hnumber
  obtain ⟨l, hk⟩ : ∃ l, b.lookups[k]? = some l := ⟨_, List.getElem?_eq_getElem hlt⟩
  cases hout : b.outcome l.answer with
  | some r =>
    refine .inl ⟨w, fun now => ?_⟩
    have hstep : b.step checks options (.goesOn w now) = (b.record l r).goOn checks options w now := by
      simp only [ResolveMany.step, hw, hk, resume, hout]
    rw [hstep]
    exact load_goOn_lt l r hw now
  | none =>
    have hl := List.mem_of_getElem? hk
    have hwait := h.serving.awaits l hl
    obtain ⟨f, hsame, hasked⟩ : ∃ f, (∀ c : ResolveMany, c.outcome l.answer = c.outcomeOf f) ∧
        b.Asked f (sourceOf l.item.asset) := by
      cases hanswer : l.answer with
      | cached m =>
        rw [hanswer] at hout
        cases hout
      | joins f => exact ⟨f, fun _ => rfl, by rwa [hanswer] at hwait⟩
      | starts f => exact ⟨f, fun _ => rfl, by rwa [hanswer] at hwait⟩
    rcases hasked.2 with ⟨g, hg, rfl⟩ | ⟨r, hr⟩
    · refine .inr ⟨g, hg, fun outcome now => ?_⟩
      obtain ⟨r, hr⟩ := @outcomeOf_completes checks b g hg outcome now
      exact load_serve_lt hl hout ((hsame _).trans hr)
    · obtain ⟨r', hr'⟩ := outcomeOf_of_mem hr
      rw [hsame, hr'] at hout
      cases hout

end Load

/-! ### What the call returns -/

/- Metadata of the source, or a fetch of it that failed. -/
def Answered (store : MemoryCacheStore TokenMetadata) (b : ResolveMany) (src : Source) :
    Option TokenMetadata → Prop
  | some metadata => b.Obtained store src metadata
  | none => ∃ f, b.service.asked[f]? = some src ∧ (f, none) ∈ b.settled

/-- There is one entry for each asset, in their order: null for an invalid one, else what the
source of the asset came to, which is the same wherever the source occurs. -/
def Positional (checks : AddressChecks) (store : MemoryCacheStore TokenMetadata)
    (assets : List (Option Asset)) (b : ResolveMany) : Prop :=
  ∃ answer : Source → Option TokenMetadata,
    b.results checks assets = assets.map (fun asset => (validSource checks asset).bind answer) ∧
      ∀ asset ∈ assets, ∀ src, validSource checks asset = some src →
        b.Answered store src (answer src)

/- The sources of the valid assets, each once. -/
def distinctSources (checks : AddressChecks) (assets : List (Option Asset)) : List Source :=
  (assets.filterMap (validSource checks)).dedup

section Answers
variable {checks : AddressChecks} {options : ResolveOptions} {b : ResolveMany} {g : Gathered}
  {store : MemoryCacheStore TokenMetadata} {assets : List (Option Asset)} {done : List ℕ}

theorem validSource_eq_some {asset : Option Asset} {src : Source}
    (h : validSource checks asset = some src) :
    ∃ a, validateAsset checks asset = .ok a ∧ sourceOf a = src := by
  unfold validSource at h
  cases ha : validateAsset checks asset with
  | error m =>
    rw [ha] at h
    cases h
  | ok a =>
    rw [ha] at h
    exact ⟨a, rfl, Option.some.inj h⟩

theorem Serving.answered (h : Serving store b) {l : Lookup} (hl : l ∈ b.lookups)
    {r : Option TokenMetadata} (hout : b.outcome l.answer = some r) :
    b.Answered store (sourceOf l.item.asset) r := by
  have hfetch : ∀ f, b.Asked f (sourceOf l.item.asset) → b.outcomeOf f = some r →
      b.Answered store (sourceOf l.item.asset) r := by
    intro f hasked hr
    have hmem := settled_of_outcomeOf hr
    cases r with
    | none => exact ⟨f, hasked.1, hmem⟩
    | some m =>
      obtain rfl := h.settled f m hmem
      exact ⟨hasked.1, .inr hmem⟩
  have hawaits := h.awaits l hl
  cases hanswer : l.answer with
  | cached m =>
    rw [hanswer] at hawaits hout
    cases hout
    exact hawaits
  | joins f =>
    rw [hanswer] at hawaits hout
    exact hfetch f hawaits hout
  | starts f =>
    rw [hanswer] at hawaits hout
    exact hfetch f hawaits hout

theorem missing_of_gathered (hg : GatheredFrom checks store assets g) :
    Missing checks g.missingAssets :=
  ⟨fun item hitem => ⟨(hg.items item hitem).2.1, (hg.items item hitem).2.2.1⟩, hg.nodup⟩

/- Once all workers have ended every valid asset has its answer. -/
theorem Resolving.answered (h : Resolving store g.resultsByKey g.missingAssets done b)
    (hg : GatheredFrom checks store assets g) (hended : b.Ended)
    (hworkers : b.workers ≠ [] ∨ g.missingAssets = []) {asset : Option Asset} {a : Asset}
    (hmem : asset ∈ assets) (ha : validateAsset checks asset = .ok a) :
    b.Answered store (sourceOf a) (b.resultsByKey.get (sourceOf a).key).join := by
  have hunique := hg.covers asset hmem a ha
  rw [generateCacheKey_eq ha] at hunique
  rcases hg.found _ hunique with ⟨item, hitem, hkey⟩ | ⟨hno, e, he, hres⟩
  · obtain ⟨-, hvalid, hitemKey, -⟩ := hg.items item hitem
    have hsource : sourceOf item.asset = sourceOf a := by
      refine Source.key_injective (sourceOf_valid hvalid) (sourceOf_valid ha) ?_
      rw [← generateCacheKey_eq hvalid, ← hitemKey, hkey]
    have hworkers' : b.pool.hands ≠ [] ∨ g.missingAssets.filter kept = [] := by
      rw [filter_kept]
      exact hworkers
    obtain ⟨htaken, hdone⟩ := h.sound.done_perm hended hworkers'
    rw [filter_kept] at htaken
    change b.lookups.map Lookup.item = g.missingAssets at htaken
    rw [← htaken] at hitem
    obtain ⟨l, hl, rfl⟩ := List.mem_map.mp hitem
    obtain ⟨k, hk⟩ := List.mem_iff_getElem?.mp hl
    have hlt := (List.getElem?_eq_some_iff.mp hk).1
    rw [pool, List.length_map] at hdone
    obtain ⟨r, hout, hwritten⟩ := h.written k (hdone.symm.subset (List.mem_range.mpr hlt)) l hk
    rw [← hkey, hwritten, Option.join_some, ← hsource]
    exact h.serving.answered hl hout
  · rw [h.others _ hno, hres, Option.join_some]
    exact ⟨(h.serving.stored _ e he).asked_eq (sourceOf_valid ha), .inl ⟨e, he, rfl⟩⟩

theorem Resolving.positional (h : Resolving store g.resultsByKey g.missingAssets done b)
    (hg : GatheredFrom checks store assets g) (hended : b.Ended)
    (hworkers : b.workers ≠ [] ∨ g.missingAssets = []) : b.Positional checks store assets := by
  refine ⟨fun src => (b.resultsByKey.get src.key).join, ?_, ?_⟩
  · refine List.map_congr_left fun asset _ => ?_
    unfold validSource
    cases ha : validateAsset checks asset with
    | error m => rfl
    | ok a => exact congrArg (fun key => (b.resultsByKey.get key).join) (generateCacheKey_eq ha)
  · intro asset hmem src hsrc
    obtain ⟨a, ha, rfl⟩ := validSource_eq_some hsrc
    exact h.answered hg hended hworkers hmem ha

/-! ### The fetches that it starts -/

theorem Serving.asked_of_starts (h : Serving store b) {l : Lookup} (hl : l ∈ b.lookups) {f : ℕ}
    (hf : l.starts = some f) : b.service.asked[f]? = some (sourceOf l.item.asset) := by
  have hawaits := h.awaits l hl
  cases hanswer : l.answer with
  | starts f' =>
    rw [Lookup.starts, hanswer] at hf
    cases hf
    rw [hanswer] at hawaits
    exact hawaits.1
  | cached m =>
    rw [Lookup.starts, hanswer] at hf
    cases hf
  | joins f' =>
    rw [Lookup.starts, hanswer] at hf
    cases hf

/- No two of them ask the same source. -/
theorem Resolving.started_nodup {items : List MissingAsset}
    {found : OrdMap String (Option TokenMetadata)} (h : Resolving store found items done b)
    (hitems : Missing checks items) : (b.started.map fun f => b.service.asked[f]?).Nodup := by
  have hkeys := h.keys_nodup hitems
  rw [List.Nodup, List.pairwise_map] at hkeys
  rw [List.Nodup, List.pairwise_map, started, List.pairwise_filterMap]
  refine hkeys.imp_of_mem fun {l l'} hl hl' hne f hf f' hf' hsame => hne ?_
  rw [h.serving.asked_of_starts hl hf, h.serving.asked_of_starts hl' hf'] at hsame
  obtain ⟨hvalid, hkey⟩ := hitems.valid _ (h.item_mem hl)
  obtain ⟨hvalid', hkey'⟩ := hitems.valid _ (h.item_mem hl')
  rw [hkey, hkey', generateCacheKey_eq hvalid, generateCacheKey_eq hvalid', Option.some.inj hsame]

theorem Resolving.outstanding_le_sources (h : Resolving store g.resultsByKey g.missingAssets done b)
    (hg : GatheredFrom checks store assets g) :
    b.outstanding ≤ (distinctSources checks assets).length := by
  have hsub : (b.started.map fun f => b.service.asked[f]?) ⊆ (distinctSources checks assets).map some := by
    intro x hx
    obtain ⟨f, hf, rfl⟩ := List.mem_map.mp hx
    obtain ⟨l, hl, hstarts⟩ := List.mem_filterMap.mp hf
    obtain ⟨hmem, hvalid, -, -⟩ := hg.items _ (h.item_mem hl)
    rw [h.serving.asked_of_starts hl hstarts]
    refine List.mem_map_of_mem (List.mem_dedup.mpr (List.mem_filterMap.mpr ⟨_, hmem, ?_⟩))
    rw [validSource, hvalid]
    rfl
  have hlength := (List.subperm_of_subset (h.started_nodup (missing_of_gathered hg)) hsub).length_le
  rw [List.length_map, List.length_map] at hlength
  exact Nat.le_trans List.countP_le_length hlength

/- A fetch that runs is waited for by a worker. -/
theorem Resolving.outstanding_le_workers {items : List MissingAsset}
    {found : OrdMap String (Option TokenMetadata)} (h : Resolving store found items done b) :
    b.outstanding ≤ b.workers.length := by
  have hlookups : b.outstanding = b.lookups.countP fun l =>
      l.starts.any fun f => (b.outcomeOf f).isNone := by
    rw [outstanding, started, List.countP_filterMap]
    refine List.countP_congr fun l _ => ?_
    cases l.starts <;> simp
  have hdone : ∀ k ∈ done, (b.lookups[k]?.any fun l => l.starts.any fun f => (b.outcomeOf f).isNone) =
      false := by
    intro k hk
    cases hl : b.lookups[k]? with
    | none => rfl
    | some l =>
      obtain ⟨r, hout, -⟩ := h.written k hk l hl
      rw [Option.any_some, Lookup.starts]
      cases hanswer : l.answer with
      | starts f =>
        rw [hanswer] at hout
        change b.outcomeOf f = some r at hout
        simp only [Option.any_some, hout]
        rfl
      | cached m => rfl
      | joins f => rfl
  have hcount := h.sound.countP_le hdone
  rw [pool, List.length_map, Pool.countP_numbers] at hcount
  rw [hlookups]
  exact hcount

/-! ### Sources of which nothing is known -/

/- Nothing is cached under the key, and no fetch of it runs. -/
def Unknown (s : TokenMeta) (key : String) : Prop :=
  s.tokenCache.cache.get key = none ∧ s.inFlightRequests.get key = none

theorem sources_le_missing (hg : GatheredFrom checks store assets g)
    (hnone : ∀ asset ∈ assets, ∀ src, validSource checks asset = some src → store.cache.get src.key = none) :
    (distinctSources checks assets).length ≤ g.missingAssets.length := by
  have hsub : distinctSources checks assets ⊆ g.missingAssets.map fun item => sourceOf item.asset := by
    intro src hsrc
    obtain ⟨asset, hmem, hasset⟩ := List.mem_filterMap.mp (List.mem_dedup.mp hsrc)
    have hempty := hnone asset hmem src hasset
    obtain ⟨a, ha, rfl⟩ := validSource_eq_some hasset
    have hunique := hg.covers asset hmem a ha
    rw [generateCacheKey_eq ha] at hunique
    rcases hg.found _ hunique with ⟨item, hitem, hkey⟩ | ⟨-, e, he, -⟩
    · obtain ⟨-, hvalid, hitemKey, -⟩ := hg.items item hitem
      refine List.mem_map.mpr ⟨item, hitem, ?_⟩
      refine Source.key_injective (sourceOf_valid hvalid) (sourceOf_valid ha) ?_
      rw [← generateCacheKey_eq hvalid, ← hitemKey, hkey]
    · rw [hempty] at he
      cases he
  have hlength := (List.subperm_of_subset (List.nodup_dedup _) hsub).length_le
  rwa [List.length_map] at hlength

theorem answer_of_unknown {s : TokenMeta} {key : String} (h : Unknown s key) (now : ℕ) :
    s.answer key false now = .starts s.begun := by
  have hmiss : (s.tokenCache.get key now).1 = none := by
    rw [MemoryCacheStore.get_fst, h.1]
    rfl
  simp only [TokenMeta.answer, hmiss, TokenMeta.joinOrStart, h.2]
  rfl

/- A call with a key leaves other keys unknown. -/
theorem Unknown.request {s : TokenMeta} {key key' : String} (h : Unknown s key) (hne : key' ≠ key)
    (options : MetadataOptions) (now : ℕ) : Unknown (s.request key' options now) key := by
  have hcall := requested_request s key' options now
  generalize s.answer key' options.skipCache now = answer at hcall
  generalize s.request key' options now = s' at hcall ⊢
  have hempty : (∀ k e, s'.tokenCache.cache.get k = some e → s.tokenCache.cache.get k = some e) →
      s'.tokenCache.cache.get key = none := by
    intro hcached
    refine Option.eq_none_iff_forall_ne_some.mpr fun e he => ?_
    have hold := hcached key e he
    rw [h.1] at hold
    cases hold
  cases hcall with
  | cached hget hsame => exact ⟨hempty hsame.cached, hsame.inFlight ▸ h.2⟩
  | joins hin hsame => exact ⟨hempty hsame.cached, hsame.inFlight ▸ h.2⟩
  | starts ttlMs hin hbegun hfetches hinFlight hcached =>
    refine ⟨hempty hcached, ?_⟩
    rw [hinFlight, OrdMap.get_set_of_ne _ _ hne]
    exact h.2

/- Each worker has started a fetch, and none has settled. -/
structure AllStarted (n : ℕ) (b : ResolveMany) : Prop where
  settled : b.settled = []
  lookups : b.lookups.length = n
  started : b.started.length = n
  unknown : ∀ item ∈ b.remaining, Unknown b.service.tokens item.key

theorem AllStarted.startWorker {items : List MissingAsset} {n : ℕ}
    {found : OrdMap String (Option TokenMetadata)} (h : AllStarted n b)
    (hb : Resolving store found items done b) (hitems : Missing checks items) (hn : n < items.length)
    (now : ℕ) : AllStarted (n + 1) (b.startWorker checks options now) := by
  have hinOrder := hb.inOrder
  unfold ResolveMany.startWorker startNext
  cases hremaining : b.remaining with
  | nil =>
    have hlength := congrArg List.length hinOrder
    rw [hremaining, List.append_nil, List.length_map, h.lookups] at hlength
    exact absurd hlength hn.ne
  | cons item rest =>
    have hmem : item ∈ b.remaining := hremaining ▸ List.mem_cons_self ..
    obtain ⟨hvalid, hkey⟩ := hitems.valid item (hb.remaining_subset item hmem)
    have hanswer := answer_of_unknown (h.unknown item hmem) now
    refine ⟨?_, ?_, ?_, ?_⟩
    · exact (List.append_nil _).trans h.settled
    · rw [List.length_append, h.lookups, List.length_singleton]
    · have hstarted := h.started
      rw [ResolveMany.started] at hstarted ⊢
      rw [List.filterMap_append, List.length_append, hstarted, hanswer]
      rfl
    · intro item' hitem'
      have hkeys := hitems.nodup
      rw [← hinOrder, hremaining, List.map_append, List.map_cons] at hkeys
      have hne : item.key ≠ item'.key := by
        intro hsame
        have hfresh := (List.nodup_cons.mp (List.nodup_append.mp hkeys).2.1).1
        exact hfresh (hsame ▸ List.mem_map_of_mem hitem')
      have hunknown := h.unknown item' (hremaining ▸ List.mem_cons_of_mem _ hitem')
      change Unknown (b.service.step checks _).tokens _
      rw [step_call b.service options.metadata now hvalid hkey]
      exact hunknown.request hne options.metadata now

theorem AllStarted.outstanding {n : ℕ} (h : AllStarted n b) : b.outstanding = n := by
  have hnone : ∀ f, b.outcomeOf f = none := by
    intro f
    rw [outcomeOf, h.settled]
    rfl
  have hall : b.started.countP (fun f => (b.outcomeOf f).isNone) = b.started.length :=
    List.countP_eq_length.mpr fun f _ => by rw [hnone]; rfl
  rw [ResolveMany.outstanding, hall, h.started]

end Answers

/-! ### The whole call -/

/- The state after the launch and the events. -/
def after (checks : AddressChecks) (options : ResolveOptions) (w : Fetching)
    (assets : List (Option Asset)) (clock : ℕ → ℕ) (events : List ResolveEvent) : ResolveMany :=
  run (step checks options) (resolveMany checks options w assets clock) events

/-- A call that has not ended goes on, and nothing takes it further from its end; when it has
ended the results are positional; it starts one fetch for a source at most, and no more than
the limit run at a time. -/
structure Correct (checks : AddressChecks) (options : ResolveOptions) (w : Fetching)
    (assets : List (Option Asset)) (b : ResolveMany) : Prop where
  advances : b.Ended ∨ b.Advances checks options
  nearer : ∀ e, (b.step checks options e).load ≤ b.load
  positional : b.Ended → b.Positional checks w.tokens.tokenCache assets
  once : (b.started.map fun f => b.service.asked[f]?).Nodup
  bounded : options.limit.lt (.ofNat b.outstanding) = false

section Calls
variable {checks : AddressChecks} {options : ResolveOptions} {w : Fetching}
  {assets : List (Option Asset)} {clock : ℕ → ℕ} {events : List ResolveEvent}

theorem resolving_start (hw : Consistent w) {g : Gathered}
    (hg : GatheredFrom checks w.tokens.tokenCache assets g) :
    Resolving w.tokens.tokenCache g.resultsByKey g.missingAssets [] (start w g) := by
  have hservice : Consistent (start w g).service := hw.unfetched ⟨rfl, rfl, rfl, hg.cached⟩
  refine ⟨Pool.launch_sound g.missingAssets 0, ⟨hservice, hw.cached, ?_, ?_, ?_⟩, ?_, fun _ _ => rfl⟩
  · intro k e hk
    exact .inl ⟨e, hg.cached k e hk, rfl⟩
  · intro f m hm
    cases hm
  · intro l hl
    cases hl
  · intro k hk
    cases hk

theorem resolving_launch (hw : Consistent w) (checks : AddressChecks) (options : ResolveOptions)
    (assets : List (Option Asset)) (clock times : ℕ → ℕ) (n : ℕ) :
    Resolving w.tokens.tokenCache (gather checks clock w.tokens.tokenCache assets).resultsByKey
      (gather checks clock w.tokens.tokenCache assets).missingAssets []
      (launch checks options times (start w (gather checks clock w.tokens.tokenCache assets)) n) := by
  have hg := gatheredFrom_gather checks clock w.tokens.tokenCache assets
  induction n with
  | zero => exact resolving_start hw hg
  | succ n ih => exact ih.startWorker (missing_of_gathered hg) (times n)

theorem resolving_after (checks : AddressChecks) (options : ResolveOptions) (hw : Consistent w)
    (assets : List (Option Asset)) (clock : ℕ → ℕ) (events : List ResolveEvent) :
    ∃ done, Resolving w.tokens.tokenCache (gather checks clock w.tokens.tokenCache assets).resultsByKey
      (gather checks clock w.tokens.tokenCache assets).missingAssets done
      (after checks options w assets clock events) := by
  have hg := gatheredFrom_gather checks clock w.tokens.tokenCache assets
  refine run_keeps (step checks options) (fun b => ∃ done, Resolving w.tokens.tokenCache
    (gather checks clock w.tokens.tokenCache assets).resultsByKey
    (gather checks clock w.tokens.tokenCache assets).missingAssets done b) ?_ _ events
    ⟨[], resolving_launch hw checks options assets clock _ _⟩
  rintro b e ⟨done, h⟩
  exact h.step (missing_of_gathered hg) e

theorem length_workers_step (b : ResolveMany) (e : ResolveEvent) :
    (b.step checks options e).workers.length = b.workers.length := by
  cases e with
  | outside a => rfl
  | goesOn w now =>
    have hresumed := @step_goesOn checks options b w now
    generalize b.step checks options (.goesOn w now) = b' at hresumed ⊢
    cases hresumed with
    | idle => rfl
    | records hw hk hout => exact List.length_set

theorem length_workers (checks : AddressChecks) (options : ResolveOptions) (w : Fetching)
    (assets : List (Option Asset)) (clock : ℕ → ℕ) (events : List ResolveEvent) :
    (after checks options w assets clock events).workers.length =
      options.limit.rounds (gather checks clock w.tokens.tokenCache assets).missingAssets.length := by
  have hlaunch : ∀ times n, (launch checks options times
      (start w (gather checks clock w.tokens.tokenCache assets)) n).workers.length = n := by
    intro times n
    have hstart : (start w (gather checks clock w.tokens.tokenCache assets)).pool =
        ⟨(gather checks clock w.tokens.tokenCache assets).missingAssets, [], []⟩ := rfl
    exact (congrArg (fun p => p.hands.length) (pool_launch times hstart n)).trans (Pool.launch_length ..)
  exact run_keeps (step checks options) (fun b => b.workers.length = _)
    (fun b e h => (length_workers_step b e).trans h) _ events (hlaunch _ _)

theorem outstanding_launch (hw : Consistent w) (checks : AddressChecks) (options : ResolveOptions)
    (assets : List (Option Asset)) (clock times : ℕ → ℕ)
    (hunknown : ∀ asset ∈ assets, ∀ src, validSource checks asset = some src →
      Unknown w.tokens src.key) {n : ℕ}
    (hn : n ≤ (gather checks clock w.tokens.tokenCache assets).missingAssets.length) :
    (launch checks options times (start w (gather checks clock w.tokens.tokenCache assets)) n).outstanding =
      n := by
  have hg := gatheredFrom_gather checks clock w.tokens.tokenCache assets
  have hstarted : AllStarted n
      (launch checks options times (start w (gather checks clock w.tokens.tokenCache assets)) n) := by
    induction n with
    | zero =>
      refine ⟨rfl, rfl, rfl, ?_⟩
      intro item hitem
      obtain ⟨hmem, hvalid, hkey, -⟩ := hg.items item hitem
      obtain ⟨hempty, hin⟩ := hunknown _ hmem (sourceOf item.asset) (by rw [validSource, hvalid]; rfl)
      rw [hkey, generateCacheKey_eq hvalid]
      refine ⟨Option.eq_none_iff_forall_ne_some.mpr fun e he => ?_, hin⟩
      have hold := hg.cached _ e he
      rw [hempty] at hold
      cases hold
    | succ n ih =>
      exact (ih (Nat.le_of_succ_le hn)).startWorker (resolving_launch hw checks options assets clock times n)
        (missing_of_gathered hg) hn (times n)
  exact hstarted.outstanding

theorem workers_suffice (hc : (JsNumber.ofNat 1).le options.limit = true) :
    (after checks options w assets clock events).workers ≠ [] ∨
      (gather checks clock w.tokens.tokenCache assets).missingAssets = [] := by
  have hlength := length_workers checks options w assets clock events
  cases hmissing : (gather checks clock w.tokens.tokenCache assets).missingAssets with
  | nil => exact .inr rfl
  | cons item rest =>
    left
    intro hnil
    rw [hnil, hmissing] at hlength
    exact absurd hlength.symm (JsNumber.rounds_pos hc (Nat.succ_pos rest.length)).ne'

theorem bounded_of_sources
    (hfew : options.limit.lt (.ofNat (distinctSources checks assets).length) = false) {n : ℕ}
    (hn : n ≤ (distinctSources checks assets).length) : options.limit.lt (.ofNat n) = false := by
  rw [← Bool.not_eq_true]
  intro hexceeds
  have hmore := JsNumber.lt_of_lt_of_le hexceeds (JsNumber.le_ofNat hn)
  rw [hfew] at hmore
  cases hmore

/- The limit is a whole number, or there are not more sources to ask. -/
def LimitSuits (checks : AddressChecks) (options : ResolveOptions) (assets : List (Option Asset)) : Prop :=
  (∃ n, options.limit = .ofNat n) ∨
    options.limit.lt (.ofNat (distinctSources checks assets).length) = false

theorem bounded_after (hw : Consistent w) (hlimit : LimitSuits checks options assets) :
    options.limit.lt (.ofNat (after checks options w assets clock events).outstanding) = false := by
  have hg := gatheredFrom_gather checks clock w.tokens.tokenCache assets
  obtain ⟨done, h⟩ := resolving_after checks options hw assets clock events
  rcases hlimit with ⟨n, hn⟩ | hfew
  · have hle := h.outstanding_le_workers
    rw [length_workers, hn] at hle
    have hrounds := JsNumber.rounds_le (JsNumber.le_ofNat (le_refl n))
      (gather checks clock w.tokens.tokenCache assets).missingAssets.length
    rw [hn, JsNumber.lt_ofNat]
    exact decide_eq_false (Nat.not_lt.mpr (hle.trans hrounds))
  · exact bounded_of_sources hfew (h.outstanding_le_sources hg)

/- A fraction lets one more fetch run than it says, when no source is known. -/
theorem limitSuits_of_bounded (hw : Consistent w) (hc : (JsNumber.ofNat 1).le options.limit = true)
    (hunknown : ∀ asset ∈ assets, ∀ src, validSource checks asset = some src →
      Unknown w.tokens src.key)
    (hbounded : options.limit.lt (.ofNat (after checks options w assets clock []).outstanding) = false) :
    LimitSuits checks options assets := by
  by_contra hnot
  obtain ⟨hfraction, hmany⟩ := not_or.mp hnot
  rw [Bool.not_eq_false] at hmany
  have hg := gatheredFrom_gather checks clock w.tokens.tokenCache assets
  have hmissing := sources_le_missing hg fun asset hmem src hsrc => (hunknown asset hmem src hsrc).1
  have hmore := JsNumber.lt_of_lt_of_le hmany (JsNumber.le_ofNat hmissing)
  have houtstanding := outstanding_launch hw checks options assets clock
    (fun i => clock ((gather checks clock w.tokens.tokenCache assets).uniqueKeys.length + i)) hunknown
    (options.limit.rounds_le_self _)
  have hlaunched : (after checks options w assets clock []).outstanding =
      options.limit.rounds (gather checks clock w.tokens.tokenCache assets).missingAssets.length :=
    houtstanding
  rw [hlaunched] at hbounded
  cases hlimit : options.limit with
  | nan =>
    rw [hlimit] at hc
    cases hc
  | negInf =>
    rw [hlimit] at hc
    cases hc
  | posInf =>
    rw [hlimit] at hmore
    cases hmore
  | fin q =>
    rw [hlimit] at hc hmore hfraction hbounded
    rw [JsNumber.ofNat, JsNumber.le_fin, decide_eq_true_eq] at hc
    rw [JsNumber.ofNat, JsNumber.lt_fin, decide_eq_true_eq] at hmore
    have hpos : (0 : ℚ) ≤ q := zero_le_one.trans (by exact_mod_cast hc)
    have hrounds := JsNumber.lt_rounds hpos (fun m hm => hfraction ⟨m, congrArg JsNumber.fin hm⟩) hmore
    rw [hbounded] at hrounds
    cases hrounds

/-- With a limit of at least 1 that is a whole number or no less than the number of distinct
sources, the call is correct in every state that it reaches; and when nothing is known of the
sources yet, only then. -/
theorem resolve_many_correct (checks : AddressChecks) (options : ResolveOptions)
    (hw : Consistent w) (assets : List (Option Asset)) (clock : ℕ → ℕ)
    (hc : (JsNumber.ofNat 1).le options.limit = true) :
    (LimitSuits checks options assets → ∀ events,
      Correct checks options w assets (after checks options w assets clock events)) ∧
    ((∀ asset ∈ assets, ∀ src, validSource checks asset = some src → Unknown w.tokens src.key) →
      (∀ events, Correct checks options w assets (after checks options w assets clock events)) →
        LimitSuits checks options assets) := by
  have hg := gatheredFrom_gather checks clock w.tokens.tokenCache assets
  constructor
  · intro hlimit events
    obtain ⟨done, h⟩ := resolving_after checks options hw assets clock events
    refine ⟨?_, fun e => load_step_le e, fun hended => h.positional hg hended (workers_suffice hc),
      h.started_nodup (missing_of_gathered hg), bounded_after hw hlimit⟩
    by_cases hended : (after checks options w assets clock events).Ended
    · exact .inl hended
    · exact .inr (h.advances hended)
  · intro hunknown hcorrect
    exact limitSuits_of_bounded hw hc hunknown (hcorrect []).bounded

end Calls

def sampleLumens : Option Asset := some ⟨.string "XLM", .null, .undefined⟩

def sampleIssued : Option Asset := some ⟨.string "USDC", .string "GA5Z", .undefined⟩

/- The fetch of the issued asset fails; the third asset is none. -/
def sampleEvents : List ResolveEvent :=
  [.outside (.completes 1 none 10), .goesOn 1 11, .outside (.completes 0 sampleLumen 12), .goesOn 0 13]

theorem resolve_many_correct_sample :
    Correct sampleChecks ⟨some (.ofNat 2), none⟩ .initial [sampleLumens, sampleIssued, none, sampleAsset]
      (after sampleChecks ⟨some (.ofNat 2), none⟩ .initial
        [sampleLumens, sampleIssued, none, sampleAsset] id sampleEvents) ∧
    ((after sampleChecks ⟨some (.ofNat 2), none⟩ .initial
      [sampleLumens, sampleIssued, none, sampleAsset] id sampleEvents).results sampleChecks
        [sampleLumens, sampleIssued, none, sampleAsset]).map (Option.map TokenMetadata.fetch) =
      [some 0, none, none, some 0] := by
  refine ⟨?_, by decide⟩
  exact (resolve_many_correct sampleChecks _ consistent_initial _ id (by decide)).1
    (.inl ⟨2, rfl⟩) sampleEvents

/- A limit that is no whole number is rounded up by the loop that starts the workers. -/
theorem fraction_rounds_up : ¬ ∀ (checks : AddressChecks) (options : ResolveOptions) (w : Fetching)
    (assets : List (Option Asset)) (clock : ℕ → ℕ) (events : List ResolveEvent), Consistent w →
    (JsNumber.ofNat 1).le options.limit = true →
      Correct checks options w assets (after checks options w assets clock events) := by
  intro h
  have hbounded := (h sampleChecks ⟨some (.fin (3 / 2)), none⟩ .initial [sampleLumens, sampleIssued] id []
    consistent_initial (by decide +kernel)).bounded
  have houtstanding : (after sampleChecks ⟨some (.fin (3 / 2)), none⟩ .initial
      [sampleLumens, sampleIssued] id []).outstanding = 2 := by
    decide +kernel
  rw [houtstanding] at hbounded
  exact absurd hbounded (by decide +kernel)

end ResolveMany

end Liquifact.Tokens
