import Liquifact.Cache.CacheStore
import Liquifact.Lib.Fallible
import Liquifact.Lib.JsValue
import Liquifact.Lib.Run

/-!
# Token metadata (`src/services/tokenMeta.js`)

`generateCacheKey` (73-87), `validateAsset` (95-143), `getTokenMetadata` (253-317),
`invalidateTokenMetadata` (327-343) and `getFreshTokenMetadata` (382-384). A fetch is shared:
a call that finds one under its key in `inFlightRequests` waits for that one. Fetches are
numbered in the order in which they begin; metadata carries the number of the fetch it was
obtained by, and an invalidation how many had begun when it returned. The two address checks
are parameters.
-/

namespace Liquifact.Tokens
open Liquifact.Lib Liquifact.Cache

/- The fields of an asset descriptor that is an object. -/
structure Asset where
  code : JsValue
  issuer : JsValue
  contractId : JsValue

structure AddressChecks where
  isValidStellarContractAddress : String → Bool
  isValidStellarAccountAddress : String → Bool

def isNative (code : JsValue) : Bool := code.isText "native" || code.isText "XLM"

/- `v !== null && v !== undefined`. -/
def isGiven : JsValue → Bool
  | .undefined => false
  | .null => false
  | _ => true

/- `ASSET_CODE_PATTERN`, `/^[A-Z0-9]{1,12}$/`. -/
def matchesAssetCode (code : String) : Bool :=
  decide (1 ≤ code.toList.length ∧ code.toList.length ≤ 12) &&
    code.toList.all fun c => ('A' ≤ c && c ≤ 'Z') || ('0' ≤ c && c ≤ '9')

/-- `validateAsset`, the reason of a refusal as the error. -/
def validateAsset (checks : AddressChecks) (asset : Option Asset) : Except String Asset := do
  let a ← expect "Asset must be an object" asset
  if isNative a.code then
    require (isGiven a.issuer = false) "Native XLM must not have an issuer"
    return a
  let code ← expect "Asset code is required" (truthy a.code.asString)
  require (matchesAssetCode code = true) "Asset code must be 1-12 alphanumeric characters"
  if a.contractId.truthy then
    let contractId ← expect "Contract ID must be a string" a.contractId.asString
    require (checks.isValidStellarContractAddress contractId = true)
      "Invalid Soroban contract ID format"
    require (isGiven a.issuer = false) "Soroban tokens must not have an issuer"
    return a
  require (a.issuer.truthy = true) "Issuer is required for non-native assets"
  let issuer ← expect "Issuer must be a string" a.issuer.asString
  require (checks.isValidStellarAccountAddress issuer = true)
    "Invalid Stellar public key format for issuer"
  return a

/- The key of an asset that passed `validateAsset`, where the fields used are strings. -/
def generateCacheKey (asset : Asset) : String :=
  if isNative asset.code then "native"
  else if asset.contractId.truthy then "contract:" ++ asset.contractId.asString.getD ""
  else if asset.issuer.truthy then
    asset.code.asString.getD "" ++ ":" ++ asset.issuer.asString.getD ""
  else "code:" ++ asset.code.asString.getD ""

structure TokenMetadata where
  symbol : String
  name : String
  decimals : ℕ
  source : String
  cachedAt : ℕ
  fetch : ℕ

/- What a source answers. -/
structure FetchedToken where
  symbol : String
  name : String
  decimals : ℕ
  source : String

structure Fetch where
  id : ℕ
  key : String
  ttlMs : JsNumber

structure Invalidation where
  key : String
  begun : ℕ
  deriving DecidableEq

/- A call that waits for a fetch, with the invalidations that had returned when it was made. -/
structure Waiting where
  key : String
  fetch : ℕ
  seen : List Invalidation

structure Returned where
  key : String
  fetch : ℕ
  seen : List Invalidation

structure TokenMeta where
  tokenCache : MemoryCacheStore TokenMetadata
  inFlightRequests : OrdMap String ℕ
  begun : ℕ
  fetches : List Fetch
  waiting : List Waiting
  invalidations : List Invalidation
  returned : List Returned

structure MetadataOptions where
  ttlMs : Option JsNumber
  skipCache : Bool

inductive TokenStep where
  | getTokenMetadata (asset : Option Asset) (options : MetadataOptions) (now : ℕ)
  | getFreshTokenMetadata (asset : Option Asset) (now : ℕ)
  | completes (fetch : ℕ) (outcome : Option FetchedToken) (now : ℕ)
  | invalidateTokenMetadata (asset : Option Asset) (now : ℕ)

namespace TokenMeta

def initial : TokenMeta := ⟨.new none, .empty, 0, [], [], [], []⟩

def defaultTtlMs : JsNumber := .fin (30 * 60 * 1000)

/-- The call after a miss: join the fetch under the key, or begin one. -/
def joinOrFetch (s : TokenMeta) (key : String) (ttlMs : JsNumber) : TokenMeta :=
  match s.inFlightRequests.get key with
  | some f => { s with waiting := s.waiting ++ [⟨key, f, s.invalidations⟩] }
  | none => { s with
      inFlightRequests := s.inFlightRequests.set key s.begun
      begun := s.begun + 1
      fetches := s.fetches ++ [⟨s.begun, key, ttlMs⟩]
      waiting := s.waiting ++ [⟨key, s.begun, s.invalidations⟩] }

/-- `getTokenMetadata` for a key, up to the first `await`. -/
def request (s : TokenMeta) (key : String) (options : MetadataOptions) (now : ℕ) : TokenMeta :=
  let ttlMs := options.ttlMs.getD defaultTtlMs
  if options.skipCache then s.joinOrFetch key ttlMs
  else
    match s.tokenCache.get key now with
    | (some cached, store) => { s with
        tokenCache := store
        returned := s.returned ++ [⟨key, cached.fetch, s.invalidations⟩] }
    | (none, store) => { s with tokenCache := store }.joinOrFetch key ttlMs

def getTokenMetadata (s : TokenMeta) (checks : AddressChecks) (asset : Option Asset)
    (options : MetadataOptions) (now : ℕ) : TokenMeta :=
  match validateAsset checks asset with
  | .error _ => s
  | .ok a => s.request (generateCacheKey a) options now

/-- A fetch settles: what it obtained is stored, the promise leaves the tracker, and the
calls that wait for it return. -/
def complete (s : TokenMeta) (f : Fetch) (outcome : Option FetchedToken) (now : ℕ) : TokenMeta :=
  let rest := { s with
    inFlightRequests := s.inFlightRequests.delete f.key
    fetches := s.fetches.filter fun g => decide (g.id ≠ f.id)
    waiting := s.waiting.filter fun w => decide (w.fetch ≠ f.id) }
  match outcome with
  | none => rest
  | some t => { rest with
      tokenCache := (s.tokenCache.set f.key ⟨t.symbol, t.name, t.decimals, t.source, now, f.id⟩
        f.ttlMs now).2
      returned := s.returned ++ (s.waiting.filter fun w => decide (w.fetch = f.id)).map fun w =>
        ⟨w.key, f.id, w.seen⟩ }

/-- `invalidateTokenMetadata`: it asks whether there is an entry, which may drop an expired
one, and deletes it. -/
def invalidate (s : TokenMeta) (key : String) (now : ℕ) : TokenMeta :=
  { s with
    tokenCache := (s.tokenCache.get key now).2.del key
    invalidations := s.invalidations ++ [⟨key, s.begun⟩] }

def step (checks : AddressChecks) (s : TokenMeta) : TokenStep → TokenMeta
  | .getTokenMetadata asset options now => s.getTokenMetadata checks asset options now
  | .getFreshTokenMetadata asset now => s.getTokenMetadata checks asset ⟨none, true⟩ now
  | .completes fetch outcome now =>
    match s.fetches.find? fun f => decide (f.id = fetch) with
    | none => s
    | some f => s.complete f outcome now
  | .invalidateTokenMetadata asset now =>
    match validateAsset checks asset with
    | .error _ => s
    | .ok a => s.invalidate (generateCacheKey a) now

end TokenMeta

/- The fetch began after every invalidation of the key listed. -/
def Since (invalidations : List Invalidation) (key : String) (fetch : ℕ) : Prop :=
  ∀ v ∈ invalidations, v.key = key → v.begun ≤ fetch

/-- No call returned metadata of a fetch that began before an invalidation of its key that
had returned when the call was made. -/
def InvalidationWins (s : TokenMeta) : Prop := ∀ r ∈ s.returned, Since r.seen r.key r.fetch

/-- An asset is not invalidated while a fetch of it is in flight. -/
def NoFetchInFlight (checks : AddressChecks) (s : TokenMeta) : TokenStep → Prop
  | .invalidateTokenMetadata asset _ => ∀ a, validateAsset checks asset = .ok a →
      s.inFlightRequests.get (generateCacheKey a) = none
  | _ => True

/-- Cached metadata and running fetches are of after the last invalidation; the tracker has
every running fetch, one for a key. -/
structure UpToDate (s : TokenMeta) : Prop where
  returned : InvalidationWins s
  cached : ∀ k e, s.tokenCache.cache.get k = some e → Since s.invalidations k e.value.fetch
  fetches : ∀ f ∈ s.fetches, Since s.invalidations f.key f.id
  waiting : ∀ w ∈ s.waiting, Since w.seen w.key w.fetch
  tracked : ∀ f ∈ s.fetches, s.inFlightRequests.get f.key = some f.id
  trackedBack : ∀ k i, s.inFlightRequests.get k = some i → ∃ f ∈ s.fetches, f.key = k ∧ f.id = i
  begun : ∀ v ∈ s.invalidations, v.begun ≤ s.begun
  ids : ∀ f ∈ s.fetches, f.id < s.begun
  unique : ∀ f ∈ s.fetches, ∀ g ∈ s.fetches, f.id = g.id → f.key = g.key

section Steps
variable {s : TokenMeta}

theorem upToDate_initial : UpToDate .initial := by
  refine ⟨?_, ?_, ?_, ?_, ?_, ?_, ?_, ?_, ?_⟩
  · intro r hr
    cases hr
  · intro k e hk
    cases hk
  · intro f hf
    cases hf
  · intro w hw
    cases hw
  · intro f hf
    cases hf
  · intro k i hk
    cases hk
  · intro v hv
    cases hv
  · intro f hf
    cases hf
  · intro f hf
    cases hf

/- A call waits for a fetch that runs since the last invalidation of its key. -/
theorem UpToDate.wait (h : UpToDate s) {key : String} {i : ℕ}
    (hsince : Since s.invalidations key i) :
    UpToDate { s with waiting := s.waiting ++ [⟨key, i, s.invalidations⟩] } := by
  refine ⟨h.returned, h.cached, h.fetches, ?_, h.tracked, h.trackedBack, h.begun, h.ids, h.unique⟩
  intro w hw
  rcases List.mem_append.mp hw with hw | hw
  · exact h.waiting w hw
  · rw [List.mem_singleton.mp hw]
    exact hsince

theorem UpToDate.since_begun (h : UpToDate s) (key : String) :
    Since s.invalidations key s.begun :=
  fun v hv _ => h.begun v hv

theorem UpToDate.startFetch (h : UpToDate s) {key : String} (ttlMs : JsNumber)
    (hin : s.inFlightRequests.get key = none) :
    UpToDate { s with
      inFlightRequests := s.inFlightRequests.set key s.begun
      begun := s.begun + 1
      fetches := s.fetches ++ [⟨s.begun, key, ttlMs⟩] } := by
  have hother : ∀ f ∈ s.fetches, key ≠ f.key := by
    rintro f hf rfl
    rw [h.tracked f hf] at hin
    cases hin
  refine ⟨h.returned, h.cached, ?_, h.waiting, ?_, ?_, ?_, ?_, ?_⟩
  · intro f hf
    rcases List.mem_append.mp hf with hf | hf
    · exact h.fetches f hf
    · rw [List.mem_singleton.mp hf]
      exact h.since_begun key
  · intro f hf
    rcases List.mem_append.mp hf with hf | hf
    · rw [OrdMap.get_set_of_ne _ _ (hother f hf)]
      exact h.tracked f hf
    · rw [List.mem_singleton.mp hf]
      exact OrdMap.get_set_self ..
  · intro k i hk
    rw [OrdMap.get_set] at hk
    split at hk
    · rename_i hkey
      cases hk
      exact ⟨_, List.mem_append_right _ (List.mem_singleton_self _), hkey, rfl⟩
    · obtain ⟨f, hf, hfk, hid⟩ := h.trackedBack k i hk
      exact ⟨f, List.mem_append_left _ hf, hfk, hid⟩
  · intro v hv
    exact (h.begun v hv).trans (Nat.le_succ _)
  · intro f hf
    rcases List.mem_append.mp hf with hf | hf
    · exact (h.ids f hf).trans (Nat.lt_succ_self _)
    · rw [List.mem_singleton.mp hf]
      exact Nat.lt_succ_self _
  · intro f hf g hg hid
    rcases List.mem_append.mp hf with hf | hf <;> rcases List.mem_append.mp hg with hg | hg
    · exact h.unique f hf g hg hid
    · rw [List.mem_singleton.mp hg] at hid
      exact absurd hid (Nat.ne_of_lt (h.ids f hf))
    · rw [List.mem_singleton.mp hf] at hid
      exact absurd hid.symm (Nat.ne_of_lt (h.ids g hg))
    · rw [List.mem_singleton.mp hf, List.mem_singleton.mp hg]

theorem UpToDate.joinOrFetch (h : UpToDate s) (key : String) (ttlMs : JsNumber) :
    UpToDate (s.joinOrFetch key ttlMs) := by
  unfold TokenMeta.joinOrFetch
  cases hin : s.inFlightRequests.get key with
  | some i =>
    obtain ⟨f, hf, hkey, hid⟩ := h.trackedBack key i hin
    have hsince : Since s.invalidations key i := hkey ▸ hid ▸ h.fetches f hf
    exact h.wait hsince
  | none => exact (h.startFetch ttlMs hin).wait (h.since_begun key)

theorem UpToDate.request (h : UpToDate s) (key : String) (options : MetadataOptions) (now : ℕ) :
    UpToDate (s.request key options now) := by
  unfold TokenMeta.request
  split
  · exact h.joinOrFetch key _
  · have hsub : ∀ k e, (s.tokenCache.get key now).2.cache.get k = some e →
        Since s.invalidations k e.value.fetch :=
      fun k e hk => h.cached k e (MemoryCacheStore.of_get_cache hk)
    cases hr : s.tokenCache.get key now with
    | mk r store =>
      rw [hr] at hsub
      have hstore : UpToDate { s with tokenCache := store } :=
        ⟨h.returned, hsub, h.fetches, h.waiting, h.tracked, h.trackedBack, h.begun, h.ids, h.unique⟩
      cases r with
      | none => exact hstore.joinOrFetch key _
      | some cached =>
        refine ⟨?_, hsub, h.fetches, h.waiting, h.tracked, h.trackedBack, h.begun, h.ids, h.unique⟩
        intro r hr'
        rcases List.mem_append.mp hr' with hr' | hr'
        · exact h.returned r hr'
        · rw [List.mem_singleton.mp hr']
          obtain ⟨e, hget, rfl, -⟩ :=
            MemoryCacheStore.get_eq_some_iff.mp (congrArg Prod.fst hr)
          exact h.cached key e hget

/- What is left when a fetch settles, whatever it obtained. -/
theorem UpToDate.settle (h : UpToDate s) {f : Fetch} (hf : f ∈ s.fetches) :
    UpToDate { s with
      inFlightRequests := s.inFlightRequests.delete f.key
      fetches := s.fetches.filter fun g => decide (g.id ≠ f.id)
      waiting := s.waiting.filter fun w => decide (w.fetch ≠ f.id) } := by
  have hleft : ∀ g, (g ∈ s.fetches.filter fun g => decide (g.id ≠ f.id)) →
      g ∈ s.fetches ∧ g.id ≠ f.id := by
    intro g hg
    simpa using hg
  refine ⟨h.returned, h.cached, ?_, ?_, ?_, ?_, h.begun, ?_, ?_⟩
  · intro g hg
    exact h.fetches g (hleft g hg).1
  · intro w hw
    exact h.waiting w (List.mem_filter.mp hw).1
  · intro g hg
    obtain ⟨hmem, hid⟩ := hleft g hg
    -- a second fetch of the key would have the same number
    have hkey : f.key ≠ g.key := by
      intro hkey
      have hg' := h.tracked g hmem
      rw [← hkey, h.tracked f hf] at hg'
      exact hid (Option.some.inj hg').symm
    rw [OrdMap.get_delete, if_neg hkey]
    exact h.tracked g hmem
  · intro k i hk
    rw [OrdMap.get_delete] at hk
    split at hk
    · cases hk
    · rename_i hne
      obtain ⟨g, hg, hgk, hid⟩ := h.trackedBack k i hk
      have hgid : g.id ≠ f.id := fun hgf => hne ((h.unique g hg f hf hgf).symm.trans hgk)
      exact ⟨g, List.mem_filter.mpr ⟨hg, by simpa using hgid⟩, hgk, hid⟩
  · intro g hg
    exact h.ids g (hleft g hg).1
  · intro g hg g' hg'
    exact h.unique g (hleft g hg).1 g' (hleft g' hg').1

theorem UpToDate.complete (h : UpToDate s) {f : Fetch} (hf : f ∈ s.fetches)
    (outcome : Option FetchedToken) (now : ℕ) : UpToDate (s.complete f outcome now) := by
  have hrest := h.settle hf
  cases outcome with
  | none => exact hrest
  | some t =>
    refine ⟨?_, ?_, hrest.fetches, hrest.waiting, hrest.tracked, hrest.trackedBack, hrest.begun,
      hrest.ids, hrest.unique⟩
    · intro r hr
      rcases List.mem_append.mp hr with hr | hr
      · exact h.returned r hr
      · obtain ⟨w, hw, rfl⟩ := List.mem_map.mp hr
        obtain ⟨hmem, hid⟩ := List.mem_filter.mp hw
        have hwait := h.waiting w hmem
        rw [of_decide_eq_true hid] at hwait
        exact hwait
    · intro k e hk
      rcases MemoryCacheStore.of_set_cache hk with ⟨rfl, rfl⟩ | hold
      · exact h.fetches f hf
      · exact h.cached k e hold

theorem UpToDate.invalidate (h : UpToDate s) {key : String} (now : ℕ)
    (hnone : s.inFlightRequests.get key = none) : UpToDate (s.invalidate key now) := by
  have hlate : ∀ k fetch, (k = key → False) → Since s.invalidations k fetch →
      Since (s.invalidations ++ [⟨key, s.begun⟩]) k fetch := by
    intro k fetch hk hsince v hv hvk
    rcases List.mem_append.mp hv with hv | hv
    · exact hsince v hv hvk
    · rw [List.mem_singleton.mp hv] at hvk
      exact (hk hvk.symm).elim
  refine ⟨h.returned, ?_, ?_, h.waiting, h.tracked, h.trackedBack, ?_, h.ids, h.unique⟩
  · intro k e hk
    -- the entry of the key itself was deleted
    have hk' : (((s.tokenCache.get key now).2.cache.delete key).get k) = some e := hk
    rw [OrdMap.get_delete] at hk'
    split at hk'
    · cases hk'
    · rename_i hne
      exact hlate k _ (fun hkk => hne hkk.symm) (h.cached k e (MemoryCacheStore.of_get_cache hk'))
  · intro f hf
    -- and no fetch of it is running
    apply hlate f.key f.id _ (h.fetches f hf)
    rintro rfl
    rw [h.tracked f hf] at hnone
    cases hnone
  · intro v hv
    rcases List.mem_append.mp hv with hv | hv
    · exact h.begun v hv
    · rw [List.mem_singleton.mp hv]
      exact le_rfl

theorem UpToDate.step (checks : AddressChecks) (h : UpToDate s) (a : TokenStep)
    (ha : NoFetchInFlight checks s a) : UpToDate (s.step checks a) := by
  have hcall : ∀ asset options now, UpToDate (s.getTokenMetadata checks asset options now) := by
    intro asset options now
    unfold TokenMeta.getTokenMetadata
    cases validateAsset checks asset with
    | error m => exact h
    | ok a => exact h.request _ options now
  cases a with
  | getTokenMetadata asset options now => exact hcall asset options now
  | getFreshTokenMetadata asset now => exact hcall asset ⟨none, true⟩ now
  | completes fetch outcome now =>
    simp only [TokenMeta.step]
    cases hf : s.fetches.find? fun f => decide (f.id = fetch) with
    | none => exact h
    | some f => exact h.complete (List.mem_of_find?_eq_some hf) outcome now
  | invalidateTokenMetadata asset now =>
    simp only [TokenMeta.step]
    cases hv : validateAsset checks asset with
    | error m => exact h
    | ok a => exact h.invalidate now (ha a hv)

end Steps

/-- In every run in which no asset is invalidated while a fetch of it is in flight, every
call returns metadata of a fetch that began after the invalidations before it. -/
theorem invalidation_wins (checks : AddressChecks) (as : List TokenStep)
    (h : Along (TokenMeta.step checks) (NoFetchInFlight checks) .initial as) :
    InvalidationWins (run (TokenMeta.step checks) .initial as) :=
  (run_invariant (TokenMeta.step checks) (NoFetchInFlight checks) UpToDate
    (fun _ a hs ha => hs.step checks a ha) _ as upToDate_initial h).returned

def sampleChecks : AddressChecks := ⟨fun _ => true, fun _ => true⟩

def sampleAsset : Option Asset := some ⟨.string "native", .null, .undefined⟩

def sampleLumen : Option FetchedToken := some ⟨"XLM", "Lumen", 7, "native"⟩

def sampleQuiet : List TokenStep :=
  [.getTokenMetadata sampleAsset ⟨none, false⟩ 0, .completes 0 sampleLumen 1,
    .invalidateTokenMetadata sampleAsset 2, .getTokenMetadata sampleAsset ⟨none, false⟩ 3,
    .completes 1 sampleLumen 4]

theorem invalidation_wins_sample :
    ((run (TokenMeta.step sampleChecks) .initial sampleQuiet).returned.map fun r =>
      (r.fetch, r.seen)) = [(0, []), (1, [⟨"native", 1⟩])] ∧
    InvalidationWins (run (TokenMeta.step sampleChecks) .initial sampleQuiet) := by
  refine ⟨by decide +kernel, invalidation_wins sampleChecks sampleQuiet ?_⟩
  refine ⟨trivial, trivial, ?_, trivial, trivial, trivial⟩
  intro a ha
  cases ha
  decide

/-- The fetch that runs while the asset is invalidated is joined by the next call, and what
it obtained before the invalidation is returned. -/
theorem old_fetch_survives_invalidation :
    ¬ ∀ (checks : AddressChecks) (as : List TokenStep),
      InvalidationWins (run (TokenMeta.step checks) .initial as) := by
  intro hall
  have hrun := hall sampleChecks [.getTokenMetadata sampleAsset ⟨none, false⟩ 0,
    .invalidateTokenMetadata sampleAsset 1, .getTokenMetadata sampleAsset ⟨none, false⟩ 2,
    .completes 0 sampleLumen 3]
  have hreturned : (run (TokenMeta.step sampleChecks) .initial
      [.getTokenMetadata sampleAsset ⟨none, false⟩ 0, .invalidateTokenMetadata sampleAsset 1,
        .getTokenMetadata sampleAsset ⟨none, false⟩ 2, .completes 0 sampleLumen 3]).returned.map
      (fun r => (r.key, r.fetch, r.seen)) = [("native", 0, []), ("native", 0, [⟨"native", 1⟩])] := by
    decide
  obtain ⟨r, hr, heq⟩ := List.mem_map.mp
    (hreturned ▸ List.mem_cons_of_mem _ (List.mem_singleton_self _))
  simp only [Prod.mk.injEq] at heq
  obtain ⟨hkey, hfetch, hseen⟩ := heq
  have hsince := hrun r hr ⟨"native", 1⟩ (hseen ▸ List.mem_singleton_self _) hkey.symm
  rw [hfetch] at hsince
  exact absurd hsince (by decide)

end Liquifact.Tokens
