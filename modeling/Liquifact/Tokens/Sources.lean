import Liquifact.Lib.Separated
import Liquifact.Tokens.TokenMeta

/-!
# The source of an asset (`src/services/tokenMeta.js`)

A fetch of `getTokenMetadata` asks one source (268-277): the native metadata, a contract, or
Horizon by code and issuer. On assets that pass `validateAsset` the cache keys tell the sources
apart. `Fetching` is the service with the source that each fetch has asked; in a `Consistent`
state cached metadata and running fetches are of the source that their key names, and every
step keeps it so.
-/

namespace Liquifact.Tokens
open Liquifact.Lib Liquifact.Cache

inductive Source where
  | native
  | contract (contractId : String)
  | issued (code issuer : String)
  deriving DecidableEq

/- Which source a fetch asks. -/
def sourceOf (asset : Asset) : Source :=
  if isNative asset.code then .native
  else if asset.contractId.truthy then .contract (asset.contractId.asString.getD "")
  else .issued (asset.code.asString.getD "") (asset.issuer.asString.getD "")

namespace Source

def key : Source → String
  | .native => "native"
  | .contract contractId => "contract:" ++ contractId
  | .issued code issuer => code ++ ":" ++ issuer

def Valid : Source → Prop
  | .issued code _ => matchesAssetCode code = true
  | _ => True

/-! ### The keys tell the sources apart -/

theorem key_contract (contractId : String) :
    (contract contractId).key = "contract" ++ (String.singleton ':' ++ contractId) := by
  rw [← String.append_assoc]
  rfl

theorem key_issued (code issuer : String) :
    (issued code issuer).key = code ++ (String.singleton ':' ++ issuer) := by
  rw [← String.append_assoc]
  rfl

theorem char_of_matches {code : String} (h : matchesAssetCode code = true) {c : Char}
    (hc : c ∈ code.toList) : ('A' ≤ c ∧ c ≤ 'Z') ∨ ('0' ≤ c ∧ c ≤ '9') := by
  have hall := List.all_eq_true.mp ((Bool.and_eq_true _ _).mp h).2 c hc
  simpa using hall

theorem colon_not_mem {code : String} (h : matchesAssetCode code = true) : ':' ∉ code.toList := by
  intro hc
  exact absurd (char_of_matches h hc) (by decide)

theorem ne_contract {code : String} (h : matchesAssetCode code = true) : code ≠ "contract" := by
  rintro rfl
  have hc : 'c' ∈ "contract".toList := by decide
  exact absurd (char_of_matches h hc) (by decide)

theorem colon_mem_append (a b : String) : ':' ∈ (a ++ (String.singleton ':' ++ b)).toList := by
  rw [append_sep_toList]
  exact List.mem_append_right _ (List.mem_cons_self ..)

theorem native_ne (a b : String) : native.key ≠ a ++ (String.singleton ':' ++ b) := by
  intro h
  have hcolon := colon_mem_append a b
  rw [← h] at hcolon
  exact absurd hcolon (by decide)

theorem key_injective {s t : Source} (hs : s.Valid) (ht : t.Valid) (h : s.key = t.key) : s = t := by
  have hword : ':' ∉ "contract".toList := by decide
  cases s with
  | native =>
    cases t with
    | native => rfl
    | contract contractId => exact absurd (h.trans (key_contract _)) (native_ne _ _)
    | issued code issuer => exact absurd (h.trans (key_issued _ _)) (native_ne _ _)
  | contract contractId =>
    cases t with
    | native => exact absurd (h.symm.trans (key_contract _)) (native_ne _ _)
    | contract contractId' =>
      rw [key_contract, key_contract] at h
      rw [(append_sep_inj hword hword h).2]
    | issued code issuer =>
      rw [key_contract, key_issued] at h
      exact absurd (append_sep_inj hword (colon_not_mem ht) h).1.symm (ne_contract ht)
  | issued code issuer =>
    cases t with
    | native => exact absurd (h.symm.trans (key_issued _ _)) (native_ne _ _)
    | contract contractId =>
      rw [key_contract, key_issued] at h
      exact absurd (append_sep_inj (colon_not_mem hs) hword h).1 (ne_contract hs)
    | issued code' issuer' =>
      rw [key_issued, key_issued] at h
      obtain ⟨rfl, rfl⟩ := append_sep_inj (colon_not_mem hs) (colon_not_mem ht) h
      rfl

end Source

section Valid
variable {checks : AddressChecks} {asset : Option Asset} {a : Asset}

/- An asset that passes is native, a contract, or has a proper code and an issuer. -/
theorem of_validateAsset (h : validateAsset checks asset = .ok a) :
    asset = some a ∧ (isNative a.code = true ∨ a.contractId.truthy = true ∨
      a.issuer.truthy = true ∧ matchesAssetCode (a.code.asString.getD "") = true) := by
  obtain ⟨b, hb, h⟩ := bind_ok h
  have hasset := expect_ok hb
  split at h
  · next hnative =>
    obtain ⟨-, -, h⟩ := bind_ok h
    cases h
    exact ⟨hasset, .inl hnative⟩
  · obtain ⟨code, hcode, h⟩ := bind_ok h
    obtain ⟨_, hmatches, h⟩ := bind_ok h
    split at h
    · next hcontract =>
      obtain ⟨contractId, -, h⟩ := bind_ok h
      obtain ⟨-, -, h⟩ := bind_ok h
      obtain ⟨-, -, h⟩ := bind_ok h
      cases h
      exact ⟨hasset, .inr (.inl hcontract)⟩
    · obtain ⟨_, hissuer, h⟩ := bind_ok h
      obtain ⟨issuer, -, h⟩ := bind_ok h
      obtain ⟨-, -, h⟩ := bind_ok h
      cases h
      have htext : a.code.asString = some code := by
        have htruthy := expect_ok hcode
        unfold truthy at htruthy
        split at htruthy
        · cases htruthy
        · exact htruthy
      refine ⟨hasset, .inr (.inr ⟨require_ok hissuer, ?_⟩)⟩
      rw [htext]
      exact require_ok hmatches

theorem sourceOf_valid (h : validateAsset checks asset = .ok a) : (sourceOf a).Valid := by
  unfold sourceOf
  split
  · trivial
  · next hnative =>
    split
    · trivial
    · next hcontract =>
      rcases (of_validateAsset h).2 with hn | hc | ⟨-, hcode⟩
      · exact absurd hn hnative
      · exact absurd hc hcontract
      · exact hcode

/-- The key of a valid asset is that of its source. -/
theorem generateCacheKey_eq (h : validateAsset checks asset = .ok a) :
    generateCacheKey a = (sourceOf a).key := by
  unfold generateCacheKey sourceOf
  split
  · rfl
  · next hnative =>
    split
    · rfl
    · next hcontract =>
      rcases (of_validateAsset h).2 with hn | hc | ⟨hissuer, -⟩
      · exact absurd hn hnative
      · exact absurd hc hcontract
      · rw [if_pos hissuer]
        rfl

end Valid

/-! ### What a call waits for -/

/- A call returns what is cached, or waits for a fetch that runs or that it starts. -/
inductive Answer where
  | cached (metadata : TokenMetadata)
  | joins (fetch : ℕ)
  | starts (fetch : ℕ)

namespace TokenMeta

def joinOrStart (s : TokenMeta) (key : String) : Answer :=
  match s.inFlightRequests.get key with
  | some f => .joins f
  | none => .starts s.begun

def answer (s : TokenMeta) (key : String) (skipCache : Bool) (now : ℕ) : Answer :=
  if skipCache then s.joinOrStart key
  else
    match (s.tokenCache.get key now).1 with
    | some cached => .cached cached
    | none => s.joinOrStart key

end TokenMeta

/- The fetches are the same, and there is no new entry in the cache. -/
structure Unfetched (s s' : TokenMeta) : Prop where
  begun : s'.begun = s.begun
  fetches : s'.fetches = s.fetches
  inFlight : s'.inFlightRequests = s.inFlightRequests
  cached : ∀ k e, s'.tokenCache.cache.get k = some e → s.tokenCache.cache.get k = some e

/- What a call with a key can do, by what it waits for. -/
inductive Requested (s : TokenMeta) (key : String) : Answer → TokenMeta → Prop where
  | cached {s' : TokenMeta} {e : CacheEntry TokenMetadata}
      (hget : s.tokenCache.cache.get key = some e) (hsame : Unfetched s s') :
      Requested s key (.cached e.value) s'
  | joins {s' : TokenMeta} {f : ℕ} (hin : s.inFlightRequests.get key = some f)
      (hsame : Unfetched s s') : Requested s key (.joins f) s'
  | starts {s' : TokenMeta} (ttlMs : JsNumber) (hin : s.inFlightRequests.get key = none)
      (hbegun : s'.begun = s.begun + 1) (hfetches : s'.fetches = s.fetches ++ [⟨s.begun, key, ttlMs⟩])
      (hinFlight : s'.inFlightRequests = s.inFlightRequests.set key s.begun)
      (hcached : ∀ k e, s'.tokenCache.cache.get k = some e → s.tokenCache.cache.get k = some e) :
      Requested s key (.starts s.begun) s'

section Calls
variable {s t : TokenMeta} {key : String}

theorem requested_joinOrFetch (ttlMs : JsNumber) (h : Unfetched s t) :
    Requested s key (s.joinOrStart key) (t.joinOrFetch key ttlMs) := by
  have hget : t.inFlightRequests.get key = s.inFlightRequests.get key := by rw [h.inFlight]
  unfold TokenMeta.joinOrStart TokenMeta.joinOrFetch
  rw [hget]
  cases hin : s.inFlightRequests.get key with
  | some f => exact .joins hin ⟨h.begun, h.fetches, h.inFlight, h.cached⟩
  | none =>
    refine .starts ttlMs hin ?_ ?_ ?_ h.cached
    · exact congrArg (· + 1) h.begun
    · simp only [h.fetches, h.begun]
    · simp only [h.inFlight, h.begun]

theorem requested_request (s : TokenMeta) (key : String) (options : MetadataOptions) (now : ℕ) :
    Requested s key (s.answer key options.skipCache now) (s.request key options now) := by
  unfold TokenMeta.answer TokenMeta.request
  split
  · exact requested_joinOrFetch _ ⟨rfl, rfl, rfl, fun _ _ h => h⟩
  · have hkept : ∀ k e, (s.tokenCache.get key now).2.cache.get k = some e →
        s.tokenCache.cache.get k = some e := fun _ _ h => MemoryCacheStore.of_get_cache h
    cases hget : s.tokenCache.get key now with
    | mk r store =>
      rw [hget] at hkept
      cases r with
      | none => exact requested_joinOrFetch _ ⟨rfl, rfl, rfl, hkept⟩
      | some cached =>
        obtain ⟨e, hentry, rfl, -⟩ := MemoryCacheStore.get_eq_some_iff.mp (congrArg Prod.fst hget)
        exact .cached hentry ⟨rfl, rfl, rfl, hkept⟩

end Calls

/-! ### What each fetch has asked -/

namespace TokenStep

/- The source of the asset that a call is for, if the asset is valid. -/
def source (checks : AddressChecks) : TokenStep → Option Source
  | .getTokenMetadata asset _ _ => (validateAsset checks asset).toOption.map sourceOf
  | .getFreshTokenMetadata asset _ => (validateAsset checks asset).toOption.map sourceOf
  | .completes .. => none
  | .invalidateTokenMetadata .. => none

end TokenStep

/-- The service with the source that each fetch, by its number, has asked. -/
structure Fetching where
  tokens : TokenMeta
  asked : List Source

namespace Fetching

def initial : Fetching := ⟨.initial, []⟩

/- After a step that may have begun a fetch of the source. -/
def follow (w : Fetching) (src : Option Source) (tokens : TokenMeta) : Fetching :=
  ⟨tokens, if w.tokens.begun < tokens.begun then w.asked ++ src.toList else w.asked⟩

def step (checks : AddressChecks) (w : Fetching) (a : TokenStep) : Fetching :=
  w.follow (a.source checks) (w.tokens.step checks a)

/- The fetch asked the source with the key. -/
def Asks (w : Fetching) (fetch : ℕ) (key : String) : Prop :=
  ∃ src, w.asked[fetch]? = some src ∧ src.Valid ∧ src.key = key

end Fetching

open Fetching

/-- What is cached and what runs is of the source that the key names. -/
structure Consistent (w : Fetching) : Prop where
  begun : w.asked.length = w.tokens.begun
  cached : ∀ k e, w.tokens.tokenCache.cache.get k = some e → w.Asks e.value.fetch k
  tracked : ∀ k i, w.tokens.inFlightRequests.get k = some i →
    ∃ f ∈ w.tokens.fetches, f.key = k ∧ f.id = i
  running : ∀ f ∈ w.tokens.fetches, w.Asks f.id f.key

section Fetching
variable {checks : AddressChecks} {w : Fetching} {s : TokenMeta}

theorem Fetching.Asks.append {fetch : ℕ} {key : String} (h : w.Asks fetch key) (srcs : List Source) :
    (⟨s, w.asked ++ srcs⟩ : Fetching).Asks fetch key := by
  obtain ⟨src, hsrc, hvalid, hkey⟩ := h
  obtain ⟨hlt, -⟩ := List.getElem?_eq_some_iff.mp hsrc
  exact ⟨src, (List.getElem?_append_left hlt).trans hsrc, hvalid, hkey⟩

theorem Fetching.Asks.key_eq {fetch : ℕ} {k k' : String} (h : w.Asks fetch k) (h' : w.Asks fetch k') :
    k = k' := by
  obtain ⟨src, hsrc, -, rfl⟩ := h
  obtain ⟨src', hsrc', -, rfl⟩ := h'
  rw [hsrc] at hsrc'
  rw [Option.some.inj hsrc']

theorem Fetching.Asks.asked_eq {fetch : ℕ} {src : Source} (h : w.Asks fetch src.key)
    (hvalid : src.Valid) : w.asked[fetch]? = some src := by
  obtain ⟨src', hsrc, hvalid', hkey⟩ := h
  rw [hsrc, Source.key_injective hvalid' hvalid hkey]

theorem follow_of_begun {src : Option Source} (hbegun : s.begun = w.tokens.begun) :
    w.follow src s = ⟨s, w.asked⟩ := by
  rw [Fetching.follow, hbegun, if_neg (Nat.lt_irrefl _)]

theorem consistent_initial : Consistent .initial := by
  refine ⟨rfl, ?_, ?_, ?_⟩
  · intro k e h
    cases h
  · intro k i h
    cases h
  · intro f hf
    cases hf

theorem Consistent.unfetched (h : Consistent w) (hsame : Unfetched w.tokens s) :
    Consistent ⟨s, w.asked⟩ := by
  refine ⟨h.begun.trans hsame.begun.symm, ?_, ?_, ?_⟩
  · intro k e hk
    exact h.cached k e (hsame.cached k e hk)
  · intro k i hk
    rw [hsame.inFlight] at hk
    rw [hsame.fetches]
    exact h.tracked k i hk
  · intro f hf
    rw [hsame.fetches] at hf
    exact h.running f hf

theorem Consistent.started (h : Consistent w) {src : Source} (hvalid : src.Valid)
    (hbegun : s.begun = w.tokens.begun + 1) {ttlMs : JsNumber}
    (hfetches : s.fetches = w.tokens.fetches ++ [⟨w.tokens.begun, src.key, ttlMs⟩])
    (hinFlight : s.inFlightRequests = w.tokens.inFlightRequests.set src.key w.tokens.begun)
    (hcached : ∀ k e, s.tokenCache.cache.get k = some e → w.tokens.tokenCache.cache.get k = some e) :
    Consistent ⟨s, w.asked ++ [src]⟩ := by
  have hnew : (⟨s, w.asked ++ [src]⟩ : Fetching).Asks w.tokens.begun src.key := by
    refine ⟨src, ?_, hvalid, rfl⟩
    rw [← h.begun]
    exact List.getElem?_concat_length
  refine ⟨?_, ?_, ?_, ?_⟩
  · rw [List.length_append, h.begun, List.length_singleton]
    exact hbegun.symm
  · intro k e hk
    exact (h.cached k e (hcached k e hk)).append [src]
  · intro k i hk
    rw [hinFlight, OrdMap.get_set] at hk
    rw [hfetches]
    split at hk
    · next hkey =>
      cases hk
      exact ⟨_, List.mem_append_right _ (List.mem_singleton_self _), hkey, rfl⟩
    · obtain ⟨f, hf, hfk, hid⟩ := h.tracked k i hk
      exact ⟨f, List.mem_append_left _ hf, hfk, hid⟩
  · intro f hf
    rw [hfetches] at hf
    rcases List.mem_append.mp hf with hf | hf
    · exact (h.running f hf).append [src]
    · rw [List.mem_singleton.mp hf]
      exact hnew

theorem Consistent.requested (h : Consistent w) {src : Source} (hvalid : src.Valid) {answer : Answer}
    (hcall : Requested w.tokens src.key answer s) :
    Consistent (w.follow (some src) s) := by
  have hunfetched : Unfetched w.tokens s → Consistent (w.follow (some src) s) := by
    intro hsame
    rw [follow_of_begun hsame.begun]
    exact h.unfetched hsame
  cases hcall with
  | cached hget hsame => exact hunfetched hsame
  | joins hin hsame => exact hunfetched hsame
  | starts ttlMs hin hbegun hfetches hinFlight hcached =>
    rw [Fetching.follow, if_pos (by rw [hbegun]; exact Nat.lt_succ_self _)]
    exact h.started hvalid hbegun hfetches hinFlight hcached

/- A fetch that settles leaves the tracker; what it obtained is cached under its key. -/
theorem Consistent.complete (h : Consistent w) {f : Fetch} (hf : f ∈ w.tokens.fetches)
    (outcome : Option FetchedToken) (now : ℕ) : Consistent ⟨w.tokens.complete f outcome now, w.asked⟩ := by
  have htracked : ∀ k i, (w.tokens.inFlightRequests.delete f.key).get k = some i →
      ∃ g ∈ w.tokens.fetches.filter (fun g => decide (g.id ≠ f.id)), g.key = k ∧ g.id = i := by
    intro k i hk
    rw [OrdMap.get_delete] at hk
    split at hk
    · cases hk
    · next hne =>
      obtain ⟨g, hg, rfl, rfl⟩ := h.tracked k i hk
      refine ⟨g, List.mem_filter.mpr ⟨hg, ?_⟩, rfl, rfl⟩
      rw [decide_eq_true_eq]
      intro hid
      exact hne ((h.running f hf).key_eq (hid ▸ h.running g hg))
  have hrunning : ∀ g, (g ∈ w.tokens.fetches.filter fun g => decide (g.id ≠ f.id)) →
      w.Asks g.id g.key := fun g hg => h.running g (List.mem_filter.mp hg).1
  cases outcome with
  | none => exact ⟨h.begun, h.cached, htracked, hrunning⟩
  | some t =>
    refine ⟨h.begun, ?_, htracked, hrunning⟩
    intro k e hk
    rcases MemoryCacheStore.of_set_cache hk with ⟨rfl, rfl⟩ | hold
    · exact h.running f hf
    · exact h.cached k e hold

theorem Consistent.invalidate (h : Consistent w) (key : String) (now : ℕ) :
    Consistent ⟨w.tokens.invalidate key now, w.asked⟩ := by
  refine ⟨h.begun, ?_, h.tracked, h.running⟩
  intro k e hk
  have hk' : ((w.tokens.tokenCache.get key now).2.cache.delete key).get k = some e := hk
  rw [OrdMap.get_delete] at hk'
  split at hk'
  · cases hk'
  · exact h.cached k e (MemoryCacheStore.of_get_cache hk')

theorem begun_complete (f : Fetch) (outcome : Option FetchedToken) (now : ℕ) :
    (s.complete f outcome now).begun = s.begun := by
  cases outcome <;> rfl

theorem Consistent.call (h : Consistent w) (asset : Option Asset) (options : MetadataOptions) (now : ℕ) :
    Consistent (w.follow ((validateAsset checks asset).toOption.map sourceOf)
      (w.tokens.getTokenMetadata checks asset options now)) := by
  unfold TokenMeta.getTokenMetadata
  cases hv : validateAsset checks asset with
  | error m =>
    rw [follow_of_begun rfl]
    exact h
  | ok a =>
    have hcall := requested_request w.tokens (generateCacheKey a) options now
    rw [generateCacheKey_eq hv] at hcall
    simp only [generateCacheKey_eq hv]
    exact h.requested (sourceOf_valid hv) hcall

/-- Every step keeps a consistent state consistent. -/
theorem Consistent.step (h : Consistent w) (a : TokenStep) : Consistent (w.step checks a) := by
  cases a with
  | getTokenMetadata asset options now => exact h.call asset options now
  | getFreshTokenMetadata asset now => exact h.call asset ⟨none, true⟩ now
  | completes fetch outcome now =>
    simp only [Fetching.step, TokenMeta.step]
    split
    · rw [follow_of_begun rfl]
      exact h
    · next f hf =>
      rw [follow_of_begun (begun_complete f outcome now)]
      exact h.complete (List.mem_of_find?_eq_some hf) outcome now
  | invalidateTokenMetadata asset now =>
    simp only [Fetching.step, TokenMeta.step]
    split
    · rw [follow_of_begun rfl]
      exact h
    · next a hv =>
      have hsame : (w.tokens.invalidate (generateCacheKey a) now).begun = w.tokens.begun := rfl
      rw [follow_of_begun hsame]
      exact h.invalidate _ now

/-- Every state that the service reaches is consistent. -/
theorem consistent_run (checks : AddressChecks) (as : List TokenStep) :
    Consistent (run (Fetching.step checks) .initial as) :=
  run_keeps (Fetching.step checks) Consistent (fun _ a h => h.step a) _ as consistent_initial

end Fetching

end Liquifact.Tokens
