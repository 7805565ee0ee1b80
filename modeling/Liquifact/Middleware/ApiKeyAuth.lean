import Liquifact.Config.ApiKeys

/-!
# API-key authentication (`src/middleware/apiKeyAuth.js`)

`authenticateApiKey` (79-118) loads the registry anew for each request, looks the trimmed
`X-API-Key` header up by comparing SHA-256 digests with every key (`findEntry`, 45-53), and
checks revocation and the required scope.
-/

namespace Liquifact.Middleware
open Liquifact.Lib Liquifact.Config

structure ApiClient where
  clientId : String
  scopes : List String
  deriving DecidableEq

/- What the middleware does with a request: an answer, an error, or `next()` with the client
attached. -/
inductive Outcome where
  | answer (status : ℕ) (error : String)
  | threw (message : String)
  | next (client : ApiClient)
  deriving DecidableEq

/- A later match replaces an earlier one. -/
def findEntry (sha256 : String → String) (registry : OrdMap String ApiKeyEntry) (candidate : String) :
    Option ApiKeyEntry :=
  registry.entries.foldl (fun matched e =>
    if sha256 candidate = sha256 e.1 then some e.2 else matched) none

/- The checks on the entry that was found. -/
def checkEntry (requiredScope : Option String) (entry : ApiKeyEntry) : Outcome :=
  if entry.revoked then .answer 401 "API key has been revoked."
  else match truthy requiredScope with
    | some scope =>
      if scope ∈ entry.scopes then .next ⟨entry.clientId, entry.scopes⟩
      else .answer 403 ("Insufficient permissions. Required scope: \"" ++ scope ++ "\".")
    | none => .next ⟨entry.clientId, entry.scopes⟩

/-- `authenticateApiKey`; `raw` is `API_KEYS` and `header` the value of `X-API-Key`. -/
def authenticateApiKey (sha256 syntaxError : String → String) (requiredScope raw : Option String)
    (header : JsValue) : Outcome :=
  match header.asString with
  | none => .answer 401 "API key is required. Provide it via the X-API-Key header."
  | some rawKey =>
    if trim rawKey = "" then
      .answer 401 "API key is required. Provide it via the X-API-Key header."
    else match loadApiKeyRegistry syntaxError raw with
      | .error message => .threw message
      | .ok registry =>
        match findEntry sha256 registry (trim rawKey) with
        | none => .answer 401 "Invalid API key."
        | some entry => checkEntry requiredScope entry

/-! ### Soundness -/

/-- The registry that `raw` loads to: every key starts with the prefix, has the minimum length
as it is stored, and occurs once; a request passes exactly when its trimmed key is one of them
that is not revoked and has the scope, and then with the client of that key. -/
structure RegistrySound (sha256 syntaxError : String → String) (raw : Option String)
    (registry : OrdMap String ApiKeyEntry) : Prop where
  hasPrefix : ∀ e ∈ registry.values, Config.hasPrefix e.key = true
  minLength : ∀ e ∈ registry.values, minKeyLength ≤ jsLength e.key
  once : (registry.values.map ApiKeyEntry.key).Nodup
  passes : ∀ (requiredScope : Option String) (header : JsValue) (client : ApiClient),
    authenticateApiKey sha256 syntaxError requiredScope raw header = .next client ↔
      ∃ rawKey, header.asString = some rawKey ∧ ∃ e ∈ registry.values, e.key = trim rawKey ∧
        e.revoked = false ∧ (∀ scope, truthy requiredScope = some scope → scope ∈ e.scopes) ∧
        client = ⟨e.clientId, e.scopes⟩

section Lookup
variable {sha256 : String → String} {registry : OrdMap String ApiKeyEntry}

theorem foldl_matches (hinj : Function.Injective sha256) (candidate : String)
    (es : List (String × ApiKeyEntry)) (hnodup : (es.map Prod.fst).Nodup)
    (matched : Option ApiKeyEntry) :
    es.foldl (fun matched e => if sha256 candidate = sha256 e.1 then some e.2 else matched) matched =
      (OrdMap.lookupL candidate es).or matched := by
  induction es generalizing matched with
  | nil => rfl
  | cons e es ih =>
    rw [List.map_cons, List.nodup_cons] at hnodup
    rw [List.foldl_cons, ih hnodup.2, OrdMap.lookupL]
    by_cases hkey : e.1 = candidate
    · have hlater : OrdMap.lookupL candidate es = none := by
        cases hfound : OrdMap.lookupL candidate es with
        | none => rfl
        | some v =>
          have hmem := OrdMap.mem_of_lookupL candidate v es hfound
          exact absurd (List.mem_map_of_mem hmem) (hkey ▸ hnodup.1)
      rw [if_pos hkey, if_pos (by rw [hkey]), hlater]
      rfl
    · rw [if_neg hkey, if_neg fun h => hkey (hinj h).symm]

theorem findEntry_eq_get (hinj : Function.Injective sha256) (candidate : String) :
    findEntry sha256 registry candidate = registry.get candidate := by
  rw [findEntry, foldl_matches hinj candidate registry.entries registry.nodup, Option.or_none]
  rfl

theorem checkEntry_next_iff {requiredScope : Option String} {e : ApiKeyEntry} {client : ApiClient} :
    checkEntry requiredScope e = .next client ↔ e.revoked = false ∧
      (∀ scope, truthy requiredScope = some scope → scope ∈ e.scopes) ∧
      client = ⟨e.clientId, e.scopes⟩ := by
  unfold checkEntry
  cases hrevoked : e.revoked with
  | true => simp
  | false =>
    cases hscope : truthy requiredScope with
    | none => simp [eq_comm]
    | some scope =>
      by_cases hmem : scope ∈ e.scopes
      · simp [hmem, eq_comm]
      · simp [hmem]

/- The keys are the keys of the map, so an entry is found under its key. -/
theorem get_iff_of_entries {entries : List ApiKeyEntry}
    (hentries : registry.entries = entries.map fun e => (e.key, e)) {key : String} {e : ApiKeyEntry} :
    registry.get key = some e ↔ e ∈ registry.values ∧ e.key = key := by
  rw [← OrdMap.mem_entries_iff, OrdMap.values, hentries]
  simp only [List.mem_map, Prod.mk.injEq, List.map_map, Function.comp_apply]
  constructor
  · rintro ⟨x, hx, rfl, rfl⟩
    exact ⟨⟨x, hx, rfl⟩, rfl⟩
  · rintro ⟨⟨x, hx, rfl⟩, rfl⟩
    exact ⟨x, hx, rfl, rfl⟩

theorem empty_not_prefixed : Config.hasPrefix "" = false := by decide

end Lookup

section Sound
variable {sha256 syntaxError : String → String} {raw : Option String}
  {registry : OrdMap String ApiKeyEntry}

theorem stored_key_starts (hload : loadApiKeyRegistry syntaxError raw = .ok registry) :
    ∀ e ∈ registry.values, Config.hasPrefix e.key = true := by
  obtain ⟨entries, hparse, hentries⟩ := loadApiKeyRegistry_ok hload
  intro e he
  have hmem : e ∈ entries := by
    rw [OrdMap.values, hentries] at he
    simpa using he
  obtain ⟨key, -, hprefix, hstored⟩ := (parseApiKeys_keys hparse).1 e hmem
  rw [hstored]
  exact trim_of_prefix hprefix

theorem passes_iff (hinj : Function.Injective sha256)
    (hload : loadApiKeyRegistry syntaxError raw = .ok registry) (requiredScope : Option String)
    (header : JsValue) (client : ApiClient) :
    authenticateApiKey sha256 syntaxError requiredScope raw header = .next client ↔
      ∃ rawKey, header.asString = some rawKey ∧ ∃ e ∈ registry.values, e.key = trim rawKey ∧
        e.revoked = false ∧ (∀ scope, truthy requiredScope = some scope → scope ∈ e.scopes) ∧
        client = ⟨e.clientId, e.scopes⟩ := by
  obtain ⟨entries, hparse, hentries⟩ := loadApiKeyRegistry_ok hload
  unfold authenticateApiKey
  cases header.asString with
  | none => simp
  | some rawKey =>
    simp only [Option.some.injEq, exists_eq_left']
    split
    · -- a blank header, and no key is empty
      next hblank =>
      constructor
      · intro h
        cases h
      · rintro ⟨e, he, hkey, -⟩
        have hprefix := stored_key_starts hload e he
        rw [hkey, hblank, empty_not_prefixed] at hprefix
        cases hprefix
    · simp only [hload, findEntry_eq_get hinj]
      cases hget : registry.get (trim rawKey) with
      | none =>
        constructor
        · intro h
          cases h
        · rintro ⟨e, he, hkey, -⟩
          rw [(get_iff_of_entries hentries).mpr ⟨he, hkey⟩] at hget
          cases hget
      | some e =>
        obtain ⟨he, hkey⟩ := (get_iff_of_entries hentries).mp hget
        rw [checkEntry_next_iff]
        constructor
        · intro h
          exact ⟨e, he, hkey, h⟩
        · rintro ⟨e', he', hkey', h⟩
          have hget' := (get_iff_of_entries hentries).mpr ⟨he', hkey'⟩
          rw [hget] at hget'
          cases hget'
          exact h

/-- For every configuration that loads, the registry and the middleware are sound exactly when
every configured key keeps its minimum length without the white space around it. -/
theorem registry_sound_iff (hinj : Function.Injective sha256)
    (hload : loadApiKeyRegistry syntaxError raw = .ok registry) :
    RegistrySound sha256 syntaxError raw registry ↔
      ∀ key, ConfiguredKey raw key → minKeyLength ≤ jsLength (trim key) := by
  obtain ⟨entries, hparse, hentries⟩ := loadApiKeyRegistry_ok hload
  have hvalues : registry.values = entries := by
    rw [OrdMap.values, hentries, List.map_map]
    exact List.map_id entries
  obtain ⟨hfrom, hto⟩ := parseApiKeys_keys hparse
  constructor
  · intro h key hkey
    obtain ⟨e, he, hstored⟩ := hto key hkey
    rw [← hstored]
    exact h.minLength e (hvalues ▸ he)
  · intro h
    refine ⟨stored_key_starts hload, ?_, ?_, passes_iff hinj hload⟩
    · intro e he
      obtain ⟨key, hkey, -, hstored⟩ := hfrom e (hvalues ▸ he)
      rw [hstored]
      exact h key hkey
    · have hnodup := registry.nodup
      rw [hentries, List.map_map] at hnodup
      rw [hvalues]
      exact hnodup

end Sound

def sampleConfig (key : String) : String :=
  "\x7b\"key\":\"" ++ key ++ "\",\"clientId\":\"service-a\",\"scopes\":[\"escrow:read\"]\x7d"

/- SHA-256 at the sample's key. -/
def sampleDigest (s : String) : String :=
  if s = "lf_abcdefg" then "b64a7a46fd3adc49385ba84a6daadbcb68f1d4767dc60b7a76582eddcff8fe52"
  else "of " ++ s

theorem sampleDigest_injective : Function.Injective sampleDigest := by
  have hfirst : ∀ s, sampleDigest "lf_abcdefg" ≠ "of " ++ s := by
    intro s h
    have hdigest : sampleDigest "lf_abcdefg" =
        "b64a7a46fd3adc49385ba84a6daadbcb68f1d4767dc60b7a76582eddcff8fe52" := if_pos rfl
    rw [hdigest] at h
    have hlist := congrArg String.toList h
    rw [String.toList_append, String.toList_ofList, String.toList_ofList] at hlist
    exact absurd (List.cons.inj hlist).1 (by decide)
  intro s t h
  by_cases hs : s = "lf_abcdefg"
  · by_cases ht : t = "lf_abcdefg"
    · rw [hs, ht]
    · rw [hs, show sampleDigest t = "of " ++ t from if_neg ht] at h
      exact absurd h (hfirst t)
  · rw [show sampleDigest s = "of " ++ s from if_neg hs] at h
    by_cases ht : t = "lf_abcdefg"
    · rw [ht] at h
      exact absurd h.symm (hfirst s)
    · rw [show sampleDigest t = "of " ++ t from if_neg ht] at h
      exact (String.append_right_inj "of ").mp h

def sampleValue (key : String) : Json :=
  .obj [("key", .str key), ("clientId", .str "service-a"), ("scopes", .arr [.str "escrow:read"])]

def sampleEntry (key : String) : ApiKeyEntry := ⟨key, "service-a", ["escrow:read"], false⟩

section Sample
variable {key : String}

theorem sampleConfig_ends (key : String) : sampleConfig key =
    String.ofList ('\x7b' :: (("\"key\":\"".toList ++ (key.toList ++
      "\",\"clientId\":\"service-a\",\"scopes\":[\"escrow:read\"]".toList)) ++ ['\x7d'])) := by
  rw [← String.toList_inj, String.toList_ofList, sampleConfig, String.toList_append,
    String.toList_append]
  simp

theorem chunks_sampleConfig (hsemi : ';' ∉ key.toList) : chunks (sampleConfig key) = [sampleConfig key] := by
  have htrim : trim (sampleConfig key) = sampleConfig key := by
    rw [sampleConfig_ends]
    exact trim_of_ends (by decide) (by decide)
  refine chunks_single ?_ htrim ?_
  · rw [sampleConfig_ends, String.toList_ofList]
    simp [hsemi]
  · rw [sampleConfig_ends, Ne, ← String.toList_inj, String.toList_ofList]
    exact List.cons_ne_nil _ _

theorem parse_sampleConfig (hplain : key.toList.flatMap escapeChar = key.toList) :
    Json.parse (sampleConfig key) = some (sampleValue key) := by
  have htext : sampleConfig key = (sampleValue key).stringify := by
    rw [← String.toList_inj, Json.stringify, String.toList_ofList, sampleConfig_ends,
      String.toList_ofList]
    simp [sampleValue, Json.write, writeMembers, writeItems, quote, hplain, escapeChar]
  rw [htext]
  refine Json.parse_stringify _ ?_
  simp [sampleValue, Json.Plain, PlainMembers, PlainItems]

theorem load_sampleConfig (hplain : key.toList.flatMap escapeChar = key.toList)
    (hsemi : ';' ∉ key.toList) {stored : String}
    (hentry : validateEntry (sampleValue key) 0 = .ok (sampleEntry stored)) :
    loadApiKeyRegistry (fun _ => "") (some (sampleConfig key)) =
      .ok (OrdMap.empty.set stored (sampleEntry stored)) := by
  have hchunks := chunks_sampleConfig hsemi
  have hblank : trim (sampleConfig key) ≠ "" := by
    intro h
    rw [chunks_of_blank h] at hchunks
    cases hchunks
  simp only [loadApiKeyRegistry, parseApiKeys, if_neg hblank, hchunks, parseChunks,
    parse_sampleConfig hplain, hentry, expect, bind, Except.bind]
  rfl

end Sample

theorem registry_sound_sample : ∃ registry,
    loadApiKeyRegistry (fun _ => "") (some (sampleConfig "lf_abcdefg")) = .ok registry ∧
      RegistrySound sampleDigest (fun _ => "") (some (sampleConfig "lf_abcdefg")) registry := by
  have hplain : "lf_abcdefg".toList.flatMap escapeChar = "lf_abcdefg".toList := by
    rw [String.toList_ofList]
    decide
  have hsemi : ';' ∉ "lf_abcdefg".toList := by decide
  have hentry : validateEntry (sampleValue "lf_abcdefg") 0 = .ok (sampleEntry "lf_abcdefg") := by rfl
  have hload := load_sampleConfig hplain hsemi hentry
  refine ⟨_, hload, (registry_sound_iff sampleDigest_injective hload).mpr ?_⟩
  rintro key ⟨text, hraw, chunk, hchunk, v, hv, hkey⟩
  cases hraw
  rw [chunks_sampleConfig hsemi, List.mem_singleton] at hchunk
  rw [hchunk, parse_sampleConfig hplain] at hv
  cases hv
  cases hkey
  decide

/- Three blanks make the key long enough for the check; they are not stored. -/
theorem blanks_count_as_length : ¬ ∀ (sha256 syntaxError : String → String) (raw : Option String)
    (registry : OrdMap String ApiKeyEntry), Function.Injective sha256 →
    loadApiKeyRegistry syntaxError raw = .ok registry →
    RegistrySound sha256 syntaxError raw registry := by
  intro h
  have hplain : "lf_1234   ".toList.flatMap escapeChar = "lf_1234   ".toList := by
    rw [String.toList_ofList]
    decide
  have hsemi : ';' ∉ "lf_1234   ".toList := by decide
  have hentry : validateEntry (sampleValue "lf_1234   ") 0 = .ok (sampleEntry "lf_1234") := by rfl
  have hload := load_sampleConfig hplain hsemi hentry
  have hsound := h sampleDigest _ _ _ sampleDigest_injective hload
  exact absurd (hsound.minLength (sampleEntry "lf_1234") (List.mem_singleton_self _)) (by decide)

end Liquifact.Middleware
