import Liquifact.Lib.Fallible
import Liquifact.Lib.JsonText
import Mathlib.Data.List.TakeWhile

/-!
# The API-key registry (`src/config/apiKeys.js`)

`parseApiKeys` (111-130) splits `API_KEYS` at semicolons, reads each part as JSON and checks it
with `validateEntry` (49-98); `buildKeyRegistry` (139-153) refuses a key that occurs twice.
`validateEntry` checks the length of a key before it removes the surrounding white space.
`syntaxError` is the message of `JSON.parse`.
-/

namespace Liquifact.Config
open Liquifact.Lib

def apiKeyPrefix : List Char := ['l', 'f', '_']

def validScopes : List String := ["invoices:read", "invoices:write", "escrow:read"]

def minKeyLength : ℕ := 10

/- `s.length`. -/
def jsLength (s : String) : ℕ := (utf16 s).length

def hasPrefix (key : String) : Bool := apiKeyPrefix.isPrefixOf key.toList

structure ApiKeyEntry where
  key : String
  clientId : String
  scopes : List String
  revoked : Bool
  deriving DecidableEq

/- `API_KEYS[index]: `. -/
def atEntry (index : ℕ) (message : String) : String := "API_KEYS[" ++ toString index ++ "]: " ++ message

/- A string that is not blank. -/
def namedText : Option Json → Option String
  | some (.str s) => if trim s = "" then none else some s
  | _ => none

def validateScopes (index : ℕ) : List Json → Except String (List String)
  | [] => .ok []
  | scope :: rest => do
    let s ← expect (atEntry index ("unknown scope \"" ++ scope.text ++ "\". Valid scopes: " ++
      ", ".intercalate validScopes)) (match scope with
        | .str s => if s ∈ validScopes then some s else none
        | _ => none)
    let scopes ← validateScopes index rest
    .ok (s :: scopes)

/- An array with elements. -/
def someItems : Option Json → Option (List Json)
  | some (.arr []) => none
  | some (.arr items) => some items
  | _ => none

def revokedFlag : Option Json → Option Bool
  | none => some false
  | some (.bool b) => some b
  | _ => none

/-- `validateEntry` (`apiKeys.js:49-98`). -/
def validateEntry (entry : Json) (index : ℕ) : Except String ApiKeyEntry := do
  require (entry.isPlainObject = true) (atEntry index "entry must be a JSON object")
  let key ← expect (atEntry index "\"key\" must be a non-empty string") (namedText (entry.member "key"))
  require (hasPrefix key = true) (atEntry index "\"key\" must start with \"lf_\"")
  require (minKeyLength ≤ jsLength key)
    (atEntry index ("\"key\" must be at least " ++ toString minKeyLength ++ " characters long"))
  let clientId ← expect (atEntry index "\"clientId\" must be a non-empty string")
    (namedText (entry.member "clientId"))
  let items ← expect (atEntry index "\"scopes\" must be a non-empty array")
    (someItems (entry.member "scopes"))
  let scopes ← validateScopes index items
  let revoked ← expect (atEntry index "\"revoked\" must be a boolean when present")
    (revokedFlag (entry.member "revoked"))
  .ok { key := trim key, clientId := trim clientId, scopes := scopes, revoked := revoked }

/- The parts of the variable that are not blank. -/
def chunks (raw : String) : List String :=
  ((raw.toList.splitOn ';').map fun cs => trim (String.ofList cs)).filter (· ≠ "")

section Parse
variable (syntaxError : String → String)

def parseChunks : ℕ → List String → Except String (List ApiKeyEntry)
  | _, [] => .ok []
  | index, chunk :: rest => do
    let parsed ← expect (atEntry index ("failed to parse JSON — " ++ syntaxError chunk))
      (Json.parse chunk)
    let entry ← validateEntry parsed index
    let entries ← parseChunks (index + 1) rest
    .ok (entry :: entries)

/-- `parseApiKeys`; `none` is an absent variable. -/
def parseApiKeys (raw : Option String) : Except String (List ApiKeyEntry) :=
  match raw with
  | none => .ok []
  | some raw => if trim raw = "" then .ok [] else parseChunks syntaxError 0 (chunks raw)

end Parse

def registerAll (registry : OrdMap String ApiKeyEntry) :
    List ApiKeyEntry → Except String (OrdMap String ApiKeyEntry)
  | [] => .ok registry
  | entry :: rest =>
    if registry.has entry.key then
      .error ("API_KEYS: duplicate key detected for clientId \"" ++ entry.clientId ++ "\"")
    else registerAll (registry.set entry.key entry) rest

def buildKeyRegistry (entries : List ApiKeyEntry) : Except String (OrdMap String ApiKeyEntry) :=
  registerAll .empty entries

def loadApiKeyRegistry (syntaxError : String → String) (raw : Option String) :
    Except String (OrdMap String ApiKeyEntry) := do
  let entries ← parseApiKeys syntaxError raw
  buildKeyRegistry entries

/-! ### What a registry holds -/

/- The keys as they stand in the configuration, before the white space is removed. -/
def ConfiguredKey (raw : Option String) (key : String) : Prop :=
  ∃ text, raw = some text ∧ ∃ chunk ∈ chunks text, ∃ v, Json.parse chunk = some v ∧
    v.member "key" = some (.str key)

theorem trim_of_prefix {key : String} (h : hasPrefix key = true) :
    hasPrefix (trim key) = true := by
  rw [hasPrefix, List.isPrefixOf_iff_prefix] at h ⊢
  obtain ⟨rest, hrest⟩ := h
  rw [trim, String.toList_ofList, ← hrest]
  have hfront : (apiKeyPrefix ++ rest).dropWhile isJsSpace = apiKeyPrefix ++ rest := rfl
  rw [hfront, List.reverse_append, List.dropWhile_append]
  split
  · exact List.prefix_refl apiKeyPrefix
  · rw [List.reverse_append, List.reverse_reverse]
    exact List.prefix_append ..

theorem namedText_some {v : Option Json} {s : String} (h : namedText v = some s) :
    v = some (.str s) := by
  unfold namedText at h
  split at h
  · split at h
    · cases h
    · cases h
      rfl
  · cases h

/- An accepted entry: what of its key was checked, and what is stored. -/
theorem validateEntry_ok {v : Json} {index : ℕ} {e : ApiKeyEntry} (h : validateEntry v index = .ok e) :
    ∃ key, v.member "key" = some (.str key) ∧ hasPrefix key = true ∧
      minKeyLength ≤ jsLength key ∧ e.key = trim key := by
  unfold validateEntry at h
  obtain ⟨_, _, h⟩ := bind_ok h
  obtain ⟨key, hkey, h⟩ := bind_ok h
  obtain ⟨_, hprefix, h⟩ := bind_ok h
  obtain ⟨_, hlength, h⟩ := bind_ok h
  obtain ⟨clientId, _, h⟩ := bind_ok h
  obtain ⟨items, _, h⟩ := bind_ok h
  obtain ⟨scopes, _, h⟩ := bind_ok h
  obtain ⟨revoked, _, h⟩ := bind_ok h
  cases h
  exact ⟨key, namedText_some (expect_ok hkey), require_ok hprefix, require_ok hlength, rfl⟩

theorem parseChunks_ok {syntaxError : String → String} {index : ℕ} {parts : List String}
    {entries : List ApiKeyEntry} (h : parseChunks syntaxError index parts = .ok entries) :
    List.Forall₂ (fun chunk e => ∃ v i, Json.parse chunk = some v ∧ validateEntry v i = .ok e)
      parts entries := by
  induction parts generalizing index entries with
  | nil =>
    cases h
    exact .nil
  | cons chunk rest ih =>
    rw [parseChunks] at h
    obtain ⟨v, hv, h⟩ := bind_ok h
    obtain ⟨e, he, h⟩ := bind_ok h
    obtain ⟨es, hes, h⟩ := bind_ok h
    cases h
    exact .cons ⟨v, index, expect_ok hv, he⟩ (ih hes)

section Pairs
variable {α β : Type} {R : α → β → Prop} {as : List α} {bs : List β}

theorem forall₂_mem_left (h : List.Forall₂ R as bs) {a : α} (ha : a ∈ as) : ∃ b ∈ bs, R a b := by
  induction h with
  | nil => cases ha
  | cons hr _ ih =>
    rcases List.mem_cons.mp ha with rfl | ha
    · exact ⟨_, List.mem_cons_self .., hr⟩
    · obtain ⟨b, hb, hab⟩ := ih ha
      exact ⟨b, List.mem_cons_of_mem _ hb, hab⟩

theorem forall₂_mem_right (h : List.Forall₂ R as bs) {b : β} (hb : b ∈ bs) : ∃ a ∈ as, R a b :=
  forall₂_mem_left h.flip hb

end Pairs

theorem blank_of_trim {text : String} (h : trim text = "") : ∀ c ∈ text.toList, isJsSpace c = true := by
  have hback : ((text.toList.dropWhile isJsSpace).reverse.dropWhile isJsSpace).reverse = [] := by
    have hlist := congrArg String.toList h
    rwa [trim, String.toList_ofList] at hlist
  rw [List.reverse_eq_nil_iff, List.dropWhile_eq_nil_iff] at hback
  rw [← List.dropWhile_eq_nil_iff]
  -- nothing that is left in front is white space
  by_contra hne
  have hhead := List.head_dropWhile_not isJsSpace hne
  have hspace := hback _ (List.mem_reverse.mpr (List.head_mem hne))
  rw [hhead] at hspace
  cases hspace

theorem splitOn_whole {cs : List Char} (h : ';' ∉ cs) : cs.splitOn ';' = [cs] := by
  refine List.splitOnP_eq_singleton fun c hc => ?_
  rw [beq_eq_false_iff_ne]
  rintro rfl
  exact h hc

/- A configuration of one entry, with no white space around it. -/
theorem chunks_single {text : String} (hsemi : ';' ∉ text.toList) (htrim : trim text = text)
    (hne : text ≠ "") : chunks text = [text] := by
  rw [chunks, splitOn_whole hsemi, List.map_singleton, String.ofList_toList, htrim]
  simp [hne]

theorem trim_of_ends {c d : Char} {cs : List Char} (hc : isJsSpace c = false)
    (hd : isJsSpace d = false) :
    trim (String.ofList (c :: (cs ++ [d]))) = String.ofList (c :: (cs ++ [d])) := by
  have hback : (c :: (cs ++ [d])).reverse = d :: (c :: cs).reverse := by simp
  rw [trim, String.toList_ofList, List.dropWhile_cons_of_neg (by simp [hc]), hback,
    List.dropWhile_cons_of_neg (by simp [hd]), ← hback, List.reverse_reverse]

theorem chunks_of_blank {text : String} (h : trim text = "") : chunks text = [] := by
  have hsemi : ';' ∉ text.toList := fun hmem => absurd (blank_of_trim h ';' hmem) (by decide)
  simp [chunks, splitOn_whole hsemi, h]

/- The stored keys are the configured ones without their white space. -/
theorem parseApiKeys_keys {syntaxError : String → String} {raw : Option String}
    {entries : List ApiKeyEntry} (h : parseApiKeys syntaxError raw = .ok entries) :
    (∀ e ∈ entries, ∃ key, ConfiguredKey raw key ∧ hasPrefix key = true ∧ e.key = trim key) ∧
      ∀ key, ConfiguredKey raw key → ∃ e ∈ entries, e.key = trim key := by
  cases raw with
  | none =>
    cases h
    refine ⟨nofun, ?_⟩
    rintro key ⟨text, htext, -⟩
    cases htext
  | some text =>
    have hparts : parseChunks syntaxError 0 (chunks text) = .ok entries := by
      simp only [parseApiKeys] at h
      split at h
      · next hblank =>
        cases h
        rw [chunks_of_blank hblank]
        rfl
      · exact h
    have hall := parseChunks_ok hparts
    constructor
    · intro e he
      obtain ⟨chunk, hchunk, v, i, hv, hvalid⟩ := forall₂_mem_right hall he
      obtain ⟨key, hkey, hprefix, -, hstored⟩ := validateEntry_ok hvalid
      exact ⟨key, ⟨text, rfl, chunk, hchunk, v, hv, hkey⟩, hprefix, hstored⟩
    · rintro key ⟨text', htext, chunk, hchunk, v, hv, hkey⟩
      cases htext
      obtain ⟨e, he, v', i, hv', hvalid⟩ := forall₂_mem_left hall hchunk
      obtain ⟨key', hkey', -, -, hstored⟩ := validateEntry_ok hvalid
      rw [hv] at hv'
      cases hv'
      rw [hkey] at hkey'
      cases hkey'
      exact ⟨e, he, hstored⟩

theorem registerAll_ok {registry registry' : OrdMap String ApiKeyEntry} {entries : List ApiKeyEntry}
    (h : registerAll registry entries = .ok registry') :
    registry'.entries = registry.entries ++ entries.map fun e => (e.key, e) := by
  induction entries generalizing registry with
  | nil =>
    cases h
    simp
  | cons e rest ih =>
    rw [registerAll] at h
    split at h
    · cases h
    · next hhas =>
      have hnew : e.key ∉ registry.entries.map Prod.fst := by
        intro hmem
        obtain ⟨⟨k, v⟩, hkv, hk⟩ := List.mem_map.mp hmem
        have hget := (registry.mem_entries_iff k v).mp hkv
        rw [show k = e.key from hk] at hget
        simp [OrdMap.has, hget] at hhas
      have hset : (registry.set e.key e).entries = registry.entries ++ [(e.key, e)] :=
        OrdMap.setL_of_not_mem e.key e registry.entries hnew
      rw [ih h, hset, List.map_cons, List.append_assoc]
      rfl

/-- The registry has the entries of the configuration, in their order. -/
theorem loadApiKeyRegistry_ok {syntaxError : String → String} {raw : Option String}
    {registry : OrdMap String ApiKeyEntry} (h : loadApiKeyRegistry syntaxError raw = .ok registry) :
    ∃ entries, parseApiKeys syntaxError raw = .ok entries ∧
      registry.entries = entries.map fun e => (e.key, e) := by
  obtain ⟨entries, hentries, hbuild⟩ := bind_ok h
  refine ⟨entries, hentries, ?_⟩
  rw [registerAll_ok hbuild]
  rfl

end Liquifact.Config
