import Liquifact.Config.ApiKeys
import Liquifact.Lib.Separated
import Mathlib.Data.List.DropRight

/-!
# The API-key configuration read back (`src/config/apiKeys.js`)

The entries that `validateEntry` (49-98) returns, encoded by `JSON.stringify` and joined with
semicolons, are given to `parseApiKeys` (111-130). It cuts the text at every semicolon, also
at one inside a JSON string, and an entry cut so has two parts that are not blank.
-/

namespace Liquifact.Config
open Liquifact.Lib

/- The returned object, its members in the order of the literal. -/
def ApiKeyEntry.toJson (e : ApiKeyEntry) : Json :=
  .obj [("key", .str e.key), ("clientId", .str e.clientId), ("scopes", .arr (e.scopes.map Json.str)),
    ("revoked", .bool e.revoked)]

def ApiKeyEntry.encode (e : ApiKeyEntry) : String := e.toJson.stringify

def encodeApiKeys (entries : List ApiKeyEntry) : String :=
  joined ';' (entries.map ApiKeyEntry.encode)

/- An entry of the form `validateEntry` returns. -/
def ReturnedEntry (e : ApiKeyEntry) : Prop := ∃ v index, validateEntry v index = .ok e

/-! ### Entries -/

theorem trim_trim (s : String) : trim (trim s) = trim s := by
  have hback : ∀ cs : List Char,
      (cs.reverse.dropWhile isJsSpace).reverse = cs.rdropWhile isJsSpace := fun _ => rfl
  unfold trim
  rw [String.toList_ofList, hback, hback]
  -- what is left begins as it began before its end was cut
  have hfront : ((s.toList.dropWhile isJsSpace).rdropWhile isJsSpace).dropWhile isJsSpace =
      (s.toList.dropWhile isJsSpace).rdropWhile isJsSpace := by
    rw [List.dropWhile_eq_self_iff]
    intro hpos
    have hcut := List.rdropWhile_prefix isJsSpace (s.toList.dropWhile isJsSpace)
    have hpos' := Nat.lt_of_lt_of_le hpos hcut.length_le
    rw [hcut.getElem hpos]
    exact List.dropWhile_get_zero_not isJsSpace s.toList hpos'
  rw [hfront, List.rdropWhile_idempotent]

theorem namedText_nonblank {v : Option Json} {s : String} (h : namedText v = some s) :
    trim s ≠ "" := by
  unfold namedText at h
  split at h
  · split at h
    · cases h
    · next hblank =>
      cases h
      exact hblank
  · cases h

theorem namedText_of_trimmed {s : String} (htrim : trim s = s) (hne : s ≠ "") :
    namedText (some (.str s)) = some s := by
  rw [namedText, htrim, if_neg hne]

theorem someItems_ne_nil {v : Option Json} : someItems v ≠ some [] := by
  unfold someItems
  split
  · simp
  · next hne => simpa using hne
  · simp

theorem validateScopes_ok {index : ℕ} {items : List Json} {scopes : List String}
    (h : validateScopes index items = .ok scopes) :
    items.length = scopes.length ∧ ∀ s ∈ scopes, s ∈ validScopes := by
  induction items generalizing scopes with
  | nil =>
    cases h
    simp
  | cons item rest ih =>
    unfold validateScopes at h
    obtain ⟨s, hs, h⟩ := bind_ok h
    obtain ⟨more, hmore, h⟩ := bind_ok h
    cases h
    obtain ⟨hlength, hvalid⟩ := ih hmore
    refine ⟨by simp [hlength], List.forall_mem_cons.mpr ⟨?_, hvalid⟩⟩
    have hscope := expect_ok hs
    split at hscope
    · split at hscope
      · next hmem =>
        cases hscope
        exact hmem
      · cases hscope
    · cases hscope

theorem validateScopes_of_valid (index : ℕ) {scopes : List String}
    (h : ∀ s ∈ scopes, s ∈ validScopes) :
    validateScopes index (scopes.map Json.str) = .ok scopes := by
  induction scopes with
  | nil => rfl
  | cons s rest ih =>
    rw [List.map_cons, validateScopes]
    simp only [h s (List.mem_cons_self ..), if_true, expect]
    rw [bind_of rfl, bind_of (ih fun x hx => h x (List.mem_cons_of_mem s hx))]

/- What holds of every entry that was returned. -/
structure WellFormedEntry (e : ApiKeyEntry) : Prop where
  hasPrefix : hasPrefix e.key = true
  key : trim e.key = e.key
  clientId : trim e.clientId = e.clientId
  named : e.clientId ≠ ""
  someScope : e.scopes ≠ []
  scopes : ∀ s ∈ e.scopes, s ∈ validScopes

theorem ReturnedEntry.wellFormed {e : ApiKeyEntry} (h : ReturnedEntry e) : WellFormedEntry e := by
  obtain ⟨v, index, h⟩ := h
  unfold validateEntry at h
  obtain ⟨_, _, h⟩ := bind_ok h
  obtain ⟨key, _, h⟩ := bind_ok h
  obtain ⟨_, hfront, h⟩ := bind_ok h
  obtain ⟨_, _, h⟩ := bind_ok h
  obtain ⟨clientId, hclient, h⟩ := bind_ok h
  obtain ⟨items, hitems, h⟩ := bind_ok h
  obtain ⟨scopes, hscopes, h⟩ := bind_ok h
  obtain ⟨revoked, _, h⟩ := bind_ok h
  obtain rfl := Except.ok.inj h
  obtain ⟨hlength, hvalid⟩ := validateScopes_ok hscopes
  have htrimmed := trim_of_prefix (require_ok hfront)
  refine ⟨htrimmed, trim_trim key, trim_trim clientId,
    namedText_nonblank (expect_ok hclient), ?_, hvalid⟩
  intro hnil
  rw [show scopes = [] from hnil] at hlength
  have hsome := expect_ok hitems
  rw [List.length_eq_zero_iff.mp hlength] at hsome
  exact someItems_ne_nil hsome

/- The check accepts what it returned, if the length of the key still suffices. -/
theorem validateEntry_toJson {e : ApiKeyEntry} (h : WellFormedEntry e)
    (hlength : minKeyLength ≤ jsLength e.key) (index : ℕ) : validateEntry e.toJson index = .ok e := by
  have hkey : e.key ≠ "" := by
    intro hempty
    have hfront := h.hasPrefix
    rw [hempty] at hfront
    exact absurd hfront (by decide)
  have hitems : someItems (e.toJson.member "scopes") = some (e.scopes.map Json.str) := by
    show someItems (some (.arr (e.scopes.map Json.str))) = _
    unfold someItems
    split
    · next hnil =>
      cases hscopes : e.scopes with
      | nil => exact absurd hscopes h.someScope
      | cons s rest =>
        rw [hscopes] at hnil
        cases hnil
    · next hsome =>
      cases hsome
      rfl
    · next hno => exact absurd rfl (hno _)
  have hclient : namedText (e.toJson.member "clientId") = some e.clientId :=
    namedText_of_trimmed h.clientId h.named
  have hname : namedText (e.toJson.member "key") = some e.key := namedText_of_trimmed h.key hkey
  unfold validateEntry
  rw [bind_of (require_of (c := e.toJson.isPlainObject = true) rfl), bind_of (expect_of hname),
    bind_of (require_of h.hasPrefix), bind_of (require_of hlength), bind_of (expect_of hclient),
    bind_of (expect_of hitems), bind_of (validateScopes_of_valid index h.scopes),
    bind_of (expect_of (o := revokedFlag (e.toJson.member "revoked")) rfl), h.key, h.clientId]

theorem parse_encode (e : ApiKeyEntry) : Json.parse e.encode = some e.toJson := by
  refine Json.parse_stringify e.toJson ?_
  have hitems : ∀ scopes : List String, PlainItems (scopes.map Json.str) := by
    intro scopes
    induction scopes with
    | nil => simp [PlainItems]
    | cons s rest ih => simp [PlainItems, Json.Plain, ih]
  simp [ApiKeyEntry.toJson, Json.Plain, PlainMembers, hitems]

/-! ### Semicolons in the text of an entry -/

theorem hexDigit_ne_semicolon : ∀ n < 16, hexDigit n ≠ ';' := by decide

theorem not_mem_ite {c : Char} {p : Prop} [Decidable p] {cs ds : List Char} (hcs : p → c ∉ cs)
    (hds : c ∉ ds) : c ∉ (if p then cs else ds) := by
  split
  · next h => exact hcs h
  · exact hds

theorem semicolon_mem_escapeChar (c : Char) : ';' ∈ escapeChar c ↔ c = ';' := by
  by_cases hc : c = ';'
  · subst hc
    decide
  · refine iff_of_false ?_ hc
    have hself : ';' ∉ [c] := by simpa [eq_comm] using hc
    have hcontrol : c.toNat < 32 →
        ';' ∉ ['\\', 'u', '0', '0', hexDigit (c.toNat / 16), hexDigit (c.toNat % 16)] := by
      intro hlt
      have hhigh := hexDigit_ne_semicolon (c.toNat / 16) (by omega)
      have hlow := hexDigit_ne_semicolon (c.toNat % 16) (by omega)
      simp [hhigh.symm, hlow.symm]
    have hshort : ∀ d : Char, ';' ≠ d → ';' ∉ ['\\', d] := by
      intro d hd
      simp [hd]
    have hquote := hshort '"' (by decide)
    have hslash := hshort '\\' (by decide)
    have hb := hshort 'b' (by decide)
    have ht := hshort 't' (by decide)
    have hn := hshort 'n' (by decide)
    have hf := hshort 'f' (by decide)
    have hr := hshort 'r' (by decide)
    unfold escapeChar
    refine not_mem_ite (fun _ => hquote) (not_mem_ite (fun _ => hslash) ?_)
    refine not_mem_ite (fun _ => hb) (not_mem_ite (fun _ => ht) ?_)
    refine not_mem_ite (fun _ => hn) (not_mem_ite (fun _ => hf) ?_)
    exact not_mem_ite (fun _ => hr) (not_mem_ite hcontrol hself)

theorem semicolon_mem_quote (s : String) : ';' ∈ quote s ↔ ';' ∈ s.toList := by
  simp [quote, List.mem_flatMap, semicolon_mem_escapeChar]

theorem semicolon_not_mem_writeItems {scopes : List String} (h : ∀ s ∈ scopes, s ∈ validScopes) :
    ';' ∉ writeItems (scopes.map Json.str) := by
  induction scopes with
  | nil => simp [writeItems]
  | cons s rest ih =>
    have hrest := ih fun x hx => h x (List.mem_cons_of_mem s hx)
    have hscope : ';' ∉ s.toList := by
      have hmem := h s (List.mem_cons_self ..)
      simp only [validScopes, List.mem_cons, List.not_mem_nil, or_false] at hmem
      rcases hmem with rfl | rfl | rfl <;> decide
    simp [writeItems, Json.write, semicolon_mem_quote, hscope, hrest]

theorem semicolon_not_mem_scopes {scopes : List String} (h : ∀ s ∈ scopes, s ∈ validScopes) :
    ';' ∉ (Json.arr (scopes.map Json.str)).write := by
  cases scopes with
  | nil => simp [Json.write]
  | cons s rest =>
    have hitems := semicolon_not_mem_writeItems h
    simp only [List.map_cons, writeItems, Json.write, List.mem_cons, not_or] at hitems ⊢
    exact ⟨by decide, hitems.2⟩

theorem semicolon_mem_encode {e : ApiKeyEntry} (h : WellFormedEntry e) :
    ';' ∈ e.encode.toList ↔ ';' ∈ e.key.toList ∨ ';' ∈ e.clientId.toList := by
  have hscopes := semicolon_not_mem_scopes h.scopes
  have hfixed : ∀ s ∈ ["key", "clientId", "scopes", "revoked"], ';' ∉ quote s := by decide
  have hflag : ';' ∉ (Json.bool e.revoked).write := by
    cases e.revoked <;> decide
  simp only [List.forall_mem_cons] at hfixed
  obtain ⟨hkey, hclient, hscope, hrevoked, -⟩ := hfixed
  rw [ApiKeyEntry.encode, Json.stringify, String.toList_ofList, ApiKeyEntry.toJson]
  simp [Json.write, writeMembers, hkey, hclient, hscope, hrevoked, hscopes, hflag,
    semicolon_mem_quote]

/- The text of an entry stands between its braces. -/
theorem encode_ends (e : ApiKeyEntry) : ∃ cs, e.encode.toList = '\x7b' :: (cs ++ ['\x7d']) := by
  refine ⟨quote "key" ++ ':' :: ((Json.str e.key).write ++ (',' :: (quote "clientId" ++ ':' ::
    ((Json.str e.clientId).write ++ (',' :: (quote "scopes" ++ ':' ::
    ((Json.arr (e.scopes.map Json.str)).write ++ (',' :: (quote "revoked" ++ ':' ::
    (Json.bool e.revoked).write))))))))), ?_⟩
  rw [ApiKeyEntry.encode, Json.stringify, String.toList_ofList, ApiKeyEntry.toJson]
  simp [Json.write, writeMembers]

/-! ### Parts of the text -/

/- The parts of a text that are not blank. -/
def parts (cs : List Char) : List String :=
  ((cs.splitOn ';').map fun part => trim (String.ofList part)).filter (· ≠ "")

theorem chunks_eq_parts (raw : String) : chunks raw = parts raw.toList := rfl

theorem parts_append (cs ds : List Char) : parts (cs ++ ';' :: ds) = parts cs ++ parts ds := by
  rw [parts, List.splitOn_append_cons_self, List.map_append, List.filter_append]
  rfl

theorem parts_ne_nil {cs : List Char} {c : Char} (hc : c ∈ cs) (hsemi : c ≠ ';')
    (hspace : isJsSpace c = false) : parts cs ≠ [] := by
  induction hn : cs.length using Nat.strong_induction_on generalizing cs with
  | _ n ih =>
    by_cases hcut : ';' ∈ cs
    · -- the character is before or after a semicolon
      obtain ⟨as, bs, rfl⟩ := List.append_of_mem hcut
      rw [List.length_append, List.length_cons] at hn
      rw [parts_append]
      rcases List.mem_append.mp hc with hc | hc
      · intro hnil
        exact ih as.length (by omega) hc rfl (List.append_eq_nil_iff.mp hnil).1
      · rcases List.mem_cons.mp hc with hc | hc
        · exact absurd hc hsemi
        · intro hnil
          exact ih bs.length (by omega) hc rfl (List.append_eq_nil_iff.mp hnil).2
    · have hblank : trim (String.ofList cs) ≠ "" := by
        intro hblank
        have hall := blank_of_trim hblank
        rw [String.toList_ofList] at hall
        rw [hall c hc] at hspace
        cases hspace
      simp [parts, splitOn_whole hcut, hblank]

/- A text between braces is one part, or at least two if there is a semicolon in it. -/
theorem parts_of_braces {text : String} {cs : List Char}
    (hends : text.toList = '\x7b' :: (cs ++ ['\x7d'])) :
    (';' ∉ text.toList ∧ parts text.toList = [text]) ∨
      (';' ∈ text.toList ∧ 2 ≤ (parts text.toList).length) := by
  by_cases hcut : ';' ∈ text.toList
  · refine .inr ⟨hcut, ?_⟩
    have hmid : ';' ∈ cs := by
      rw [hends] at hcut
      simpa using hcut
    obtain ⟨as, bs, rfl⟩ := List.append_of_mem hmid
    have hsplit : text.toList = ('\x7b' :: as) ++ ';' :: (bs ++ ['\x7d']) := by
      rw [hends]
      simp
    have hfront : parts ('\x7b' :: as) ≠ [] :=
      parts_ne_nil (List.mem_cons_self ..) (by decide) (by decide)
    have hback : parts (bs ++ ['\x7d']) ≠ [] :=
      parts_ne_nil (List.mem_append_right bs (List.mem_singleton_self _)) (by decide) (by decide)
    rw [hsplit, parts_append, List.length_append]
    have hfront' := List.length_pos_iff.mpr hfront
    have hback' := List.length_pos_iff.mpr hback
    omega
  · refine .inl ⟨hcut, ?_⟩
    have htext : text = String.ofList ('\x7b' :: (cs ++ ['\x7d'])) := by
      rw [← hends, String.ofList_toList]
    have htrim : trim text = text := by
      rw [htext]
      exact trim_of_ends (by decide) (by decide)
    refine chunks_single hcut htrim ?_
    rintro rfl
    cases hends

/-! ### The configuration -/

theorem chunks_encodeApiKeys (e : ApiKeyEntry) (rest : List ApiKeyEntry) :
    chunks (encodeApiKeys (e :: rest)) =
      parts e.encode.toList ++ chunks (encodeApiKeys rest) := by
  cases rest with
  | nil =>
    have hnone : chunks (encodeApiKeys []) = [] := by decide
    rw [hnone, List.append_nil]
    rfl
  | cons next rest =>
    have hjoin : (encodeApiKeys (e :: next :: rest)).toList =
        e.encode.toList ++ ';' :: (encodeApiKeys (next :: rest)).toList :=
      append_sep_toList ';' e.encode (encodeApiKeys (next :: rest))
    rw [chunks_eq_parts, hjoin, parts_append, ← chunks_eq_parts (encodeApiKeys (next :: rest))]

/- A part for each entry, and more when an entry is cut. -/
theorem chunks_length {entries : List ApiKeyEntry} :
    entries.length ≤ (chunks (encodeApiKeys entries)).length ∧
      ((chunks (encodeApiKeys entries)).length = entries.length →
        ∀ e ∈ entries, ';' ∉ e.encode.toList) := by
  induction entries with
  | nil =>
    refine ⟨Nat.zero_le _, ?_⟩
    intro _ e he
    cases he
  | cons e rest ih =>
    obtain ⟨cs, hends⟩ := encode_ends e
    rw [chunks_encodeApiKeys, List.length_append, List.length_cons]
    obtain ⟨hno, hone⟩ | ⟨hyes, htwo⟩ := parts_of_braces hends
    · rw [hone, List.length_singleton]
      refine ⟨by omega, ?_⟩
      intro hlength x hx
      rcases List.mem_cons.mp hx with rfl | hx
      · exact hno
      · exact ih.2 (by omega) x hx
    · refine ⟨by omega, ?_⟩
      intro hlength
      omega

theorem chunks_of_uncut {entries : List ApiKeyEntry} (h : ∀ e ∈ entries, ';' ∉ e.encode.toList) :
    chunks (encodeApiKeys entries) = entries.map ApiKeyEntry.encode := by
  induction entries with
  | nil => decide
  | cons e rest ih =>
    obtain ⟨cs, hends⟩ := encode_ends e
    obtain ⟨-, hone⟩ | ⟨hyes, -⟩ := parts_of_braces hends
    · rw [chunks_encodeApiKeys, hone, ih fun x hx => h x (List.mem_cons_of_mem e hx)]
      rfl
    · exact absurd hyes (h e (List.mem_cons_self ..))

section Parse
variable {syntaxError : String → String} {entries : List ApiKeyEntry}

theorem parseApiKeys_encode :
    parseApiKeys syntaxError (some (encodeApiKeys entries)) =
      parseChunks syntaxError 0 (chunks (encodeApiKeys entries)) := by
  rw [parseApiKeys]
  split
  · next hblank =>
    rw [chunks_of_blank hblank]
    rfl
  · rfl

theorem parseChunks_encoded (h : ∀ e ∈ entries, WellFormedEntry e)
    (hlength : ∀ e ∈ entries, minKeyLength ≤ jsLength e.key) (index : ℕ) :
    parseChunks syntaxError index (entries.map ApiKeyEntry.encode) = .ok entries := by
  induction entries generalizing index with
  | nil => rfl
  | cons e rest ih =>
    have hmem := List.mem_cons_self (a := e) (l := rest)
    have hrest := ih (fun x hx => h x (List.mem_cons_of_mem e hx))
      (fun x hx => hlength x (List.mem_cons_of_mem e hx)) (index + 1)
    rw [List.map_cons, parseChunks, bind_of (expect_of (parse_encode e)),
      bind_of (validateEntry_toJson (h e hmem) (hlength e hmem) index), bind_of hrest]

/- As many parts as entries, so no entry is cut; each part was checked again. -/
theorem of_round_trip
    (h : parseApiKeys syntaxError (some (encodeApiKeys entries)) = .ok entries) :
    ∀ e ∈ entries, ';' ∉ e.encode.toList ∧ minKeyLength ≤ jsLength e.key := by
  rw [parseApiKeys_encode] at h
  have hall := parseChunks_ok h
  have huncut := chunks_length.2 hall.length_eq
  rw [chunks_of_uncut huncut, List.forall₂_map_left_iff] at hall
  have hsame : ∀ e ∈ entries, ∃ v i, Json.parse e.encode = some v ∧ validateEntry v i = .ok e :=
    List.forall₂_same.mp hall
  intro e he
  obtain ⟨v, i, hv, hvalid⟩ := hsame e he
  rw [parse_encode] at hv
  cases hv
  obtain ⟨key, hkey, -, hlength, -⟩ := validateEntry_ok hvalid
  cases hkey
  exact ⟨huncut e he, hlength⟩

/-- Entries of the form `validateEntry` returns are read back from their joined encodings if
and only if no key and no client identifier contains a semicolon and every key has the minimum
length without the white space that was removed from it. -/
theorem api_keys_round_trip_iff (hreturned : ∀ e ∈ entries, ReturnedEntry e) :
    parseApiKeys syntaxError (some (encodeApiKeys entries)) = .ok entries ↔
      ∀ e ∈ entries, ';' ∉ e.key.toList ∧ ';' ∉ e.clientId.toList ∧
        minKeyLength ≤ jsLength e.key := by
  have hwell : ∀ e ∈ entries, WellFormedEntry e := fun e he => (hreturned e he).wellFormed
  constructor
  · intro h e he
    obtain ⟨huncut, hlength⟩ := of_round_trip h e he
    rw [semicolon_mem_encode (hwell e he), not_or] at huncut
    exact ⟨huncut.1, huncut.2, hlength⟩
  · intro h
    have huncut : ∀ e ∈ entries, ';' ∉ e.encode.toList := by
      intro e he
      rw [semicolon_mem_encode (hwell e he), not_or]
      exact ⟨(h e he).1, (h e he).2.1⟩
    rw [parseApiKeys_encode, chunks_of_uncut huncut]
    exact parseChunks_encoded hwell (fun e he => (h e he).2.2) 0

end Parse

def billingEntry (clientId : String) : ApiKeyEntry :=
  ⟨"lf_svc_key_001", clientId, ["invoices:read", "invoices:write"], false⟩

theorem billingEntry_returned {clientId : String} (htrim : trim clientId = clientId)
    (hne : clientId ≠ "") : ReturnedEntry (billingEntry clientId) := by
  have hfront : hasPrefix "lf_svc_key_001" = true := by decide
  have hkey : trim "lf_svc_key_001" = "lf_svc_key_001" := by decide
  have hlength : minKeyLength ≤ jsLength "lf_svc_key_001" := by decide
  have hwell : WellFormedEntry (billingEntry clientId) := by
    refine ⟨hfront, hkey, htrim, hne, List.cons_ne_nil _ _, ?_⟩
    intro s hs
    exact List.mem_of_mem_take (i := 2) hs
  exact ⟨_, 0, validateEntry_toJson (e := billingEntry clientId) hwell hlength 0⟩

theorem api_keys_round_trip_sample : parseApiKeys (fun _ => "")
    (some (encodeApiKeys [billingEntry "billing-service", billingEntry "legacy-service"])) =
      .ok [billingEntry "billing-service", billingEntry "legacy-service"] := by
  refine (api_keys_round_trip_iff ?_).mpr ?_
  · intro e he
    simp only [List.mem_cons, List.not_mem_nil, or_false] at he
    rcases he with rfl | rfl
    · exact billingEntry_returned (by decide) (by decide)
    · exact billingEntry_returned (by decide) (by decide)
  · intro e he
    simp only [List.mem_cons, List.not_mem_nil, or_false] at he
    rcases he with rfl | rfl
    · exact ⟨by decide, by decide, by decide⟩
    · exact ⟨by decide, by decide, by decide⟩

/- The client identifier is a text that `validateEntry` accepts. -/
theorem semicolon_cuts_entry : ¬ ∀ (syntaxError : String → String) (entries : List ApiKeyEntry),
    (∀ e ∈ entries, ReturnedEntry e) →
      parseApiKeys syntaxError (some (encodeApiKeys entries)) = .ok entries := by
  intro h
  have hreturned : ReturnedEntry (billingEntry "team;billing") :=
    billingEntry_returned (by decide) (by decide)
  have hback := h (fun _ => "") [billingEntry "team;billing"] (by simpa using hreturned)
  have huncut := (of_round_trip hback _ (List.mem_singleton_self _)).1
  rw [semicolon_mem_encode hreturned.wellFormed] at huncut
  exact huncut (.inr (by decide))

end Liquifact.Config
