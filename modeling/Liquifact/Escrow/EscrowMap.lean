import Liquifact.Lib.Fallible
import Liquifact.Lib.JsValue
import Mathlib.Data.List.Induction

/-!
# The escrow map (`src/config/escrowMap.js`)

`_parseConfig` (69-114), `_currentEnvironment` (125-127), `_rebuildCache` (134-155),
`resolveEscrowAddress` (204-220) and `resolveInvoiceByAddress` (232-242). With the two
environment variables fixed a rebuilt cache is the same cache, so the lookups are made here
against what `_rebuildCache` builds; the fields that only say when to rebuild are left out.
The address check is a parameter.
-/

namespace Liquifact.Escrow
open Liquifact.Lib

structure Mapping where
  invoiceId : String
  escrowAddress : String
  isActive : Option Json
  environment : Option Json

structure EscrowMapConfig where
  mappings : List Mapping
  defaultEnvironment : Json

def textOf : Option Json → Option String
  | some (.str s) => truthy (some s)
  | _ => none

section Parse
variable (isValidStellarAddress : String → Bool)

def parseMapping (m : Json) : Except String Mapping := do
  let invoiceId ← expect "Each mapping must have a string invoiceId." (textOf (m.member "invoiceId"))
  let escrowAddress ← expect
    ("Mapping for " ++ invoiceId ++ " has an invalid Stellar escrowAddress.")
    ((textOf (m.member "escrowAddress")).filter isValidStellarAddress)
  .ok ⟨invoiceId, escrowAddress, m.member "isActive", m.member "environment"⟩

/-- `_parseConfig`; `raw` is what `JSON.parse` makes of the variable, none if it is not set. -/
def parseConfig (raw : Option (Except String Json)) : Except String EscrowMapConfig :=
  match raw with
  | none => .ok ⟨[], .str "development"⟩
  | some (.error _) => .error
      "ESCROW_ADDR_BY_INVOICE is not valid JSON. Check your environment configuration."
  | some (.ok parsed) =>
    match parsed.member "mappings" with
    | some (.arr items) => do
      let mappings ← items.mapM (parseMapping isValidStellarAddress)
      .ok ⟨mappings, (jsOr (parsed.member "defaultEnvironment") (some (.str "development"))).getD
        (.str "development")⟩
    | _ => .error "ESCROW_ADDR_BY_INVOICE.mappings must be an array."

end Parse

/- `a === b`; two objects of a parsed text are never the same. -/
def strictEq : Json → Json → Bool
  | .null, .null => true
  | .bool a, .bool b => a == b
  | .num a, .num b => decide (a = b ∧ a ≠ .nan)
  | .str a, .str b => decide (a = b)
  | _, _ => false

def currentEnvironment (nodeEnv : Option String) (config : EscrowMapConfig) : Json :=
  match truthy nodeEnv with
  | some env => .str env
  | none => config.defaultEnvironment

namespace Mapping

/- `m.isActive === false`. -/
def inactive (m : Mapping) : Bool :=
  match m.isActive with
  | some (.bool false) => true
  | _ => false

def inEnvironment (m : Mapping) (env : Json) : Bool :=
  match m.environment with
  | some e => strictEq e env
  | none => false

end Mapping

namespace EscrowMapConfig

def addToIndex (env : Json) (index : OrdMap String String) (m : Mapping) : OrdMap String String :=
  if m.inactive then index
  else if !m.inEnvironment env then index
  else index.set m.escrowAddress m.invoiceId

/-- The reverse index of `_rebuildCache`: a later mapping of an address replaces an earlier one. -/
def reverseIndex (config : EscrowMapConfig) (env : Json) : OrdMap String String :=
  config.mappings.foldl (addToIndex env) .empty

def resolveEscrowAddress (config : EscrowMapConfig) (env : Json) (invoiceId : String) :
    Except String String :=
  match config.mappings.find? fun m =>
      decide (m.invoiceId = invoiceId) && !m.inactive && m.inEnvironment env with
  | none => .error ("No active escrow contract mapped for invoiceId: " ++ invoiceId)
  | some m => .ok m.escrowAddress

def resolveInvoiceByAddress (isValidStellarAddress : String → Bool) (config : EscrowMapConfig)
    (env : Json) (contractAddress : Option String) : Option String :=
  match contractAddress with
  | none => none
  | some a =>
    if isValidStellarAddress (trim a) then truthy ((config.reverseIndex env).get (trim a))
    else none

/-! ### The mappings in force -/

/- The active mappings of the environment, in the order of the configuration. -/
def inForce (config : EscrowMapConfig) (env : Json) : List Mapping :=
  config.mappings.filter fun m => !m.inactive && m.inEnvironment env

end EscrowMapConfig

def firstFor (ms : List Mapping) (invoiceId : String) : Option Mapping :=
  ms.find? fun m => decide (m.invoiceId = invoiceId)

def lastFor (ms : List Mapping) (escrowAddress : String) : Option Mapping :=
  ms.reverse.find? fun m => decide (m.escrowAddress = escrowAddress)

/-- The first mapping of the invoice gives another address. -/
def Shadowed (ms : List Mapping) (m : Mapping) : Prop :=
  ∃ n, firstFor ms m.invoiceId = some n ∧ n.escrowAddress ≠ m.escrowAddress

/-- The last mapping of the address gives another invoice. -/
def Overwritten (ms : List Mapping) (m : Mapping) : Prop :=
  ∃ n, lastFor ms m.escrowAddress = some n ∧ n.invoiceId ≠ m.invoiceId

/-- Each of the two lookups undoes the other. -/
def Invertible (isValidStellarAddress : String → Bool) (config : EscrowMapConfig) (env : Json) :
    Prop :=
  (∀ i a, config.resolveEscrowAddress env i = .ok a →
    config.resolveInvoiceByAddress isValidStellarAddress env (some a) = some i) ∧
  ∀ a i, isValidStellarAddress a = true →
    config.resolveInvoiceByAddress isValidStellarAddress env (some a) = some i →
    config.resolveEscrowAddress env i = .ok a

section Lookups
variable {config : EscrowMapConfig} {env : Json}

theorem resolveEscrowAddress_ok_iff (i a : String) :
    config.resolveEscrowAddress env i = .ok a ↔
      ∃ m, firstFor (config.inForce env) i = some m ∧ m.escrowAddress = a := by
  have hfind : (config.mappings.find? fun m =>
      decide (m.invoiceId = i) && !m.inactive && m.inEnvironment env) =
      firstFor (config.inForce env) i := by
    rw [firstFor, EscrowMapConfig.inForce, List.find?_filter]
    congr 1
    funext m
    cases decide (m.invoiceId = i) <;> cases m.inactive <;> cases m.inEnvironment env <;> rfl
  rw [EscrowMapConfig.resolveEscrowAddress, hfind]
  cases firstFor (config.inForce env) i with
  | none => simp
  | some m => simp

/- The index has, for each address, the invoice of its last mapping in force. -/
theorem reverseIndex_get (a : String) :
    (config.reverseIndex env).get a = (lastFor (config.inForce env) a).map Mapping.invoiceId := by
  unfold EscrowMapConfig.reverseIndex EscrowMapConfig.inForce
  induction config.mappings using List.reverseRecOn with
  | nil => rfl
  | append_singleton ms m ih =>
    rw [List.foldl_append, List.foldl_cons, List.foldl_nil, List.filter_append]
    by_cases hin : (!m.inactive && m.inEnvironment env) = true
    · obtain ⟨hact, henv⟩ := Bool.and_eq_true_iff.mp hin
      simp only [Bool.not_eq_true'] at hact
      simp only [EscrowMapConfig.addToIndex, hact, henv, Bool.false_eq_true, if_false,
        Bool.not_true, OrdMap.get_set, ih]
      simp only [lastFor, List.filter_cons, hact, henv, List.filter_nil, Bool.not_false,
        Bool.and_self, if_true, List.reverse_append, List.reverse_singleton, List.singleton_append,
        List.find?_cons]
      by_cases hadr : m.escrowAddress = a
      · simp [hadr]
      · simp [hadr]
    · have hskip : EscrowMapConfig.addToIndex env (ms.foldl (EscrowMapConfig.addToIndex env) .empty)
          m = ms.foldl (EscrowMapConfig.addToIndex env) .empty := by
        unfold EscrowMapConfig.addToIndex
        cases hact : m.inactive <;> cases henv : m.inEnvironment env <;> simp_all
      rw [hskip, ih, List.filter_cons, if_neg hin, List.filter_nil, List.append_nil]

/- What loading promises of every mapping. -/
structure Checked (isValidStellarAddress : String → Bool) (m : Mapping) : Prop where
  invoiceId : m.invoiceId ≠ ""
  escrowAddress : isValidStellarAddress m.escrowAddress = true

theorem ne_empty_of_textOf {v : Option Json} {s : String} (h : textOf v = some s) : s ≠ "" := by
  cases v with
  | none => cases h
  | some j =>
    cases j with
    | str t =>
      intro hs
      subst hs
      by_cases ht : t = ""
      · rw [ht] at h
        cases h
      · simp [textOf, truthy, ht] at h
    | null => cases h
    | bool b => cases h
    | num x => cases h
    | arr items => cases h
    | obj members => cases h

theorem parseMapping_ok {isValidStellarAddress : String → Bool} {j : Json} {m : Mapping}
    (h : parseMapping isValidStellarAddress j = .ok m) : Checked isValidStellarAddress m := by
  obtain ⟨i, hi, h⟩ := bind_ok h
  obtain ⟨a, ha, h⟩ := bind_ok h
  cases h
  have haddr := expect_ok ha
  rw [Option.filter_eq_some_iff] at haddr
  exact ⟨ne_empty_of_textOf (expect_ok hi), haddr.2⟩

theorem mapM_ok_forall {α β : Type} {f : α → Except String β} {P : β → Prop}
    (hf : ∀ a b, f a = .ok b → P b) {as : List α} {bs : List β} (h : as.mapM f = .ok bs) :
    ∀ b ∈ bs, P b := by
  induction as generalizing bs with
  | nil =>
    cases h
    intro b hb
    cases hb
  | cons a as ih =>
    rw [List.mapM_cons] at h
    obtain ⟨b, hb, h⟩ := bind_ok h
    obtain ⟨bs', hbs, h⟩ := bind_ok h
    cases h
    intro c hc
    rcases List.mem_cons.mp hc with rfl | hc
    · exact hf a c hb
    · exact ih hbs c hc

theorem parseConfig_ok {isValidStellarAddress : String → Bool} {raw : Option (Except String Json)}
    (h : parseConfig isValidStellarAddress raw = .ok config) :
    ∀ m ∈ config.mappings, Checked isValidStellarAddress m := by
  unfold parseConfig at h
  split at h
  · cases h
    intro m hm
    cases hm
  · cases h
  · split at h
    · obtain ⟨mappings, hmap, h⟩ := bind_ok h
      cases h
      exact mapM_ok_forall (fun _ _ hj => parseMapping_ok hj) hmap
    · cases h

theorem resolveInvoiceByAddress_iff {isValidStellarAddress : String → Bool}
    (htrim : ∀ a, isValidStellarAddress a = true → trim a = a)
    (hchecked : ∀ m ∈ config.mappings, Checked isValidStellarAddress m) (a i : String)
    (ha : isValidStellarAddress a = true) :
    config.resolveInvoiceByAddress isValidStellarAddress env (some a) = some i ↔
      ∃ m, lastFor (config.inForce env) a = some m ∧ m.invoiceId = i := by
  simp only [EscrowMapConfig.resolveInvoiceByAddress, htrim a ha, ha, if_true, reverseIndex_get]
  cases hlast : lastFor (config.inForce env) a with
  | none => simp [truthy]
  | some m =>
    have hmem : m ∈ config.mappings :=
      (List.mem_filter.mp (List.mem_reverse.mp (List.mem_of_find?_eq_some hlast))).1
    simp [truthy, (hchecked m hmem).invoiceId]

end Lookups

section Duplicates
variable {ms : List Mapping} {m n : Mapping} {i a : String}

theorem of_firstFor (h : firstFor ms i = some n) : n ∈ ms ∧ n.invoiceId = i :=
  ⟨List.mem_of_find?_eq_some h, by simpa using List.find?_some h⟩

theorem of_lastFor (h : lastFor ms a = some n) : n ∈ ms ∧ n.escrowAddress = a :=
  ⟨List.mem_reverse.mp (List.mem_of_find?_eq_some h), by simpa using List.find?_some h⟩

theorem not_shadowed_iff (hm : m ∈ ms) : ¬ Shadowed ms m ↔
    ∃ n, firstFor ms m.invoiceId = some n ∧ n.escrowAddress = m.escrowAddress := by
  cases hn : firstFor ms m.invoiceId with
  | none =>
    have hnot := List.find?_eq_none.mp hn m hm
    simp at hnot
  | some n => simp [Shadowed, hn]

theorem not_overwritten_iff (hm : m ∈ ms) : ¬ Overwritten ms m ↔
    ∃ n, lastFor ms m.escrowAddress = some n ∧ n.invoiceId = m.invoiceId := by
  cases hn : lastFor ms m.escrowAddress with
  | none =>
    have hnot := List.find?_eq_none.mp hn m (List.mem_reverse.mpr hm)
    simp at hnot
  | some n => simp [Overwritten, hn]

end Duplicates

/-- The two lookups are inverse exactly when, among the mappings in force, those that an
earlier mapping of the invoice shadows are those that a later one of the address overwrites. -/
theorem escrow_resolution_invertible_iff (isValidStellarAddress : String → Bool)
    (htrim : ∀ a, isValidStellarAddress a = true → trim a = a) (nodeEnv : Option String)
    (raw : Option (Except String Json)) (config : EscrowMapConfig)
    (h : parseConfig isValidStellarAddress raw = .ok config) :
    Invertible isValidStellarAddress config (currentEnvironment nodeEnv config) ↔
      ∀ m ∈ config.inForce (currentEnvironment nodeEnv config),
        (Shadowed (config.inForce (currentEnvironment nodeEnv config)) m ↔
          Overwritten (config.inForce (currentEnvironment nodeEnv config)) m) := by
  have hchecked := parseConfig_ok h
  generalize currentEnvironment nodeEnv config = env
  have haddr : ∀ m ∈ config.inForce env, isValidStellarAddress m.escrowAddress = true :=
    fun m hm => (hchecked m (List.mem_filter.mp hm).1).escrowAddress
  have hback : ∀ a i, isValidStellarAddress a = true →
      (config.resolveInvoiceByAddress isValidStellarAddress env (some a) = some i ↔
        ∃ m, lastFor (config.inForce env) a = some m ∧ m.invoiceId = i) :=
    fun a i ha => resolveInvoiceByAddress_iff htrim hchecked a i ha
  constructor
  · rintro ⟨hforth, hreturn⟩ m hm
    rw [← not_iff_not, not_shadowed_iff hm, not_overwritten_iff hm]
    rw [← resolveEscrowAddress_ok_iff, ← hback _ _ (haddr m hm)]
    exact ⟨hforth _ _, hreturn _ _ (haddr m hm)⟩
  · intro hall
    have hiff : ∀ m ∈ config.inForce env, config.resolveEscrowAddress env m.invoiceId =
        .ok m.escrowAddress ↔ config.resolveInvoiceByAddress isValidStellarAddress env
          (some m.escrowAddress) = some m.invoiceId := by
      intro m hm
      rw [resolveEscrowAddress_ok_iff, hback _ _ (haddr m hm), ← not_shadowed_iff hm,
        ← not_overwritten_iff hm, not_iff_not]
      exact hall m hm
    refine ⟨?_, ?_⟩
    · intro i a hi
      obtain ⟨m, hfirst, rfl⟩ := (resolveEscrowAddress_ok_iff i a).mp hi
      obtain ⟨hm, rfl⟩ := of_firstFor hfirst
      exact (hiff m hm).mp hi
    · intro a i ha hi
      obtain ⟨m, hlast, rfl⟩ := (hback a i ha).mp hi
      obtain ⟨hm, rfl⟩ := of_lastFor hlast
      exact (hiff m hm).mpr hi

def sampleAccount : String := "GAAAAAAAAAAAAAAAAAAAAAAAAAAAAAAAAAAAAAAAAAAAAAAAAAAAAWHF"

def sampleContract : String := "CAAAAAAAAAAAAAAAAAAAAAAAAAAAAAAAAAAAAAAAAAAAAAAAAAAAD2KM"

def sampleValid (a : String) : Bool := decide (a = sampleAccount ∨ a = sampleContract)

def sampleMapping (invoiceId escrowAddress : String) : Json :=
  .obj [("invoiceId", .str invoiceId), ("escrowAddress", .str escrowAddress),
    ("environment", .str "production"), ("isActive", .bool true)]

def sampleRaw (mappings : List Json) : Option (Except String Json) :=
  some (.ok (.obj [("mappings", .arr mappings)]))

theorem sampleValid_trim : ∀ a, sampleValid a = true → trim a = a := by
  intro a ha
  rcases of_decide_eq_true ha with rfl | rfl <;> decide

def sampleLoaded (invoiceId escrowAddress : String) : Mapping :=
  ⟨invoiceId, escrowAddress, some (.bool true), some (.str "production")⟩

def sampleConfig : EscrowMapConfig :=
  ⟨[sampleLoaded "inv_1" sampleAccount, sampleLoaded "inv_2" sampleContract], .str "development"⟩

theorem escrow_resolution_invertible_sample :
    parseConfig sampleValid (sampleRaw [sampleMapping "inv_1" sampleAccount,
      sampleMapping "inv_2" sampleContract]) = .ok sampleConfig ∧
      Invertible sampleValid sampleConfig (currentEnvironment (some "production") sampleConfig) := by
  have hparse : parseConfig sampleValid (sampleRaw [sampleMapping "inv_1" sampleAccount,
      sampleMapping "inv_2" sampleContract]) = .ok sampleConfig := rfl
  refine ⟨hparse, (escrow_resolution_invertible_iff sampleValid sampleValid_trim
    (some "production") _ sampleConfig hparse).mpr ?_⟩
  have hforce : sampleConfig.inForce (currentEnvironment (some "production") sampleConfig) =
      [sampleLoaded "inv_1" sampleAccount, sampleLoaded "inv_2" sampleContract] := rfl
  rw [hforce]
  intro m hm
  have hnone : ¬ Shadowed [sampleLoaded "inv_1" sampleAccount, sampleLoaded "inv_2" sampleContract] m ∧
      ¬ Overwritten [sampleLoaded "inv_1" sampleAccount, sampleLoaded "inv_2" sampleContract] m := by
    rw [not_shadowed_iff hm, not_overwritten_iff hm]
    rcases List.mem_pair.mp hm with rfl | rfl
    · exact ⟨⟨_, rfl, rfl⟩, ⟨_, rfl, rfl⟩⟩
    · exact ⟨⟨_, rfl, rfl⟩, ⟨_, rfl, rfl⟩⟩
  exact iff_of_false hnone.1 hnone.2

/-- One invoice with two addresses in force: the second address leads to the invoice, which
leads to the first. -/
theorem two_addresses_one_invoice :
    ¬ ∀ (isValidStellarAddress : String → Bool) (nodeEnv : Option String)
      (raw : Option (Except String Json)) (config : EscrowMapConfig),
      (∀ a, isValidStellarAddress a = true → trim a = a) →
      parseConfig isValidStellarAddress raw = .ok config →
      Invertible isValidStellarAddress config (currentEnvironment nodeEnv config) := by
  intro hall
  have hinv := hall sampleValid (some "production") (sampleRaw
    [sampleMapping "inv_1" sampleAccount, sampleMapping "inv_1" sampleContract]) _
    sampleValid_trim rfl
  have hback := hinv.2 sampleContract "inv_1" (by decide) (by decide)
  revert hback
  decide

end Liquifact.Escrow
