import Liquifact.Escrow.LegalHoldGate
import Liquifact.Lib.Fallible
import Liquifact.Lib.ToNumber

/-!
# Reading the escrow state (`src/services/escrowRead.js`, `src/cache/redis.js`)

Two entry points assemble a state. `readEscrowState` (escrowRead.js 406-481) joins the base
state and the hold read; `getEscrowStateWithProjection` (679-740) returns what the summary
cache has (redis.js `getSummary`, 176-216), else the projection row
(`_readBaseStateFromProjection`, 288-341), else the neutral state with the hold read.

A state is an object, kept as its members in property order. Column values of the
projection and cached summaries are given as JSON shows them.
-/

namespace Liquifact.Escrow
open Liquifact.Lib

abbrev Members := List (String × Json)

/- `{ ...base, ...fields }`. -/
def assign (base fields : Members) : Members :=
  fields.foldl (fun acc m => OrdMap.setL m.1 m.2 acc) base

/- The members a spread copies; `none` is undefined. -/
def spread : Option Json → Members
  | some (.obj members) => members
  | some (.arr items) => items.zipIdx.map fun (v, i) => (Nat.repr i, v)
  | some (.str s) => s.toList.zipIdx.map fun (c, i) => (Nat.repr i, .str (String.ofList [c]))
  | _ => []

/-! ### Identifiers -/

def isIdentifierChar (extra : List Char) (c : Char) : Bool :=
  c.isAlphanum || extra.contains c

/- `/^[A-Za-z0-9][A-Za-z0-9._:-]{0,127}$/`. -/
def matchesInvoiceIdRe (s : String) : Bool :=
  match s.toList with
  | [] => false
  | c :: cs => c.isAlphanum && cs.all (isIdentifierChar ['.', '_', ':', '-']) &&
      decide (cs.length ≤ 127)

def validateInvoiceId : JsValue → Except String String
  | .string s =>
    if trim s = "" then .error "invoiceId must be a non-empty string"
    else if matchesInvoiceIdRe (trim s) then .ok (trim s)
    else .error "invoiceId contains invalid characters (allowed: a-z A-Z 0-9 _ -)"
  | _ => .error "invoiceId must be a non-empty string"

def invalidInvoiceId (reason : String) : JsValue :=
  .object [("message", .string reason), ("code", .string "INVALID_INVOICE_ID"),
    ("status", .number (.fin 400))]

/-! ### The summary cache -/

/- `/^[a-zA-Z0-9:_-]{1,128}$/`. -/
def isValidInvoiceId (s : String) : Bool :=
  decide (1 ≤ s.toList.length ∧ s.toList.length ≤ 128) &&
    s.toList.all (isIdentifierChar [':', '_', '-'])

inductive CacheResult where
  | miss (reason : String)
  | hit (value : Option Json)

/- What the client holds under the key of the invoice: the outcome of its guarded `GET`. -/
structure SummaryCache where
  ledgerGapThreshold : JsNumber
  get : String → Except JsValue (Option String)

def finiteNumber : Option Json → Option ℚ
  | some (.num (.fin q)) => some q
  | _ => none

def ledgerGap (threshold : JsNumber) (currentLedger cachedLedger : Option ℚ) : Bool :=
  match currentLedger, cachedLedger with
  | some current, some cached => JsNumber.lt threshold (.fin |current - cached|)
  | _, _ => false

def getSummary (cache : SummaryCache) (invoiceId : String) (currentLedger : Option ℚ) :
    CacheResult :=
  if !isValidInvoiceId invoiceId then .miss "invalid_input"
  else match cache.get ("escrow:summary:" ++ invoiceId) with
    | .error _ => .miss "fail_open"
    | .ok none => .miss "miss"
    | .ok (some raw) =>
      match Json.parse raw with
      | none => .miss "fail_open"
      -- a member of null is read: the `TypeError` is caught
      | some .null => .miss "fail_open"
      | some entry =>
        if ledgerGap cache.ledgerGapThreshold currentLedger
            (finiteNumber (entry.member "cachedLedger")) then .miss "ledger_gap"
        else .hit (entry.member "summary")

/- What `setSummary` hands to the client; `cachedAt` is left out. -/
structure CacheEntry where
  summary : Json
  cachedLedger : Json

def setSummary (invoiceId : String) (summary : Json) (currentLedger : Option ℚ) :
    Option CacheEntry :=
  if !isValidInvoiceId invoiceId then none
  else some ⟨summary, match currentLedger with
    | some q => .num (.fin q)
    | none => .null⟩

/-! ### The base state -/

/- An outcome of `first()` on the projection table: a row with its columns, or none. -/
abbrev ProjectionRead := Except JsValue (Option Members)

def objectOrEmpty : Json → Json
  | .arr items => .arr items
  | .obj members => .obj members
  | _ => .obj []

def parseEventBody : Option Json → Json
  | some (.str s) => if s = "" then .obj [] else ((Json.parse s).map objectOrEmpty).getD (.obj [])
  | some v => objectOrEmpty v
  | none => .obj []

def coerceFundedAmount (raw : Option Json) : Json :=
  match raw.map Json.toNumber with
  | some (.fin q) => if q < 0 then .num (.fin 0) else .num (.fin q)
  | _ => .num (.fin 0)

/- `typeof v === "string" && v`, where falsy counts as absent. -/
def nonEmptyText : Option Json → Option String
  | some (.str s) => if s = "" then none else some s
  | _ => none

def projectedStatus (row : Members) (eventBody : Json) : String :=
  ((nonEmptyText (eventBody.member "status")).or
    (nonEmptyText (OrdMap.lookupL "latest_event_type" row))).getD "unknown"

def hasMeaningfulProjection (row : Members) : Bool :=
  let eventBody := parseEventBody (OrdMap.lookupL "latest_event_body" row)
  decide (projectedStatus row eventBody ≠ "unknown") ||
    ["fundedAmount", "ledgerCloseTime", "maturityDate", "maturityTimestamp"].any fun name =>
      (eventBody.member name).isSome

def orNullValue (v : Option Json) : Json := (jsOr v none).getD .null

def projectionState (safeId : String) (row : Members) : Members :=
  let eventBody := parseEventBody (OrdMap.lookupL "latest_event_body" row)
  [("invoiceId", .str safeId),
    ("status", .str (projectedStatus row eventBody)),
    ("fundedAmount", coerceFundedAmount (eventBody.member "fundedAmount")),
    ("latest_ledger_sequence", match (OrdMap.lookupL "latest_ledger_sequence" row).map Json.toNumber with
      | some (.fin q) => .num (.fin q)
      | _ => .null),
    ("latest_event_type", orNullValue (OrdMap.lookupL "latest_event_type" row)),
    ("latest_event_id", orNullValue (OrdMap.lookupL "latest_event_id" row)),
    ("latest_paging_token", orNullValue (OrdMap.lookupL "latest_paging_token" row)),
    ("latest_observed_at", orNullValue (OrdMap.lookupL "latest_observed_at" row)),
    ("source", .str "projection"),
    ("fromProjection", .bool true)]

/- A failed read counts as no row. -/
def readBaseStateFromProjection (safeId : String) : ProjectionRead → Option Members
  | .ok (some row) => if hasMeaningfulProjection row then some (projectionState safeId row) else none
  | _ => none

def neutralBaseState (invoiceId : String) : Members :=
  [("invoiceId", .str invoiceId), ("status", .str "not_found"), ("fundedAmount", .num (.fin 0)),
    ("source", .str "rpc_stub")]

/- The guarded on-chain calls of a read: for the base state, and for the hold. -/
structure Soroban where
  callState : (Unit → Except JsValue (Option Json)) → Except JsValue (Option Json)
  callHold : (Unit → Except JsValue JsValue) → Except JsValue JsValue

abbrev EscrowAdapter := String → Except JsValue (Option Json)

def fetchBaseEscrowState (soroban : Soroban) (invoiceId : String) (adapter : Option EscrowAdapter)
    (projection : ProjectionRead) : Except JsValue (Option Json) :=
  match adapter with
  | some adapter => soroban.callState fun _ => adapter invoiceId
  | none =>
    match readBaseStateFromProjection invoiceId projection with
    | some state => .ok (some (.obj state))
    | none => soroban.callState fun _ => .ok (some (.obj (neutralBaseState invoiceId)))

/-! ### The two entry points -/

/- What a read returns, with the hold read it made and the entry it gave to the cache. -/
structure EscrowReading where
  state : Option Json
  holdRead : Option (Except JsValue JsValue)
  written : Option CacheEntry

def optionalField (name : String) (v : Option String) : Members :=
  match truthy v with
  | some s => [(name, .str s)]
  | none => []

def legalHoldDetail (e : LegalHoldEnvelope) : Members :=
  ("legalHoldStatus", .str e.status.text) ::
    (optionalField "legalHoldReason" e.reason ++ optionalField "legalHoldErrorCode" e.errorCode)

/- `legal_hold` is true for `held` and for `unknown`. -/
def legalHoldFields (e : LegalHoldEnvelope) : Members :=
  ("legal_hold", .bool (decide (e.status = .held ∨ e.status = .unknown))) :: legalHoldDetail e

structure ReadOptions where
  legalHoldAdapter : Option Lookup
  escrowAdapter : Option EscrowAdapter
  -- the outcome of the token lookup, when a funding asset is given
  tokenMetadata : Option (Except JsValue Json)
  projection : ProjectionRead

def fundingToken : Option (Except JsValue Json) → Json
  | some (.ok metadata) => metadata
  | _ => .null

/- A member of the base state is read: null and undefined have none. -/
def definedBase (name : String) (base : Except JsValue (Option Json)) :
    Except JsValue (Option Json) := do
  match ← base with
  | none => .error (typeError ("Cannot read properties of undefined (reading '" ++ name ++ "')"))
  | some .null => .error (typeError ("Cannot read properties of null (reading '" ++ name ++ "')"))
  | v => .ok v

def memberOf (name : String) (v : Option Json) : Option Json := v.bind (Json.member name)

def ledgerCloseTimeField (base : Option Json) : Members :=
  match memberOf "ledgerCloseTime" base with
  | none => []
  | some .null => []
  | some v => [("ledgerCloseTime", v)]

def readEscrowState (soroban : Soroban) (options : ReadOptions) (invoiceId : JsValue) :
    Except JsValue EscrowReading := do
  let safeId ← (validateInvoiceId invoiceId).mapError invalidInvoiceId
  let base ← definedBase "ledgerCloseTime"
    (fetchBaseEscrowState soroban safeId options.escrowAdapter options.projection)
  let hold := fetchLegalHoldStatus soroban.callHold safeId options.legalHoldAdapter
  .ok {
    state := some (.obj (assign (spread base) (legalHoldFields hold ++
      (("funding_token", fundingToken options.tokenMetadata) :: ledgerCloseTimeField base))))
    holdRead := some (legalHoldRead soroban.callHold safeId options.legalHoldAdapter)
    written := none }

def cachedReading (cache : Option SummaryCache) (safeId : String) : CacheResult :=
  match cache with
  | some cache => getSummary cache safeId none
  | none => .miss "disabled"

def writtenEntry (cache : Option SummaryCache) (safeId : String) (state : Members)
    (ledger : Option ℚ) : Option CacheEntry :=
  cache.bind fun _ => setSummary safeId (.obj state) ledger

/- `latest_event_type: base.latest_event_type || "live_read"`, and the source alike. -/
def liveFields (base : Option Json) : Members :=
  [("latest_event_type", (jsOr (memberOf "latest_event_type" base) none).getD (.str "live_read")),
    ("source", (jsOr (memberOf "source" base) none).getD (.str "rpc_stub"))]

/-- `projection` and `again` are the two reads of the projection table; the second is made
when the first found nothing to use. -/
def getEscrowStateWithProjection (soroban : Soroban) (cache : Option SummaryCache)
    (projection again : ProjectionRead) (invoiceId : JsValue) : Except JsValue EscrowReading :=
  match invoiceId with
  | .string s =>
    let safeId := trim s
    match cachedReading cache safeId with
    | .hit value => .ok ⟨value, none, none⟩
    | .miss _ =>
      match readBaseStateFromProjection safeId projection with
      | some state => .ok ⟨some (.obj state), none, writtenEntry cache safeId state
          (finiteNumber (OrdMap.lookupL "latest_ledger_sequence" state))⟩
      | none => do
        let base ← definedBase "latest_event_type" (fetchBaseEscrowState soroban safeId none again)
        let hold := fetchLegalHoldStatus soroban.callHold safeId none
        let state := assign (spread base) (legalHoldFields hold ++ liveFields base)
        .ok ⟨some (.obj state), some (legalHoldRead soroban.callHold safeId none),
          writtenEntry cache safeId state none⟩
  | .undefined => .error (typeError "Cannot read properties of undefined (reading 'trim')")
  | .null => .error (typeError "Cannot read properties of null (reading 'trim')")
  | _ => .error (typeError "invoiceId.trim is not a function")

/-! ### What a state says about the hold -/

/-- The state shows the hold, unless a hold read succeeded with a falsy flag. -/
def NeverUnderstates (r : EscrowReading) : Prop :=
  memberOf "legal_hold" r.state = some (.bool true) ∨
    ∃ raw, r.holdRead = some (.ok raw) ∧ raw.truthy = false

/- A truthy flag is one of `true`, `1` and `"true"`. -/
def FlagKnown (read : Except JsValue JsValue) : Prop :=
  ∀ raw, read = .ok raw → raw.truthy = true → coerceLegalHoldStatus raw = .held

def safeIdOf : JsValue → String
  | .string s => trim s
  | _ => ""

theorem lookupL_assign (name : String) (base fields : Members) (h : ∀ f ∈ fields, f.1 ≠ name) :
    OrdMap.lookupL name (assign base fields) = OrdMap.lookupL name base := by
  induction fields generalizing base with
  | nil => rfl
  | cons f fields ih =>
    have hrest : ∀ g ∈ fields, g.1 ≠ name := fun g hg => h g (List.mem_cons_of_mem _ hg)
    have hset := OrdMap.lookupL_setL f.1 name f.2 base
    rw [if_neg (h f (List.mem_cons_self ..))] at hset
    exact (ih (OrdMap.setL f.1 f.2 base) hrest).trans hset

theorem lookupL_assign_cons (name : String) (v : Json) (base fields : Members)
    (h : ∀ f ∈ fields, f.1 ≠ name) :
    OrdMap.lookupL name (assign base ((name, v) :: fields)) = some v := by
  have hset := OrdMap.lookupL_setL name name v base
  rw [if_pos rfl] at hset
  exact (lookupL_assign name (OrdMap.setL name v base) fields h).trans hset

theorem optionalField_name {name : String} {v : Option String} {f : String × Json}
    (h : f ∈ optionalField name v) : f.1 = name := by
  unfold optionalField at h
  split at h
  · rw [List.mem_singleton.mp h]
  · cases h

theorem legalHoldDetail_names (e : LegalHoldEnvelope) :
    ∀ f ∈ legalHoldDetail e, f.1 ≠ "legal_hold" := by
  intro f hf
  rcases List.mem_cons.mp hf with rfl | hf
  · simp
  · rcases List.mem_append.mp hf with hf | hf
    · rw [optionalField_name hf]
      simp
    · rw [optionalField_name hf]
      simp

theorem fetchLegalHoldStatus_shown (call : (Unit → Except JsValue JsValue) → Except JsValue JsValue)
    (id : String) (adapter : Option Lookup) :
    ((fetchLegalHoldStatus call id adapter).status = .held ∨
        (fetchLegalHoldStatus call id adapter).status = .unknown) ↔
      ∀ raw, legalHoldRead call id adapter = .ok raw → coerceLegalHoldStatus raw = .held := by
  unfold fetchLegalHoldStatus
  cases h : legalHoldRead call id adapter with
  | error err => simp
  | ok raw =>
    rcases coerceLegalHoldStatus_eq raw with hc | hc <;> simp [hc]

theorem neverUnderstates_of_read (soroban : Soroban) (id : String) (adapter : Option Lookup)
    (base rest : Members) (written : Option CacheEntry) (hrest : ∀ f ∈ rest, f.1 ≠ "legal_hold") :
    NeverUnderstates ⟨some (.obj (assign base
        (legalHoldFields (fetchLegalHoldStatus soroban.callHold id adapter) ++ rest))),
        some (legalHoldRead soroban.callHold id adapter), written⟩ ↔
      FlagKnown (legalHoldRead soroban.callHold id adapter) := by
  have hnames : ∀ f ∈ legalHoldDetail (fetchLegalHoldStatus soroban.callHold id adapter) ++ rest,
      f.1 ≠ "legal_hold" := by
    intro f hf
    rcases List.mem_append.mp hf with hf | hf
    · exact legalHoldDetail_names _ f hf
    · exact hrest f hf
  have hshown := lookupL_assign_cons "legal_hold" (.bool (decide
    ((fetchLegalHoldStatus soroban.callHold id adapter).status = .held ∨
      (fetchLegalHoldStatus soroban.callHold id adapter).status = .unknown))) base _ hnames
  unfold NeverUnderstates FlagKnown
  simp only [memberOf, Option.bind_some, Json.member, legalHoldFields, List.cons_append, hshown,
    fetchLegalHoldStatus_shown, Option.some.injEq, Json.bool.injEq, decide_eq_true_eq]
  cases hread : legalHoldRead soroban.callHold id adapter with
  | error err => simp
  | ok raw =>
    simp only [Except.ok.injEq, forall_eq', exists_eq_left']
    cases raw.truthy <;> simp

theorem validateInvoiceId_ok {v : JsValue} {id : String}
    (h : (validateInvoiceId v).mapError invalidInvoiceId = .ok id) : safeIdOf v = id := by
  unfold validateInvoiceId at h
  split at h
  · split at h
    · cases h
    · split at h
      · cases h
        rfl
      · cases h
  · cases h

theorem ledgerCloseTimeField_name (base : Option Json) :
    ∀ f ∈ ledgerCloseTimeField base, f.1 ≠ "legal_hold" := by
  intro f hf
  unfold ledgerCloseTimeField at hf
  split at hf
  · cases hf
  · cases hf
  · rw [List.mem_singleton.mp hf]
    simp

theorem readEscrowState_shows_iff {soroban : Soroban} {options : ReadOptions} {invoiceId : JsValue}
    {r : EscrowReading} (h : readEscrowState soroban options invoiceId = .ok r) :
    NeverUnderstates r ↔
      FlagKnown (legalHoldRead soroban.callHold (safeIdOf invoiceId) options.legalHoldAdapter) := by
  obtain ⟨id, hid, h⟩ := bind_ok h
  obtain ⟨base, -, h⟩ := bind_ok h
  cases h
  rw [validateInvoiceId_ok hid]
  refine neverUnderstates_of_read soroban id options.legalHoldAdapter (spread base) _ none ?_
  intro f hf
  rcases List.mem_cons.mp hf with rfl | hf
  · simp
  · exact ledgerCloseTimeField_name base f hf

/- What the cache holds shows the hold; or it holds nothing, the projection has no row to
show and the flag is a known one. -/
def HoldShown (soroban : Soroban) (cache : Option SummaryCache) (projection : ProjectionRead)
    (safeId : String) : Prop :=
  match cachedReading cache safeId with
  | .hit value => memberOf "legal_hold" value = some (.bool true)
  | .miss _ => (∀ row, projection = .ok (some row) → hasMeaningfulProjection row = false) ∧
      FlagKnown (legalHoldRead soroban.callHold safeId none)

theorem readBase_eq_none_iff (safeId : String) (projection : ProjectionRead) :
    readBaseStateFromProjection safeId projection = none ↔
      ∀ row, projection = .ok (some row) → hasMeaningfulProjection row = false := by
  unfold readBaseStateFromProjection
  split
  · rename_i row
    constructor
    · intro h row' heq
      cases heq
      split at h
      · cases h
      · rename_i hm
        exact Bool.eq_false_of_not_eq_true hm
    · intro h
      rw [h row rfl]
      rfl
  · rename_i hno
    exact ⟨fun _ row heq => absurd heq (hno row), fun _ => rfl⟩

/- A projected state says nothing of the hold. -/
theorem projection_hides {safeId : String} {projection : ProjectionRead} {state : Members}
    (h : readBaseStateFromProjection safeId projection = some state) (written : Option CacheEntry) :
    ¬ NeverUnderstates ⟨some (.obj state), none, written⟩ := by
  unfold readBaseStateFromProjection at h
  split at h
  · split at h
    · cases h
      intro hnever
      rcases hnever with hshown | ⟨raw, hread, -⟩
      · cases hshown
      · cases hread
    · cases h
  · cases h

theorem getEscrowStateWithProjection_shows_iff {soroban : Soroban} {cache : Option SummaryCache}
    {projection again : ProjectionRead} {invoiceId : JsValue} {r : EscrowReading}
    (h : getEscrowStateWithProjection soroban cache projection again invoiceId = .ok r) :
    NeverUnderstates r ↔ HoldShown soroban cache projection (safeIdOf invoiceId) := by
  unfold getEscrowStateWithProjection at h
  split at h
  · rename_i s
    simp only [safeIdOf, HoldShown]
    dsimp only at h
    split at h
    · rename_i value hhit
      cases h
      simp [NeverUnderstates]
    · rename_i reason hmiss
      simp only [← readBase_eq_none_iff (trim s)]
      split at h
      · rename_i state hstate
        cases h
        simp [projection_hides hstate, hstate]
      · rename_i hnone
        obtain ⟨base, -, h⟩ := bind_ok h
        cases h
        simp only [hnone, true_and]
        refine neverUnderstates_of_read soroban (trim s) none (spread base) _ _ ?_
        intro f hf
        simp only [liveFields, List.mem_cons, List.not_mem_nil, or_false] at hf
        rcases hf with rfl | rfl <;> simp
  · cases h
  · cases h
  · cases h

/-- A returned state shows the hold, or a hold read reported none, exactly when: for
`readEscrowState`, the flag read is a known one; for `getEscrowStateWithProjection`, the
cached summary shows a hold, or nothing is cached or projected and the flag is known. -/
theorem escrow_state_shows_hold_iff (soroban : Soroban) :
    (∀ options invoiceId r, readEscrowState soroban options invoiceId = .ok r →
      (NeverUnderstates r ↔
        FlagKnown (legalHoldRead soroban.callHold (safeIdOf invoiceId) options.legalHoldAdapter))) ∧
    (∀ cache projection again invoiceId r,
      getEscrowStateWithProjection soroban cache projection again invoiceId = .ok r →
      (NeverUnderstates r ↔ HoldShown soroban cache projection (safeIdOf invoiceId))) :=
  ⟨fun _ _ _ h => readEscrowState_shows_iff h,
    fun _ _ _ _ _ h => getEscrowStateWithProjection_shows_iff h⟩

def directSoroban : Soroban := ⟨fun operation => operation (), fun operation => operation ()⟩

theorem escrow_state_shows_hold_direct :
    (∃ r, readEscrowState directSoroban ⟨none, none, none, .ok none⟩ (.string "inv_1") = .ok r ∧
      NeverUnderstates r) ∧
    ∃ r, getEscrowStateWithProjection directSoroban none (.ok none) (.ok none) (.string "inv_1") =
      .ok r ∧ NeverUnderstates r := by
  have hknown : ∀ id, FlagKnown (legalHoldRead directSoroban.callHold id none) := by
    intro id raw hraw htrue
    cases hraw
    cases htrue
  have hshown : HoldShown directSoroban none (.ok none) (safeIdOf (.string "inv_1")) := by
    refine ⟨fun row hrow => ?_, hknown _⟩
    cases hrow
  obtain ⟨hread, hprojection⟩ := escrow_state_shows_hold_iff directSoroban
  refine ⟨⟨_, rfl, (hread ⟨none, none, none, .ok none⟩ (.string "inv_1") _ rfl).mpr (hknown _)⟩, ?_⟩
  exact ⟨_, rfl, (hprojection none (.ok none) (.ok none) (.string "inv_1") _ rfl).mpr hshown⟩

/- The chain reports a hold; the indexer has recorded an event of the invoice. -/
def heldSoroban : Soroban := ⟨fun operation => operation (), fun _ => .ok (.bool true)⟩

def fundedRow : Members := [("invoice_id", .str "inv_1"), ("latest_event_type", .str "funded")]

theorem projected_state_hides_hold :
    ∃ r, getEscrowStateWithProjection heldSoroban none (.ok (some fundedRow)) (.ok (some fundedRow))
      (.string "inv_1") = .ok r ∧ ¬ NeverUnderstates r := by
  have hstate : readBaseStateFromProjection (trim "inv_1") (.ok (some fundedRow)) =
      some (projectionState (trim "inv_1") fundedRow) := rfl
  exact ⟨_, rfl, projection_hides hstate _⟩

end Liquifact.Escrow
