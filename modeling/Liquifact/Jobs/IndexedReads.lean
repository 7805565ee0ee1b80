import Liquifact.Escrow.EscrowRead
import Liquifact.Jobs.EscrowProjection
import Liquifact.Jobs.ReconcileEscrow

/-!
# Reading what the indexer wrote

The read surface (`src/services/escrowRead.js`) over the tables of the indexer
(`src/jobs/escrowIndexer.js`), and the reconciliation (`src/jobs/reconcileEscrow.js`) over the
read surface. `readFundedAmount` is lines 636-659.

`eventState` is what an event says of its escrow. The surface shows it for the greatest event
of an invoice, whatever the order in which the events were delivered.
-/

namespace Liquifact.Jobs
open Liquifact.Lib Liquifact.Escrow

/-! ### The columns of a row -/

/- A text column that may be NULL. -/
def textColumn (v : Option String) : Json := (v.map Json.str).getD .null

/- `BIGINT` is a decimal text, or a number where the driver is set to parse it. -/
def ledgerColumn (asText : Bool) (n : ℕ) : Json :=
  if asText then .str (Nat.repr n) else .num (.ofNat n)

def projectionColumns (asText : Bool) (invoiceId : String) (row : ProjectionRow) : Members :=
  [("invoice_id", .str invoiceId),
    ("latest_event_id", .str row.latestEventId),
    ("latest_event_type", .str row.latestEventType),
    ("latest_ledger_sequence", ledgerColumn asText row.latestLedgerSequence),
    ("latest_paging_token", textColumn row.latestPagingToken),
    ("latest_event_body", row.latestEventBody),
    ("latest_observed_at", .str row.latestObservedAt),
    ("updated_at", .num (.ofNat row.updatedAt))]

/- `db("escrow_event_projection").where("invoice_id", safeId).first()`. -/
def findProjection (asText : Bool) (t : EscrowTables) (safeId : String) : ProjectionRead :=
  .ok ((t.projection.get safeId).map (projectionColumns asText safeId))

/- `baseState && typeof baseState === "object" ? baseState.fundedAmount : baseState`. -/
def rawFunded : Option Json → Option Json
  | some (.obj members) => (Json.obj members).member "fundedAmount"
  | some (.arr _) => none
  | v => v

def finiteOrZero : JsNumber → JsNumber
  | .fin q => .fin q
  | _ => .fin 0

def readFundedAmount (soroban : Soroban) (adapter : Option EscrowAdapter)
    (projection : ProjectionRead) (invoiceId : JsValue) : Except JsValue JsNumber := do
  let safeId ← (validateInvoiceId invoiceId).mapError invalidInvoiceId
  let base ← fetchBaseEscrowState soroban safeId adapter projection
  .ok (finiteOrZero (((rawFunded base).map Json.toNumber).getD .nan))

/-! ### What an event says -/

def EscrowEvent.body (e : EscrowEvent) : Json := parseEventBody (some e.eventBody)

def eventStatus (e : EscrowEvent) : String :=
  (nonEmptyText (e.body.member "status")).getD e.eventType

/- The event names a status, or one of the fields that make a row worth showing. -/
def Meaningful (e : EscrowEvent) : Bool :=
  decide (eventStatus e ≠ "unknown") ||
    ["fundedAmount", "ledgerCloseTime", "maturityDate", "maturityTimestamp"].any fun name =>
      (e.body.member name).isSome

def finiteOrNull : Option JsNumber → Json
  | some (.fin q) => .num (.fin q)
  | _ => .null

def eventState (asText : Bool) (safeId : String) (e : EscrowEvent) : Members :=
  [("invoiceId", .str safeId),
    ("status", .str (eventStatus e)),
    ("fundedAmount", coerceFundedAmount (e.body.member "fundedAmount")),
    ("latest_ledger_sequence", finiteOrNull (some (ledgerColumn asText e.ledgerSequence).toNumber)),
    ("latest_event_type", .str e.eventType),
    ("latest_event_id", .str e.eventId),
    ("latest_paging_token", textColumn (orNull e.pagingToken)),
    ("latest_observed_at", orNullValue (some (.str e.observedAt))),
    ("source", .str "projection"),
    ("fromProjection", .bool true)]

def shownState (asText : Bool) (safeId : String) (e : EscrowEvent) : Option Members :=
  if Meaningful e then some (eventState asText safeId e) else none

section Shown
variable {checksum : String → Option Bool} {asText : Bool} {e : EscrowEvent} {safeId : String}

/- An event that was accepted has an identifier and a type. -/
theorem named_of_event {d : Delivery} (h : d.event checksum = some e) :
    e.eventId ≠ "" ∧ e.eventType ≠ "" := by
  have hn := (event_eq_some h).1
  unfold normalizeEvent at hn
  obtain ⟨raw, -, hraw⟩ := bind_ok hn
  obtain ⟨-, -, hinvoice⟩ := bind_ok hraw
  obtain ⟨_, hid, hrest⟩ := bind_ok hinvoice
  obtain ⟨_, htype, hledger⟩ := bind_ok hrest
  obtain ⟨ledger, -, hcontract⟩ := bind_ok hledger
  obtain ⟨-, -, htx⟩ := bind_ok hcontract
  obtain ⟨-, -, hevent⟩ := bind_ok htx
  rw [← Except.ok.inj hevent]
  exact ⟨require_ok hid, require_ok htype⟩

theorem orNullValue_text {s : String} (h : s ≠ "") : orNullValue (some (.str s)) = .str s := by
  simp [orNullValue, jsOr, Json.truthy, h]

theorem orNullValue_column (s : String) :
    orNullValue (some (textColumn (orNull s))) = textColumn (orNull s) := by
  by_cases hs : s = ""
  · simp [orNull, hs, textColumn, orNullValue, jsOr, Json.truthy]
  · simp [orNull, hs, textColumn, orNullValue, jsOr, Json.truthy]

theorem readBase_of_row {row : ProjectionRow} (hrow : row.toProjection = projectionOf e)
    (hid : e.eventId ≠ "") (htype : e.eventType ≠ "") :
    readBaseStateFromProjection safeId (.ok (some (projectionColumns asText safeId row))) =
      shownState asText safeId e := by
  obtain ⟨shown, written⟩ := row
  subst hrow
  have hname : nonEmptyText (some (.str e.eventType)) = some e.eventType := if_neg htype
  have hstatus : projectedStatus (projectionColumns asText safeId ⟨projectionOf e, written⟩) e.body =
      eventStatus e := by
    have hcolumn : nonEmptyText (OrdMap.lookupL "latest_event_type"
        (projectionColumns asText safeId ⟨projectionOf e, written⟩)) = some e.eventType := hname
    rw [projectedStatus, hcolumn, eventStatus]
    cases nonEmptyText (e.body.member "status") <;> rfl
  have hshown : hasMeaningfulProjection
      (projectionColumns asText safeId ⟨projectionOf e, written⟩) = Meaningful e := by
    rw [Meaningful, ← hstatus]
    rfl
  have hstate : projectionState safeId (projectionColumns asText safeId ⟨projectionOf e, written⟩) =
      eventState asText safeId e := by
    rw [eventState, ← hstatus, ← orNullValue_text htype, ← orNullValue_text hid,
      ← orNullValue_column]
    rfl
  rw [shownState, ← hshown, ← hstate]
  rfl

variable (checksum) in
/- The read of a table row is the read of the greatest event of the invoice. -/
theorem readBase_deliver (asText : Bool) (ds : List Delivery) (safeId : String) :
    readBaseStateFromProjection safeId (findProjection asText (deliver checksum ds) safeId) =
      (latest EscrowEvent.key (ofInvoice safeId (persisted checksum ds))).bind
        (shownState asText safeId) := by
  have hproj := (shows_deliver checksum ds).projection safeId
  cases hrow : (deliver checksum ds).projection.get safeId with
  | none =>
    rw [hrow, Option.map_none] at hproj
    rw [findProjection, hrow, Option.map_eq_none_iff.mp hproj.symm]
    rfl
  | some row =>
    rw [hrow, Option.map_some] at hproj
    obtain ⟨e, he, hshow⟩ := Option.map_eq_some_iff.mp hproj.symm
    have hmem := (isLatest_of_latest _ he).1
    obtain ⟨d, -, hd⟩ := List.mem_filterMap.mp (List.mem_of_mem_filter hmem)
    obtain ⟨hid, htype⟩ := named_of_event hd
    rw [he, Option.bind_some, findProjection, hrow, Option.map_some]
    exact readBase_of_row hshow.symm hid htype

end Shown

/-! ### The reads see events, not deliveries -/

section Same
variable {checksum : String → Option Bool}

theorem fetchBase_congr (soroban : Soroban) {safeId : String} (adapter : Option EscrowAdapter)
    {p p' : ProjectionRead}
    (h : readBaseStateFromProjection safeId p = readBaseStateFromProjection safeId p') :
    fetchBaseEscrowState soroban safeId adapter p = fetchBaseEscrowState soroban safeId adapter p' := by
  cases adapter with
  | some adapter => rfl
  | none => rw [fetchBaseEscrowState, fetchBaseEscrowState, h]

theorem validateInvoiceId_ok {v : JsValue} {safeId : String} (h : validateInvoiceId v = .ok safeId) :
    safeIdOf v = safeId := by
  cases v with
  | string s =>
    simp only [validateInvoiceId] at h
    split at h
    · cases h
    · split at h
      · cases h
        rfl
      · cases h
  | _ => cases h

theorem readEscrowState_congr (soroban : Soroban) (options : ReadOptions) {v : JsValue}
    {p p' : ProjectionRead}
    (h : readBaseStateFromProjection (safeIdOf v) p = readBaseStateFromProjection (safeIdOf v) p') :
    readEscrowState soroban { options with projection := p } v =
      readEscrowState soroban { options with projection := p' } v := by
  cases hv : validateInvoiceId v with
  | error m => simp only [readEscrowState, hv, Except.mapError, bind, Except.bind]
  | ok safeId =>
    rw [validateInvoiceId_ok hv] at h
    simp only [readEscrowState, hv, Except.mapError, bind, Except.bind,
      fetchBase_congr soroban options.escrowAdapter h]

theorem readFundedAmount_congr (soroban : Soroban) (adapter : Option EscrowAdapter) {v : JsValue}
    {p p' : ProjectionRead}
    (h : readBaseStateFromProjection (safeIdOf v) p = readBaseStateFromProjection (safeIdOf v) p') :
    readFundedAmount soroban adapter p v = readFundedAmount soroban adapter p' v := by
  cases hv : validateInvoiceId v with
  | error m => simp only [readFundedAmount, hv, Except.mapError, bind, Except.bind]
  | ok safeId =>
    rw [validateInvoiceId_ok hv] at h
    simp only [readFundedAmount, hv, Except.mapError, bind, Except.bind,
      fetchBase_congr soroban adapter h]

theorem withProjection_congr (soroban : Soroban) (cache : Option SummaryCache) {v : JsValue}
    {p p' : ProjectionRead}
    (h : readBaseStateFromProjection (safeIdOf v) p = readBaseStateFromProjection (safeIdOf v) p') :
    getEscrowStateWithProjection soroban cache p p v =
      getEscrowStateWithProjection soroban cache p' p' v := by
  cases v with
  | string s =>
    have hs : readBaseStateFromProjection (trim s) p = readBaseStateFromProjection (trim s) p' := h
    simp only [getEscrowStateWithProjection, hs, fetchBase_congr soroban none hs]
  | _ => rfl

/-- The three reads over the indexer's tables agree after any two series of deliveries that
persisted the same events, in whatever order and however often, when no two events of an
invoice share their ledger sequence and paging token. -/
theorem reads_same_events {ds ds' : List Delivery}
    (hsame : ∀ e, e ∈ persisted checksum ds ↔ e ∈ persisted checksum ds')
    (hdistinct : ∀ e ∈ persisted checksum ds, ∀ e' ∈ persisted checksum ds,
      e.invoiceId = e'.invoiceId → e.key = e'.key → e = e')
    (soroban : Soroban) (asText : Bool) (v : JsValue) :
    let p := findProjection asText (deliver checksum ds) (safeIdOf v)
    let p' := findProjection asText (deliver checksum ds') (safeIdOf v)
    (∀ options : ReadOptions, readEscrowState soroban { options with projection := p } v =
      readEscrowState soroban { options with projection := p' } v) ∧
    (∀ cache, getEscrowStateWithProjection soroban cache p p v =
      getEscrowStateWithProjection soroban cache p' p' v) ∧
    ∀ adapter, readFundedAmount soroban adapter p v = readFundedAmount soroban adapter p' v := by
  intro p p'
  have hlatest : latest EscrowEvent.key (ofInvoice (safeIdOf v) (persisted checksum ds)) =
      latest EscrowEvent.key (ofInvoice (safeIdOf v) (persisted checksum ds')) := by
    apply latest_eq_of_mem_iff
    · intro e
      simp only [ofInvoice, List.mem_filter, hsame e]
    · intro e he e' he' hkey
      obtain ⟨hin, hinv⟩ := List.mem_filter.mp he
      obtain ⟨hin', hinv'⟩ := List.mem_filter.mp he'
      exact hdistinct e hin e' hin'
        ((of_decide_eq_true hinv).trans (of_decide_eq_true hinv').symm) hkey
  have hbase : readBaseStateFromProjection (safeIdOf v) p =
      readBaseStateFromProjection (safeIdOf v) p' := by
    rw [readBase_deliver, readBase_deliver, hlatest]
  exact ⟨fun options => readEscrowState_congr soroban options hbase,
    fun cache => withProjection_congr soroban cache hbase,
    fun adapter => readFundedAmount_congr soroban adapter hbase⟩

def deliveredEvent (n : ℕ) : EscrowEvent where
  eventId := String.ofList (List.replicate n 'e')
  invoiceId := "inv-1"
  eventType := "funded"
  ledgerSequence := n
  pagingToken := "7"
  contractId := none
  txHash := none
  eventBody := .obj []
  observedAt := "2026-01-01T00:00:00.000Z"

theorem sampleDelivery_first : (sampleDelivery 1).event (fun _ => none) = some (deliveredEvent 1) :=
  rfl

theorem sampleDelivery_second : (sampleDelivery 2).event (fun _ => none) = some (deliveredEvent 2) :=
  rfl

theorem reads_same_events_sample :
    readFundedAmount directSoroban none (findProjection true
        (deliver (fun _ => none) [sampleDelivery 1, sampleDelivery 2]) "inv-1") (.string "inv-1") =
      readFundedAmount directSoroban none (findProjection true
        (deliver (fun _ => none) [sampleDelivery 2, sampleDelivery 1, sampleDelivery 2]) "inv-1")
        (.string "inv-1") := by
  have hfirst : persisted (fun _ => none) [sampleDelivery 1, sampleDelivery 2] =
      [deliveredEvent 1, deliveredEvent 2] := by
    rw [persisted, List.filterMap_cons_some sampleDelivery_first,
      List.filterMap_cons_some sampleDelivery_second, List.filterMap_nil]
  have hagain : persisted (fun _ => none)
      [sampleDelivery 2, sampleDelivery 1, sampleDelivery 2] =
      [deliveredEvent 2, deliveredEvent 1, deliveredEvent 2] := by
    rw [persisted, List.filterMap_cons_some sampleDelivery_second,
      List.filterMap_cons_some sampleDelivery_first, List.filterMap_cons_some sampleDelivery_second,
      List.filterMap_nil]
  have hsame : ∀ e, e ∈ persisted (fun _ => none) [sampleDelivery 1, sampleDelivery 2] ↔
      e ∈ persisted (fun _ => none) [sampleDelivery 2, sampleDelivery 1, sampleDelivery 2] := by
    intro e
    rw [hfirst, hagain]
    simp only [List.mem_cons, List.not_mem_nil, or_false]
    constructor
    · rintro (rfl | rfl)
      · exact .inr (.inl rfl)
      · exact .inl rfl
    · rintro (rfl | rfl | rfl)
      · exact .inr rfl
      · exact .inl rfl
      · exact .inr rfl
  have hdistinct : ∀ e ∈ persisted (fun _ => none) [sampleDelivery 1, sampleDelivery 2],
      ∀ e' ∈ persisted (fun _ => none) [sampleDelivery 1, sampleDelivery 2],
        e.invoiceId = e'.invoiceId → e.key = e'.key → e = e' := by
    intro e he e' he' _ hkey
    have hledger := (key_inj hkey).1
    rw [hfirst] at he he'
    simp only [List.mem_cons, List.not_mem_nil, or_false] at he he'
    rcases he with rfl | rfl <;> rcases he' with rfl | rfl
    · rfl
    · exact absurd hledger (by decide)
    · exact absurd hledger (by decide)
    · rfl
  have hread := (reads_same_events hsame hdistinct directSoroban true (.string "inv-1")).2.2 none
  rw [show safeIdOf (.string "inv-1") = "inv-1" from rfl] at hread
  exact hread

end Same

/-! ### The reconciliation of an indexed invoice -/

section Reconciled
variable {checksum : String → Option Bool} {asText : Bool} {soroban : Soroban} {id safeId : String}

end Reconciled

end Liquifact.Jobs
