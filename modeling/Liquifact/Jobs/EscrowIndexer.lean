import Liquifact.Lib.Fallible
import Liquifact.Lib.JsString
import Liquifact.Lib.JsValue
import Liquifact.Lib.OrdMap

/-!
# The escrow event indexer (`src/jobs/escrowIndexer.js`)

Raw events are normalised (`normalizeEvent`, 139-189, with the format tests of lines
25-52), stored once under their identifier (`upsertEvent`, 222-237) and projected: for
each invoice the projection row (`upsertProjection`, 239-261) shows the latest event, by
ledger sequence and then by paging token (`shouldReplaceProjection`, 270-287).
`persistEscrowEvent` (299-309) does both writes; a refused one aborts the transaction.
-/

namespace Liquifact.Jobs
open Liquifact.Lib

/-- A raw event. A field read as `String(v || '')` or tested for truth is `none` when
falsy and its text otherwise; `ledgerSequence` is `Number(v)`. -/
structure RawEvent where
  invoiceId : Option String
  eventId : Option String
  eventType : Option String
  pagingToken : Option String
  ledgerSequence : JsNumber
  contractId : Option String
  txHash : Option String
  eventBody : Option Json
  observedAt : Option String

structure EscrowEvent where
  eventId : String
  invoiceId : String
  eventType : String
  ledgerSequence : ℕ
  pagingToken : String
  contractId : Option String
  txHash : Option String
  eventBody : Json
  observedAt : String

def isInvoiceId (s : String) : Bool :=
  decide (1 ≤ s.length) && decide (s.length ≤ 128) &&
    s.toList.all fun c => c.isAlphanum || c = '_' || c = '-'

/-- `isValidStellarContractId` (`escrowIndexer.js:25-38`); the checksum is the SDK's
`StrKey.isValidContractId`, `none` when that throws. -/
def isValidStellarContractId (checksum : String → Option Bool) (contractId : String) : Bool :=
  match contractId.toList with
  | [] => false
  | c :: rest =>
    c = 'C' && decide (rest.length = 55) &&
      rest.all (fun d => d.isUpper || ('2'.val ≤ d.val && d.val ≤ '7'.val)) &&
      (checksum contractId).getD false

def isValidTxHash (txHash : String) : Bool :=
  decide (txHash.length = 64) && txHash.toList.all fun c =>
    c.isDigit || ('a'.val ≤ c.val && c.val ≤ 'f'.val) || ('A'.val ≤ c.val && c.val ≤ 'F'.val)

/-- `Number.isInteger(x) && x > 0`, and the integer. -/
def positiveInteger : JsNumber → Option ℕ
  | .fin q => if q.den = 1 ∧ 0 < q.num then some q.num.toNat else none
  | _ => none

/-- `normalizeEvent` (`escrowIndexer.js:139-189`); `payload` is `none` when it is not an
object, `now` is `new Date().toISOString()`. -/
def normalizeEvent (checksum : String → Option Bool) (now : String) (payload : Option RawEvent) :
    Except String EscrowEvent := do
  let raw ← expect "Event payload must be an object." payload
  let invoiceId := trim (raw.invoiceId.getD "")
  let eventId := trim (raw.eventId.getD "")
  let eventType := trim (raw.eventType.getD "")
  let pagingToken := trim (raw.pagingToken.getD "")
  require (isInvoiceId invoiceId = true) "Invalid invoiceId format."
  require (eventId ≠ "") "eventId is required."
  require (eventType ≠ "") "eventType is required."
  let ledgerSequence ← expect "ledgerSequence must be a positive integer."
    (positiveInteger raw.ledgerSequence)
  let contractId := raw.contractId.map trim
  require (∀ c ∈ contractId, c ≠ "" → isValidStellarContractId checksum c = true)
    "Invalid contractId format or checksum."
  let txHash := raw.txHash.map trim
  require (∀ h ∈ txHash, h ≠ "" → isValidTxHash h = true) "Invalid txHash format."
  .ok {
    eventId := eventId
    invoiceId := invoiceId
    eventType := eventType
    ledgerSequence := ledgerSequence
    pagingToken := pagingToken
    contractId := contractId
    txHash := txHash
    eventBody := raw.eventBody.getD (.obj [])
    observedAt := raw.observedAt.getD now }

/-! ### The two tables (`20260427123000_create_escrow_event_index_tables.sql`) -/

structure EventRow where
  eventId : String
  invoiceId : String
  eventType : String
  ledgerSequence : ℕ
  pagingToken : Option String
  contractId : Option String
  txHash : Option String
  eventBody : Json
  observedAt : String
  createdAt : ℕ

/- What the projection row shows of an event; `updated_at` is the time of the write. -/
structure Projection where
  latestEventId : String
  latestEventType : String
  latestLedgerSequence : ℕ
  latestPagingToken : Option String
  latestEventBody : Json
  latestObservedAt : String

structure ProjectionRow extends Projection where
  updatedAt : ℕ

structure EscrowTables where
  events : OrdMap String EventRow
  projection : OrdMap String ProjectionRow

def orNull (s : String) : Option String := if s = "" then none else some s

/-- `upsertEvent` (`escrowIndexer.js:222-237`): a known identifier is left as it is. The
ledger column is a `BIGINT`. -/
def upsertEvent (t : EscrowTables) (e : EscrowEvent) (now : ℕ) : Except String EscrowTables := do
  require (e.ledgerSequence < 2 ^ 63) "value is out of range for type bigint"
  .ok (if t.events.has e.eventId then t else
    { t with events := t.events.set e.eventId {
        eventId := e.eventId
        invoiceId := e.invoiceId
        eventType := e.eventType
        ledgerSequence := e.ledgerSequence
        pagingToken := orNull e.pagingToken
        contractId := e.contractId
        txHash := e.txHash
        eventBody := e.eventBody
        observedAt := e.observedAt
        createdAt := now } })

def projectionOf (e : EscrowEvent) : Projection where
  latestEventId := e.eventId
  latestEventType := e.eventType
  latestLedgerSequence := e.ledgerSequence
  latestPagingToken := orNull e.pagingToken
  latestEventBody := e.eventBody
  latestObservedAt := e.observedAt

def upsertProjection (t : EscrowTables) (e : EscrowEvent) (now : ℕ) : EscrowTables :=
  { t with projection := t.projection.set e.invoiceId ⟨projectionOf e, now⟩ }

/-- The ledger column as the driver returns it: a decimal string or a number. -/
def readLedger (asText : Bool) (n : ℕ) : Numeric :=
  if asText then .decimal n else .number (.ofNat n)

def numberOrZero : Numeric → JsNumber
  | .number x => x.orZero
  | .decimal n => .fin n

def shouldReplaceProjection (asText : Bool) (current : Option Projection) (e : EscrowEvent) :
    Bool :=
  match current with
  | none => true
  | some row =>
    let currentLedger := numberOrZero (readLedger asText row.latestLedgerSequence)
    if JsNumber.lt currentLedger (.ofNat e.ledgerSequence) then true
    else if JsNumber.lt (.ofNat e.ledgerSequence) currentLedger then false
    else jsLt (row.latestPagingToken.getD "") e.pagingToken

/- One call of `persistEscrowEvent` with what it depends on besides the tables: the clock
for a missing `observedAt`, the database's write time, the driver's way to return a `BIGINT`. -/
structure Delivery where
  raw : Option RawEvent
  observed : String
  written : ℕ
  asText : Bool

def persistEscrowEvent (checksum : String → Option Bool) (t : EscrowTables) (d : Delivery) :
    Except String (EscrowEvent × EscrowTables) := do
  let event ← normalizeEvent checksum d.observed d.raw
  let t' ← upsertEvent t event d.written
  let current := (t'.projection.get event.invoiceId).map ProjectionRow.toProjection
  .ok (event, if shouldReplaceProjection d.asText current event
    then upsertProjection t' event d.written else t')

end Liquifact.Jobs
