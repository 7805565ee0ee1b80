import Liquifact.Workers.JobQueue

/-!
# The durable backing (`src/workers/jobPersistence.js`)

The table `background_jobs` (`20260625000000_create_background_jobs.sql:7-21`) with its
column types, `toRow` (59-74), the writes `persistJob`, `updateJobStatus` and `ackJob`
(94-141) and the recovery query (151-191). A write that the table refuses (a value
outside its column's type, a doubled primary key) is logged and changes nothing.
`BIGINT` columns come back from the driver as decimal strings, `INTEGER` ones as numbers.
-/

namespace Liquifact.Workers
open Liquifact.Lib

/-- The `JSONB` column between `JSON.stringify` and the value the driver hands back,
and `JSON.parse` on a text. -/
structure JsonColumn where
  stored : Json → Json
  parse : String → Except String Json
  stored_isPlainObject : ∀ v, (stored v).isPlainObject = v.isPlainObject

structure JobRow where
  id : String
  type : String
  payload : Json
  status : JobStatus
  priority : ℤ
  delayMs : ℤ
  createdAt : ℤ
  startedAt : Option ℕ
  completedAt : Option ℕ
  attempts : ℕ
  lastError : Option String
  ackedAt : Option ℕ

abbrev JobTable := OrdMap String JobRow

def fitsColumn (w : ℕ) : JsNumber → Bool
  | .fin q => q.den = 1 && -2 ^ (w - 1) ≤ q.num && q.num < 2 ^ (w - 1)
  | _ => false

def columnValue : JsNumber → ℤ
  | .fin q => q.num
  | _ => 0

def fitsTime (t : Option ℕ) : Bool := t.all fun n => fitsColumn 64 (.ofNat n)

/-- `sanitisePayload` (`jobPersistence.js:39-51`). A value that is not a string goes
through `JSON.parse(JSON.stringify(raw))` unchanged. -/
def sanitisePayload (js : JsonColumn) (raw : Json) : Except String Json := do
  let parsed ← match raw with
    | .str s => js.parse s
    | v => .ok v
  require (parsed.isPlainObject = true) "payload must be a plain object"
  .ok parsed

def toRow (js : JsonColumn) (job : Job) : JobRow where
  id := job.id
  type := job.type
  payload := js.stored job.payload
  status := job.status
  priority := columnValue job.priority
  delayMs := columnValue job.delayMs.toNumber
  createdAt := columnValue job.createdAt.toNumber
  startedAt := job.startedAt
  completedAt := job.completedAt
  attempts := job.attempts
  lastError := job.lastError
  ackedAt := none

def mutableFits (job : Job) : Bool :=
  fitsColumn 64 job.delayMs.toNumber && fitsTime job.startedAt && fitsTime job.completedAt &&
    fitsColumn 32 (.ofNat job.attempts)

namespace AdapterCall

def fits : AdapterCall → Bool
  | persistJob job => mutableFits job && decide (job.id.length ≤ 32) &&
      decide (job.type.length ≤ 128) && fitsColumn 32 job.priority &&
      fitsColumn 64 job.createdAt.toNumber
  | updateJobStatus job => mutableFits job
  | ackJob _ ackedAt => fitsTime (some ackedAt)

def write (js : JsonColumn) (t : JobTable) : AdapterCall → JobTable
  | persistJob job => if t.has job.id then t else t.set job.id (toRow js job)
  | updateJobStatus job => t.modify job.id fun row => { row with
      status := job.status
      delayMs := columnValue job.delayMs.toNumber
      startedAt := job.startedAt
      completedAt := job.completedAt
      attempts := job.attempts
      lastError := job.lastError }
  | ackJob jobId ackedAt => t.modify jobId fun row => { row with
      status := .completed
      ackedAt := some ackedAt }

def land (js : JsonColumn) (t : JobTable) (c : AdapterCall) : JobTable :=
  if c.fits then c.write js t else t

end AdapterCall

def landed (js : JsonColumn) (calls : List AdapterCall) : JobTable :=
  calls.foldl (AdapterCall.land js) .empty

def JobRow.unacked (row : JobRow) : Bool :=
  (row.status = .pending || row.status = .processing || row.status = .retrying) &&
    row.ackedAt.isNone

/- `rows` answers the recovery query: the order of rows with one `created_at` is the
database's choice. -/
def AnswersRecovery (t : JobTable) (limit : ℕ) (rows : List JobRow) : Prop :=
  ∃ sorted : List JobRow, sorted.Perm (t.values.filter JobRow.unacked) ∧
    sorted.Pairwise (fun a b => a.createdAt ≤ b.createdAt) ∧ rows = sorted.take limit

def fromRow (row : JobRow) (payload : Json) : Job where
  id := row.id
  type := row.type
  payload := payload
  status := .pending
  priority := .fin row.priority
  delayMs := .decimal row.delayMs
  createdAt := .decimal row.createdAt
  startedAt := none
  completedAt := none
  attempts := row.attempts
  lastError := row.lastError

/-- `recoverUnackedJobs` (`jobPersistence.js:151-191`) on the rows of the query;
`none` is a query that failed. -/
def recoverUnackedJobs (js : JsonColumn) (rows : Option (List JobRow)) : List Job :=
  (rows.getD []).filterMap fun row =>
    match sanitisePayload js row.payload with
    | .ok payload => some (fromRow row payload)
    | .error _ => none

/-! ### What landing and recovery do -/

section Spec
variable {js : JsonColumn}

theorem landed_append (calls : List AdapterCall) (c : AdapterCall) :
    landed js (calls ++ [c]) = c.land js (landed js calls) := by
  simp [landed, List.foldl_append]

theorem mem_recoverUnackedJobs {rows : Option (List JobRow)} {job : Job}
    (h : job ∈ recoverUnackedJobs js rows) :
    ∃ row ∈ rows.getD [], ∃ payload, sanitisePayload js row.payload = .ok payload ∧
      job = fromRow row payload := by
  obtain ⟨row, hrow, hjob⟩ := List.mem_filterMap.mp h
  cases hs : sanitisePayload js row.payload with
  | error e =>
    simp only [hs] at hjob
    cases hjob
  | ok payload =>
    simp only [hs] at hjob
    cases hjob
    exact ⟨row, hrow, payload, hs, rfl⟩

def Keyed (t : JobTable) : Prop := ∀ x row, t.get x = some row → row.id = x

theorem keyed_modify {t : JobTable} (h : Keyed t) (k : String) (f : JobRow → JobRow)
    (hf : ∀ row, (f row).id = row.id) : Keyed (t.modify k f) := by
  intro x row hx
  rw [OrdMap.get_modify] at hx
  split at hx
  · obtain ⟨row₀, hrow₀, rfl⟩ := Option.map_eq_some_iff.mp hx
    rw [hf]
    exact h x row₀ hrow₀
  · exact h x row hx

theorem keyed_land {t : JobTable} (h : Keyed t) (c : AdapterCall) : Keyed (c.land js t) := by
  unfold AdapterCall.land
  split
  · cases c with
    | persistJob job =>
      simp only [AdapterCall.write]
      split
      · exact h
      · intro x row hx
        rw [OrdMap.get_set] at hx
        split at hx
        · rename_i hid
          cases hx
          exact hid
        · exact h x row hx
    | updateJobStatus job => exact keyed_modify h _ _ fun _ => rfl
    | ackJob jobId ackedAt => exact keyed_modify h _ _ fun _ => rfl
  · exact h

theorem keyed_landed (calls : List AdapterCall) : Keyed (landed js calls) := by
  unfold landed
  have hstep : ∀ t : JobTable, Keyed t → Keyed (calls.foldl (AdapterCall.land js) t) := by
    induction calls with
    | nil => exact fun _ h => h
    | cons c calls ih => exact fun t h => ih _ (keyed_land h c)
  apply hstep .empty
  intro x row hx
  cases hx

theorem recovered_row {t : JobTable} {limit : ℕ} {rows : List JobRow} {job : Job}
    (hk : Keyed t) (ha : AnswersRecovery t limit rows)
    (h : job ∈ recoverUnackedJobs js (some rows)) :
    ∃ row, t.get job.id = some row ∧ row.unacked = true := by
  obtain ⟨row, hrow, payload, -, rfl⟩ := mem_recoverUnackedJobs h
  obtain ⟨sorted, hperm, -, rfl⟩ := ha
  have hmem : row ∈ t.values.filter JobRow.unacked :=
    hperm.mem_iff.mp (List.mem_of_mem_take hrow)
  obtain ⟨hval, hun⟩ := List.mem_filter.mp hmem
  obtain ⟨x, hx⟩ := (OrdMap.mem_values_iff t row).mp hval
  have hid : row.id = x := hk x row hx
  exact ⟨row, by rw [show (fromRow row payload).id = x from hid]; exact hx, hun⟩

end Spec

end Liquifact.Workers
