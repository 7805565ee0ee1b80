import Liquifact.Lib.Interaction
import Liquifact.Lib.JsNumber
import Liquifact.Lib.JsValue
import Liquifact.Lib.Run
import Liquifact.Lib.SqlLogic
import Liquifact.Lib.Table

/-!
# The retention purge (`src/jobs/retentionPurge.js`)

The handler is a program that talks to the database statement by statement; `Database.answer`
is what PostgreSQL does with one statement under the tables of
`migrations/20240425000000_create_invoices_table.sql` and
`migrations/20250425000000_create_retention_system.sql`. Columns and settings the job never
reads or writes are left out.

A statement may fail for reasons of its own; it then changes nothing. A `LIMIT` without
`ORDER BY` gives rows in whatever order the database likes. Both come with the statement, as
its `Env`, together with the primary key a new row gets.
-/

namespace Liquifact.Retention
open Liquifact.Lib

/-! ### Tables -/

inductive PiiField where
  | customerName
  | customerEmail
  | customerTaxId
  deriving DecidableEq

/-- `customer_name` is `NOT NULL`. -/
structure Invoice where
  id : String
  tenantId : String
  invoiceNumber : String
  customerName : String
  customerEmail : Option String
  customerTaxId : Option String
  createdAt : ℤ
  deletedAt : Option ℕ
  deriving DecidableEq

def Invoice.pii (i : Invoice) : PiiField → Option String
  | .customerName => some i.customerName
  | .customerEmail => i.customerEmail
  | .customerTaxId => i.customerTaxId

inductive HoldStatus where
  | active
  | released
  | expired
  deriving DecidableEq

structure LegalHold where
  id : String
  tenantId : String
  invoiceId : Option String
  status : HoldStatus
  expiresAt : Option ℕ
  deriving DecidableEq

structure RetentionPolicy where
  id : String
  tenantId : String
  name : String
  retentionDays : ℕ
  piiFields : List String
  isActive : Bool
  deletedAt : Option ℕ
  deriving DecidableEq

inductive Operation where
  | piiPurged
  | dryRun
  deriving DecidableEq

structure AuditMetadata where
  policyId : String
  dryRun : Bool
  invoiceNumber : String
  purgedFieldsCount : ℕ
  deriving DecidableEq

structure AuditEntry where
  tenantId : String
  invoiceId : String
  operation : Operation
  piiFields : List PiiField
  oldValues : List (PiiField × String)
  reason : String
  performedBy : Option String
  metadata : AuditMetadata
  deriving DecidableEq

inductive ErrorInfo where
  | ofInvoice (invoiceId invoiceNumber error : String)
  | ofRun (error : String)
  deriving DecidableEq

/- The `CHECK` of `retention_job_executions.status`. -/
def executionStatuses : List String := ["started", "completed", "failed", "cancelled"]

structure JobExecution where
  id : String
  tenantId : String
  jobType : String
  status : String
  check : status ∈ executionStatuses
  dryRun : Bool
  invoicesProcessed : ℕ
  invoicesPurged : ℕ
  piiFieldsPurged : List PiiField
  errors : Option (List ErrorInfo)
  completedAt : Option ℕ
  performedBy : Option String

structure Database where
  invoices : List Invoice
  holds : List LegalHold
  policies : List RetentionPolicy
  audit : List AuditEntry
  executions : List JobExecution

/-! ### Statements -/

/-- The payload, once `RetentionJobSchema` has accepted it; `batchSize` is the number that
the query builder puts into the `LIMIT`. -/
structure RetentionJob where
  tenantId : String
  policyId : Option String
  dryRun : Bool
  retentionDays : Option JsNumber
  piiFields : Option (List String)
  performedBy : Option String
  batchSize : ℕ

/- `none` leaves a column as it is. -/
structure ExecutionUpdate where
  status : String
  invoicesProcessed : Option ℕ
  invoicesPurged : Option ℕ
  piiFieldsPurged : Option (List PiiField)
  errors : Option (List ErrorInfo)

inductive Query where
  | insertExecution (job : RetentionJob)
  | policyById (policyId tenantId : String)
  | activePolicies (tenantId : String)
  | eligibleInvoices (tenantId : String) (retentionDays : JsNumber) (limit : ℕ)
  | activeHold (tenantId invoiceId : String)
  | invoiceById (invoiceId : String)
  | updatePii (invoiceId : String) (fields : List PiiField)
  | insertAudit (entry : AuditEntry)
  | updateExecution (executionId : String) (data : ExecutionUpdate)

abbrev Query.Response : Query → Type
  | .insertExecution _ => String
  | .policyById _ _ => Option RetentionPolicy
  | .activePolicies _ => List RetentionPolicy
  | .eligibleInvoices _ _ _ => List Invoice
  | .activeHold _ _ => Bool
  | .invoiceById _ => Option Invoice
  | .updatePii _ _ => ℕ
  | .insertAudit _ => Unit
  | .updateExecution _ _ => Unit

/-- What the job takes from outside the repository: calendar arithmetic in local time (`none`
is an invalid date), SHA-256, number texts, what the schema library says about bad field
names, and whether the driver's rendering of an array fits a JSON column. -/
structure Platform where
  daysBefore : ℕ → JsNumber → Option ℤ
  sha256Hex : String → String
  jwtSecret : Option String
  numberText : JsNumber → String
  issues : List String → String
  arrayFitsJson : Bool

structure Env where
  failure : Option String
  invoiceOrder : RowOrder Invoice
  policyOrder : RowOrder RetentionPolicy
  id : String

def LegalHold.unexpired (h : LegalHold) (now : ℕ) : Bool :=
  match h.expiresAt with
  | none => true
  | some t => decide (now < t)

def LegalHold.activeAt (h : LegalHold) (now : ℕ) : Bool :=
  decide (h.status = .active) && h.unexpired now

def isHeld (holds : List LegalHold) (tenantId invoiceId : String) (now : ℕ) : Bool :=
  holds.any fun h => decide (h.tenantId = tenantId) && decide (h.invoiceId = some invoiceId) &&
    h.activeAt now

/- The subquery of `whereNotIn`. -/
def heldIds (holds : List LegalHold) (tenantId : String) (now : ℕ) : List (Option String) :=
  (holds.filter fun h => decide (h.tenantId = tenantId) && h.activeAt now).map (·.invoiceId)

def eligible (holds : List LegalHold) (tenantId : String) (cutoff : ℤ) (now : ℕ) (i : Invoice) : Bool :=
  decide (i.tenantId = tenantId) && decide (i.createdAt < cutoff) && decide (i.deletedAt = none) &&
    Lib.holds (sqlNotIn i.id (heldIds holds tenantId now))

def piiNull (fields : List PiiField) (i : Invoice) : Invoice :=
  { i with
    customerEmail := if .customerEmail ∈ fields then none else i.customerEmail
    customerTaxId := if .customerTaxId ∈ fields then none else i.customerTaxId }

def hasId (invoiceId : String) (i : Invoice) : Bool := decide (i.id = invoiceId)

namespace Database

/- The query builder refuses to update no columns, the table a NULL in `customer_name`. -/
def updatePii (db : Database) (invoiceId : String) (fields : List PiiField) :
    Except String ℕ × Database :=
  if fields = [] then (.error "Empty .update() call detected!", db)
  else if db.invoices.any (hasId invoiceId) = true ∧ .customerName ∈ fields then
    (.error "null value in column \"customer_name\" violates not-null constraint", db)
  else (.ok (db.invoices.countP (hasId invoiceId)),
    { db with invoices := updateWhere (hasId invoiceId) (piiNull fields) db.invoices })

/- `errors` is the empty object by default. -/
def newExecution (job : RetentionJob) (id : String) : JobExecution where
  id := id
  tenantId := job.tenantId
  jobType := if job.policyId.isSome then "manual_purge" else "scheduled_purge"
  status := "started"
  check := by decide
  dryRun := job.dryRun
  invoicesProcessed := 0
  invoicesPurged := 0
  piiFieldsPurged := []
  errors := some []
  completedAt := none
  performedBy := job.performedBy

def insertExecution (db : Database) (job : RetentionJob) (id : String) : Except String String × Database :=
  if db.executions.any fun e => decide (e.id = id) then
    (.error "duplicate key value violates unique constraint", db)
  else (.ok id, { db with executions := db.executions ++ [newExecution job id] })

/- `completed_at` is set when the run is over. -/
def closed (data : ExecutionUpdate) (h : data.status ∈ executionStatuses) (now : ℕ) (e : JobExecution) :
    JobExecution :=
  { e with
    status := data.status
    check := h
    invoicesProcessed := data.invoicesProcessed.getD e.invoicesProcessed
    invoicesPurged := data.invoicesPurged.getD e.invoicesPurged
    piiFieldsPurged := data.piiFieldsPurged.getD e.piiFieldsPurged
    errors := data.errors
    completedAt := if data.status = "completed" ∨ data.status = "failed" then some now else e.completedAt }

def updateExecution (p : Platform) (db : Database) (executionId : String) (data : ExecutionUpdate)
    (now : ℕ) : Except String Unit × Database :=
  if data.errors.isSome = true ∧ p.arrayFitsJson = false then
    (.error "invalid input syntax for type json", db)
  else if h : data.status ∈ executionStatuses then
    (.ok (), { db with
      executions := updateWhere (fun e => decide (e.id = executionId)) (closed data h now) db.executions })
  else (.error "new row violates check constraint", db)

def eligibleInvoices (p : Platform) (db : Database) (tenantId : String) (retentionDays : JsNumber)
    (limit now : ℕ) (order : RowOrder Invoice) : Except String (List Invoice) :=
  match p.daysBefore now retentionDays with
  | none => .error "invalid input syntax for type timestamp"
  | some cutoff =>
    .ok ((order.arrange (db.invoices.filter (eligible db.holds tenantId cutoff now))).take limit)

def active (tenantId : String) (policy : RetentionPolicy) : Bool :=
  decide (policy.tenantId = tenantId) && policy.isActive && decide (policy.deletedAt = none)

/- A statement that does not fail. -/
def execute (p : Platform) (now : ℕ) (env : Env) (db : Database) :
    (q : Query) → Except String q.Response × Database
  | .insertExecution job => db.insertExecution job env.id
  | .policyById policyId tenantId =>
    (.ok (db.policies.find? fun policy => decide (policy.id = policyId) && active tenantId policy), db)
  | .activePolicies tenantId => (.ok (env.policyOrder.arrange (db.policies.filter (active tenantId))), db)
  | .eligibleInvoices tenantId retentionDays limit =>
    (db.eligibleInvoices p tenantId retentionDays limit now env.invoiceOrder, db)
  | .activeHold tenantId invoiceId => (.ok (isHeld db.holds tenantId invoiceId now), db)
  | .invoiceById invoiceId => (.ok (db.invoices.find? (hasId invoiceId)), db)
  | .updatePii invoiceId fields => db.updatePii invoiceId fields
  | .insertAudit entry => (.ok (), { db with audit := db.audit ++ [entry] })
  | .updateExecution executionId data => db.updateExecution p executionId data now

def answer (p : Platform) (now : ℕ) (env : Env) (db : Database) (q : Query) :
    Except String q.Response × Database :=
  match env.failure with
  | some message => (.error message, db)
  | none => db.execute p now env q

/- What a statement can do to the tables. -/
inductive Effect (db : Database) : Query → Database → Prop where
  | nothing (q : Query) : Effect db q db
  | insertExecution (job : RetentionJob) (rows : List JobExecution) :
      Effect db (.insertExecution job) { db with executions := rows }
  | updatePii (invoiceId : String) (fields : List PiiField) (rows : List Invoice) :
      Effect db (.updatePii invoiceId fields) { db with invoices := rows }
  | insertAudit (entry : AuditEntry) :
      Effect db (.insertAudit entry) { db with audit := db.audit ++ [entry] }
  | updateExecution (executionId : String) (data : ExecutionUpdate) (rows : List JobExecution) :
      Effect db (.updateExecution executionId data) { db with executions := rows }

theorem answer_effect (p : Platform) (now : ℕ) (env : Env) (db : Database) (q : Query) :
    Effect db q (db.answer p now env q).2 := by
  unfold answer
  split
  · exact .nothing q
  · cases q with
    | insertExecution job =>
      simp only [execute, insertExecution]
      split
      · exact .nothing _
      · exact .insertExecution job _
    | updatePii invoiceId fields =>
      simp only [execute, updatePii]
      split
      · exact .nothing _
      · split
        · exact .nothing _
        · exact .updatePii invoiceId fields _
    | updateExecution executionId data =>
      simp only [execute, updateExecution]
      split
      · exact .nothing _
      · split
        · exact .updateExecution executionId data _
        · exact .nothing _
    | insertAudit entry => exact .insertAudit entry
    | _ => exact .nothing _

theorem Effect.holds {db db' : Database} {q : Query} (h : Effect db q db') : db'.holds = db.holds := by
  cases h <;> rfl

theorem Effect.policies {db db' : Database} {q : Query} (h : Effect db q db') :
    db'.policies = db.policies := by
  cases h <;> rfl

theorem Effect.audit {db db' : Database} {q : Query} (h : Effect db q db')
    (hq : ∀ entry, q ≠ .insertAudit entry) : db'.audit = db.audit := by
  cases h with
  | insertAudit entry => exact absurd rfl (hq entry)
  | _ => rfl

end Database

/-! ### The handler -/

abbrev Job (α : Type) := Interaction Query Query.Response α

open Interaction (forEach)

def await (q : Query) : Job q.Response := Interaction.query q

def piiFieldOf : String → Option PiiField
  | "customer_name" => some .customerName
  | "customer_email" => some .customerEmail
  | "customer_tax_id" => some .customerTaxId
  | _ => none

def validatePiiFields (p : Platform) (names : List String) : Except String (List PiiField) :=
  match names.mapM piiFieldOf with
  | some fields => .ok fields
  | none => .error ("Invalid PII fields: " ++ p.issues names)

def hashPiiValue (p : Platform) (value salt : String) : String :=
  p.sha256Hex (salt ++ ":" ++ (truthy p.jwtSecret).getD "default-retention-salt" ++ ":" ++ value)

structure PurgeResult where
  success : Bool
  dryRun : Bool
  purgedFields : List PiiField
  oldValues : List (PiiField × String)

def hashedValues (p : Platform) (invoiceId : String) (fields : List PiiField) :
    Option Invoice → List (PiiField × String)
  | none => []
  | some current => fields.eraseDups.filterMap fun field =>
      (current.pii field).map fun value => (field, hashPiiValue p value invoiceId)

def purgeInvoicePii (p : Platform) (invoiceId : String) (piiFields : List PiiField) (dryRun : Bool) :
    Job PurgeResult :=
  if dryRun then pure ⟨true, true, piiFields, []⟩
  else do
    let current : Option Invoice ← await (.invoiceById invoiceId)
    let result : ℕ ← await (.updatePii invoiceId piiFields)
    if 0 < result then pure ⟨true, false, piiFields, hashedValues p invoiceId piiFields current⟩
    else pure ⟨false, false, [], hashedValues p invoiceId piiFields current⟩

/- The variables of the loops. -/
structure Progress where
  totalProcessed : ℕ
  totalPurged : ℕ
  allPurgedFields : List PiiField
  errors : List ErrorInfo

namespace Progress

def failed (progress : Progress) (invoice : Invoice) (message : String) : Progress :=
  { progress with
    errors := progress.errors ++ [.ofInvoice invoice.id invoice.invoiceNumber message] }

def purged (progress : Progress) (fields : List PiiField) : Progress :=
  { progress with
    totalPurged := progress.totalPurged + 1
    allPurgedFields := fields.foldl (fun all field => if field ∈ all then all else all ++ [field])
      progress.allPurgedFields }

end Progress

section Handler
variable (p : Platform) (job : RetentionJob)

def retentionDaysOf (policy : RetentionPolicy) : JsNumber :=
  job.retentionDays.getD (.ofNat policy.retentionDays)

def auditEntry (policy : RetentionPolicy) (invoice : Invoice) (result : PurgeResult) : AuditEntry where
  tenantId := job.tenantId
  invoiceId := invoice.id
  operation := if job.dryRun then .dryRun else .piiPurged
  piiFields := result.purgedFields
  oldValues := result.oldValues
  reason := "Retention policy: " ++ policy.name ++ " (" ++ p.numberText (retentionDaysOf job policy) ++
    " days)"
  performedBy := job.performedBy
  metadata := ⟨policy.id, result.dryRun, invoice.invoiceNumber, result.purgedFields.length⟩

/- `isUnderLegalHold`, `purgeInvoicePii` and `logRetentionOperation` in one `try`: what was
counted before a statement failed stays counted. -/
def processInvoice (policy : RetentionPolicy) (fields : List PiiField) (invoice : Invoice)
    (progress : Progress) : Job Progress :=
  (await (.activeHold job.tenantId invoice.id)).attempt fun
  | .error message => pure (progress.failed invoice message)
  | .ok true => pure progress
  | .ok false =>
    (purgeInvoicePii p invoice.id fields job.dryRun).attempt fun
    | .error message => pure (progress.failed invoice message)
    | .ok result =>
      if result.success then
        (await (.insertAudit (auditEntry p job policy invoice result))).attempt fun
        | .error message => pure ((progress.purged result.purgedFields).failed invoice message)
        | .ok _ => pure (progress.purged result.purgedFields)
      else pure progress

def processPolicy (policy : RetentionPolicy) (progress : Progress) : Job Progress := do
  let fields ← .done (validatePiiFields p (job.piiFields.getD policy.piiFields))
  let invoices : List Invoice ←
    await (.eligibleInvoices job.tenantId (retentionDaysOf job policy) job.batchSize)
  forEach (processInvoice p job policy fields) invoices
    { progress with totalProcessed := progress.totalProcessed + invoices.length }

def applicablePolicies : Job (List RetentionPolicy) :=
  match job.policyId with
  | none => await (.activePolicies job.tenantId)
  | some policyId => do
    match ← await (.policyById policyId job.tenantId) with
    | none => .done (.error ("Retention policy " ++ policyId ++ " not found or inactive"))
    | some policy => pure [policy]

def closingUpdate (progress : Progress) : ExecutionUpdate where
  status := if progress.errors = [] then "completed" else "completed_with_errors"
  invoicesProcessed := some progress.totalProcessed
  invoicesPurged := some progress.totalPurged
  piiFieldsPurged := some progress.allPurgedFields
  errors := if progress.errors = [] then none else some progress.errors

def failedUpdate (message : String) : ExecutionUpdate where
  status := "failed"
  invoicesProcessed := none
  invoicesPurged := none
  piiFieldsPurged := none
  errors := some [.ofRun message]

/- The body of the outer `try`, once the execution row is there. -/
def runPolicies (executionId : String) : Job Unit := do
  let policies ← applicablePolicies job
  if policies = [] then .done (.error "No active retention policies found")
  else do
    let progress ← forEach (processPolicy p job) policies ⟨0, 0, [], []⟩
    await (.updateExecution executionId (closingUpdate progress))

def concluded (executionId : String) : Except String Unit → Job Unit
  | .ok _ => pure ()
  | .error message => do
    await (.updateExecution executionId (failedUpdate message))
    .done (.error message)

/-- The handler of `retention_purge`, for a payload that the schema has accepted. -/
def retentionPurge : Job Unit :=
  (await (.insertExecution job)).attempt fun
  | .error message => .done (.error message)
  | .ok executionId => (runPolicies p job executionId).attempt (concluded executionId)

end Handler

/-! ### What the handler does around its invoices

A specification of the run needs the invoices only: an invariant of the loops that the
lookups keep and that one invoice keeps, and what it gives for the closing write. -/

def Query.looksUp : Query → Bool
  | .policyById _ _ | .activePolicies _ | .eligibleInvoices _ _ _ => true
  | _ => false

section Rules
open Interaction (Meets either meets_bind meets_query_bind meets_mono meets_forEach)

variable {σ : Type} {allowed : σ → Query → Prop}
  {answers : σ → (q : Query) → Except String q.Response → σ → Prop} {p : Platform}
  {job : RetentionJob}

theorem meets_applicablePolicies {post : σ → Except String (List RetentionPolicy) → Prop} {s : σ}
    (hallowed : ∀ q, q.looksUp = true → allowed s q)
    (hpost : ∀ q r s' result, q.looksUp = true → answers s q r s' → post s' result) :
    (applicablePolicies job).Meets allowed answers post s := by
  unfold applicablePolicies
  split
  · exact ⟨hallowed _ rfl, fun r s' hr => hpost _ r s' r rfl hr⟩
  · refine meets_query_bind (hallowed _ rfl) ?_ fun e s' hr => hpost _ _ s' _ rfl hr
    intro found s' hr
    cases found with
    | none => exact hpost _ _ s' _ rfl hr
    | some policy => exact hpost _ _ s' _ rfl hr

variable {I : σ → Progress → Prop}
  (hlookup : ∀ s progress q, I s progress → q.looksUp = true →
    allowed s q ∧ ∀ r s', answers s q r s' → I s' progress)
  (hprocessed : ∀ s progress n, I s progress → I s { progress with totalProcessed := n })
  (hinvoice : ∀ policy fields invoice progress s, I s progress →
    (processInvoice p job policy fields invoice progress).Meets allowed answers
      (fun s' r => ∃ progress', r = .ok progress' ∧ I s' progress') s)

include hlookup hprocessed hinvoice

theorem meets_processPolicy (policy : RetentionPolicy) (progress : Progress) (s : σ)
    (h : I s progress) :
    (processPolicy p job policy progress).Meets allowed answers
      (either I fun s' _ => ∃ progress', I s' progress') s := by
  refine meets_bind _ s ?_
  cases validatePiiFields p (job.piiFields.getD policy.piiFields) with
  | error e => exact ⟨progress, h⟩
  | ok fields =>
    obtain ⟨hallowed, hkeep⟩ := hlookup s progress
      (.eligibleInvoices job.tenantId (retentionDaysOf job policy) job.batchSize) h rfl
    refine meets_query_bind hallowed ?_ fun e s' hr => ⟨progress, hkeep _ s' hr⟩
    intro invoices s' hr
    refine meets_forEach (fun _ => I) _ ?_ invoices _ s' (hprocessed s' progress _ (hkeep _ s' hr))
    intro invoice rest progress s hI
    refine meets_mono ?_ _ s (hinvoice policy fields invoice progress s hI)
    intro s' r hr
    obtain ⟨progress', rfl, hI'⟩ := hr
    exact hI'

theorem meets_runPolicies {executionId : String} {post : σ → Except String Unit → Prop} {s : σ}
    (hclose : ∀ s progress, I s progress →
      allowed s (.updateExecution executionId (closingUpdate progress)) ∧
        ∀ r s', answers s (.updateExecution executionId (closingUpdate progress)) r s' → post s' r)
    (hthrow : ∀ s progress e, I s progress → post s (.error e)) (h : I s ⟨0, 0, [], []⟩) :
    (runPolicies p job executionId).Meets allowed answers post s := by
  refine meets_bind _ s (meets_applicablePolicies (fun q hq => (hlookup s _ q h hq).1) ?_)
  intro q r s' result hq hr
  have hI : I s' ⟨0, 0, [], []⟩ := (hlookup s _ q h hq).2 r s' hr
  cases result with
  | error e => exact hthrow s' _ e hI
  | ok policies =>
    simp only [either]
    split
    · exact hthrow s' _ _ hI
    · refine meets_bind _ s' (meets_mono ?_ _ s' (meets_forEach (fun _ => I)
        (fun s _ => ∃ progress, I s progress) ?_ policies _ s' hI))
      · intro s r hr
        cases r with
        | error e =>
          obtain ⟨progress, hI⟩ := hr
          exact hthrow s progress e hI
        | ok progress => exact hclose s progress hr
      · intro policy rest progress s hI
        exact meets_processPolicy hlookup hprocessed hinvoice policy progress s hI

end Rules

/-! ### The system around it -/

/- An update that affects a row. -/
def purgedBy : (q : Query) → Except String q.Response → Option String
  | .updatePii invoiceId _, .ok affected => if 0 < affected then some invoiceId else none
  | _, _ => none

theorem purgedBy_eq_some {q : Query} {r : Except String q.Response} {invoiceId : String}
    (h : purgedBy q r = some invoiceId) : ∃ fields, q = .updatePii invoiceId fields := by
  cases q with
  | updatePii id fields =>
    cases r with
    | error e => cases h
    | ok affected =>
      simp only [purgedBy] at h
      split_ifs at h
      cases h
      exact ⟨fields, rfl⟩
  | _ => cases h

inductive Action where
  | statement (elapsed : ℕ) (env : Env)
  | placeHold (hold : LegalHold)
  | releaseHold (holdId : String)

structure System where
  db : Database
  clock : ℕ
  program : Job Unit

namespace System

/-- The next statement of the run, or a statement by which a legal hold is placed or released. -/
def step (p : Platform) (s : System) : Action → System
  | .statement elapsed env =>
    match s.program with
    | .done r => ⟨s.db, s.clock + elapsed, .done r⟩
    | .ask q next =>
      ⟨(s.db.answer p (s.clock + elapsed) env q).2, s.clock + elapsed,
        next (s.db.answer p (s.clock + elapsed) env q).1⟩
  | .placeHold hold => { s with db := { s.db with holds := s.db.holds ++ [hold] } }
  | .releaseHold holdId =>
    { s with db := { s.db with
        holds := updateWhere (fun h => decide (h.id = holdId)) (fun h => { h with status := .released })
          s.db.holds } }

/- The invoice whose PII columns an action sets to NULL. -/
def nulled (p : Platform) (s : System) : Action → Option String
  | .statement elapsed env =>
    match s.program with
    | .done _ => none
    | .ask q _ => purgedBy q (s.db.answer p (s.clock + elapsed) env q).1
  | _ => none

theorem nulled_eq_some {p : Platform} {s : System} {a : Action} {invoiceId : String}
    (h : s.nulled p a = some invoiceId) :
    ∃ elapsed env fields next, a = .statement elapsed env ∧
      s.program = .ask (.updatePii invoiceId fields) next := by
  cases a with
  | placeHold hold => cases h
  | releaseHold holdId => cases h
  | statement elapsed env =>
    simp only [nulled] at h
    split at h
    · cases h
    · rename_i q next hprogram
      obtain ⟨fields, hq⟩ := purgedBy_eq_some h
      subst hq
      exact ⟨elapsed, env, fields, next, rfl, hprogram⟩

/- The first statements of an endless supply. -/
def statements (supply : ℕ → ℕ × Env) (n : ℕ) : List Action :=
  (List.range n).map fun k => .statement (supply k).1 (supply k).2

theorem statements_succ (supply : ℕ → ℕ × Env) (n : ℕ) :
    statements supply (n + 1) =
      .statement (supply 0).1 (supply 0).2 :: statements (fun k => supply (k + 1)) n := by
  unfold statements
  rw [List.range_succ_eq_map, List.map_cons, List.map_map]
  rfl

/- A run is over after finitely many statements, whatever the database answers. -/
theorem exists_over (p : Platform) (s : System) (supply : ℕ → ℕ × Env) :
    ∃ n, (run (step p) s (statements supply n)).program.finished = true := by
  obtain ⟨db, clock, program⟩ := s
  induction program generalizing db clock supply with
  | done r => exact ⟨0, rfl⟩
  | ask q next ih =>
    obtain ⟨n, hn⟩ := ih _ (fun k => supply (k + 1))
      (db.answer p (clock + (supply 0).1) (supply 0).2 q).2 (clock + (supply 0).1)
    refine ⟨n + 1, ?_⟩
    rw [statements_succ]
    exact hn

/- The same for a run that keeps a record beside the system. -/
theorem exists_over_of_map {p : Platform} {τ : Type} (step' : τ → Action → τ) {f : τ → System}
    (h : ∀ t a, f (step' t a) = (f t).step p a) (t : τ) (supply : ℕ → ℕ × Env) :
    ∃ n, (f (run step' t (statements supply n))).program.finished = true := by
  obtain ⟨n, hn⟩ := exists_over p (f t) supply
  refine ⟨n, ?_⟩
  rw [run_map step' h]
  exact hn

end System

/-! ### Samples -/

def sampleDigest (text : String) : String :=
  if text = "inv-1:default-retention-salt:a@acme.example" then
    "b3d8d74efa33ba5a3fc753a63868103e1e9b9f5df9474e3086a2c94f3eba69c2"
  else ""

/- A day is a day; the driver's rendering of an array is no JSON. -/
def samplePlatform : Platform where
  daysBefore now days := match days with
    | .fin q => some (now - ⌊q⌋ * 86400000)
    | _ => none
  sha256Hex := sampleDigest
  jwtSecret := none
  numberText days := match days with
    | .fin q => toString ⌊q⌋
    | _ => ""
  issues _ := "Invalid enum value"
  arrayFitsJson := false

def sampleInvoice (id : String) (email : Option String) : Invoice :=
  ⟨id, "tenant-a", "INV-" ++ id, "Acme", email, none, 0, none⟩

def samplePolicy (fields : List String) : RetentionPolicy :=
  ⟨"policy-1", "tenant-a", "Default", 30, fields, true, none⟩

def sampleDatabase (fields : List String) (invoices : List Invoice) : Database :=
  ⟨invoices, [], [samplePolicy fields], [], []⟩

def sampleJob (dryRun : Bool) : RetentionJob where
  tenantId := "tenant-a"
  policyId := some "policy-1"
  dryRun := dryRun
  retentionDays := none
  piiFields := none
  performedBy := none
  batchSize := 1

def sampleEnv (failure : Option String) : Env :=
  ⟨failure, ⟨fun rows => rows, fun _ => .refl _⟩, ⟨fun rows => rows, fun _ => .refl _⟩, "run-1"⟩

/- A statement that works. -/
def works : Action := .statement 1 (sampleEnv none)

def fails : Action := .statement 1 (sampleEnv (some "connection terminated"))

end Liquifact.Retention
