import Liquifact.Retention.RetentionPurge

/-!
# The execution record of a run

A run ends with a write of its row in `retention_job_executions`: with its counts when it went
through all its policies, in the `catch` otherwise. The status `completed_with_errors` of a run
that met an error is none of those the table allows, so this run ends in the `catch` as well.

The `Ledger` of a run counts what the database answered to it; `closing` is the answer to the
write at the end of the loops.
-/

namespace Liquifact.Retention
open Liquifact.Lib
open Interaction (Meets either meets_attempt meets_mono meets_query meets_query_bind)

structure Ledger where
  executionId : Option String
  effective : ℕ
  unheld : ℕ
  failures : ℕ
  closing : Option (Except String Unit)

namespace Ledger

def empty : Ledger := ⟨none, 0, 0, 0, none⟩

def failed (g : Ledger) : Ledger := { g with failures := g.failures + 1 }

def updated (g : Ledger) : Ledger := { g with effective := g.effective + 1 }

def foundUnheld (g : Ledger) : Ledger := { g with unheld := g.unheld + 1 }

def closedWith (g : Ledger) (r : Except String Unit) : Ledger := { g with closing := some r }

def entered (g : Ledger) : (q : Query) → Except String q.Response → Ledger
  | .insertExecution _, .ok executionId => { g with executionId := some executionId }
  | .activeHold _ _, .ok held => if held then g else g.foundUnheld
  | .activeHold _ _, .error _ => g.failed
  | .invoiceById _, .error _ => g.failed
  | .updatePii _ _, .ok affected => if 0 < affected then g.updated else g
  | .updatePii _ _, .error _ => g.failed
  | .insertAudit _, .error _ => g.failed
  | .updateExecution _ data, r => if data.status = "failed" then g else g.closedWith r
  | _, _ => g

/- What the run counts: a dry run the invoices it would update. -/
def counted (g : Ledger) (dryRun : Bool) : ℕ := if dryRun then g.unheld else g.effective

end Ledger

/- The writes of the execution row, and what they are given. -/
def records (job : RetentionJob) (g : Ledger) : Query → Prop
  | .insertExecution job' => job' = job ∧ g = .empty
  | .updatePii _ _ => g.closing = none ∧ job.dryRun = false
  | .updateExecution executionId data => g.executionId = some executionId ∧
    ((g.closing ≠ some (.ok ()) ∧ ∃ message, data = failedUpdate message) ∨
      (g.closing = none ∧ ∃ progress, data = closingUpdate progress ∧
        progress.totalPurged = g.counted job.dryRun ∧ progress.errors.length = g.failures))
  | _ => g.closing = none

abbrev KeepsRecord {α : Type} (job : RetentionJob) (post : Ledger → Except String α → Prop)
    (program : Job α) (g : Ledger) : Prop :=
  program.Meets (records job) (fun g q r g' => g' = g.entered q r) post g

section Program
variable {p : Platform} {job : RetentionJob} {executionId : String}

/- The loops and the ledger agree. -/
structure InLoop (job : RetentionJob) (executionId : String) (g : Ledger) (progress : Progress) : Prop where
  created : g.executionId = some executionId
  closing : g.closing = none
  purged : progress.totalPurged = g.counted job.dryRun
  errors : progress.errors.length = g.failures

namespace InLoop
variable {g : Ledger} {progress : Progress}

theorem failed (h : InLoop job executionId g progress) (invoice : Invoice) (message : String) :
    InLoop job executionId g.failed (progress.failed invoice message) := by
  refine ⟨h.created, h.closing, h.purged, ?_⟩
  simp [Progress.failed, Ledger.failed, h.errors]

theorem foundUnheld (h : InLoop job executionId g progress) (hlive : job.dryRun = false) :
    InLoop job executionId g.foundUnheld progress := by
  refine ⟨h.created, h.closing, ?_, h.errors⟩
  rw [h.purged]
  simp [Ledger.counted, Ledger.foundUnheld, hlive]

/- A dry run counts an invoice with its check, a live run with its update. -/
theorem counts (h : InLoop job executionId g progress) (fields : List PiiField) :
    InLoop job executionId (if job.dryRun then g.foundUnheld else g.foundUnheld.updated)
      (progress.purged fields) := by
  cases hdry : job.dryRun with
  | true =>
    refine ⟨h.created, h.closing, ?_, h.errors⟩
    simp [Progress.purged, h.purged, Ledger.counted, Ledger.foundUnheld, hdry]
  | false =>
    refine ⟨h.created, h.closing, ?_, h.errors⟩
    simp [Progress.purged, h.purged, Ledger.counted, Ledger.foundUnheld, Ledger.updated, hdry]

end InLoop

theorem purgeInvoicePii_records (invoiceId : String) (fields : List PiiField) {g : Ledger}
    (hg : g.closing = none) :
    KeepsRecord job
      (either (fun g' result => if result.success then g' = (if job.dryRun then g else g.updated)
          else job.dryRun = false ∧ g' = g)
        (fun g' _ => job.dryRun = false ∧ g' = g.failed))
      (purgeInvoicePii p invoiceId fields job.dryRun) g := by
  unfold purgeInvoicePii
  split
  · rename_i hdry
    simp [KeepsRecord, Meets, either, pure, hdry]
  · rename_i hdry
    have hlive : job.dryRun = false := by simpa using hdry
    refine meets_query_bind hg ?_ fun _ _ h => ⟨hlive, h⟩
    intro current g' hg'
    subst hg'
    refine meets_query_bind ⟨hg, hlive⟩ ?_ fun _ _ h => ⟨hlive, h⟩
    intro affected g' hg'
    subst hg'
    split
    · rename_i hpositive
      simp [Meets, either, pure, hlive, Ledger.entered, hpositive]
    · rename_i hzero
      simp [Meets, either, pure, hlive, Ledger.entered, hzero]

theorem processInvoice_records (policy : RetentionPolicy) (fields : List PiiField) (invoice : Invoice)
    (progress : Progress) (g : Ledger) (hg : InLoop job executionId g progress) :
    KeepsRecord job (fun g' r => ∃ progress', r = .ok progress' ∧ InLoop job executionId g' progress')
      (processInvoice p job policy fields invoice progress) g := by
  unfold processInvoice
  refine meets_query hg.closing fun r g' hg' => ?_
  subst hg'
  cases r with
  | error e => exact ⟨_, rfl, hg.failed invoice e⟩
  | ok held =>
    cases held with
    | true => exact ⟨_, rfl, hg⟩
    | false =>
      refine meets_attempt _ _ (meets_mono ?_ _ _
        (purgeInvoicePii_records invoice.id fields (g := g.foundUnheld) hg.closing))
      intro g' r hr
      cases r with
      | error e =>
        obtain ⟨hlive, rfl⟩ := hr
        exact ⟨_, rfl, (hg.foundUnheld hlive).failed invoice e⟩
      | ok result =>
        simp only [either] at hr
        simp only
        split
        · rename_i hsuccess
          rw [if_pos hsuccess] at hr
          have hcounts := hg.counts result.purgedFields
          rw [← hr] at hcounts
          refine meets_query hcounts.closing fun r g'' hg'' => ?_
          subst hg''
          cases r with
          | error e => exact ⟨_, rfl, hcounts.failed invoice e⟩
          | ok _ => exact ⟨_, rfl, hcounts⟩
        · rename_i hfailed
          rw [if_neg hfailed] at hr
          obtain ⟨hlive, rfl⟩ := hr
          exact ⟨_, rfl, hg.foundUnheld hlive⟩

/- How a run with an execution row ends. -/
def EndsWith (g : Ledger) (r : Except String Unit) : Prop :=
  g.executionId = none ∨ (r = .ok () ↔ g.closing = some (.ok ()))

theorem concluded_records (g : Ledger) (r : Except String Unit) (hg : g.executionId = some executionId)
    (hr : r = .ok () ↔ g.closing = some (.ok ())) :
    KeepsRecord job EndsWith (concluded executionId r) g := by
  cases r with
  | ok _ => exact .inr hr
  | error e =>
    have hopen : g.closing ≠ some (.ok ()) := fun h => by cases hr.mpr h
    refine meets_query_bind ⟨hg, .inl ⟨hopen, e, rfl⟩⟩ ?_ ?_
    · intro _ g' hg'
      subst hg'
      exact .inr (iff_of_false (by simp) hopen)
    · intro e' g' hg'
      subst hg'
      exact .inr (iff_of_false (by simp) hopen)

theorem closingUpdate_status_ne (progress : Progress) : (closingUpdate progress).status ≠ "failed" := by
  by_cases h : progress.errors = []
  · simp [closingUpdate, h]
  · simp [closingUpdate, h]

theorem retentionPurge_records : KeepsRecord job EndsWith (retentionPurge p job) .empty := by
  unfold retentionPurge
  refine meets_query ⟨rfl, rfl⟩ fun r g hg => ?_
  subst hg
  cases r with
  | error e => exact .inl rfl
  | ok executionId =>
    refine meets_attempt _ _ (meets_runPolicies (I := InLoop job executionId) ?_ ?_ ?_ ?_ ?_ ?_)
    · intro g progress q hg hq
      cases q with
      | policyById policyId tenantId => exact ⟨hg.closing, fun _ _ h => h ▸ hg⟩
      | activePolicies tenantId => exact ⟨hg.closing, fun _ _ h => h ▸ hg⟩
      | eligibleInvoices tenantId retentionDays limit => exact ⟨hg.closing, fun _ _ h => h ▸ hg⟩
      | _ => cases hq
    · intro g progress n hg
      exact ⟨hg.created, hg.closing, hg.purged, hg.errors⟩
    · intro policy fields invoice progress g hg
      exact processInvoice_records policy fields invoice progress g hg
    · intro g progress hg
      refine ⟨⟨hg.created, .inr ⟨hg.closing, progress, rfl, hg.purged, hg.errors⟩⟩, ?_⟩
      intro r g' hg'
      subst hg'
      have hentered : g.entered (.updateExecution executionId (closingUpdate progress)) r =
          g.closedWith r := if_neg (closingUpdate_status_ne progress)
      rw [hentered]
      exact concluded_records _ r hg.created (by simp [Ledger.closedWith])
    · intro g progress e hg
      refine concluded_records g (.error e) hg.created (iff_of_false (by simp) ?_)
      rw [hg.closing]
      simp
    · exact ⟨rfl, rfl, by simp [Ledger.counted, Ledger.entered, Ledger.empty], rfl⟩

end Program

/-! ### The row in the table -/

structure Recorded where
  system : System
  ledger : Ledger
  outage : Option (Option String)

namespace Recorded

def start (p : Platform) (job : RetentionJob) (db : Database) (clock : ℕ) : Recorded :=
  ⟨⟨db, clock, retentionPurge p job⟩, .empty, none⟩

/- `outage` is the failure of the closing write that is not of its making, once it is sent. -/
def step (p : Platform) (w : Recorded) (a : Action) : Recorded where
  system := w.system.step p a
  ledger := match a, w.system.program with
    | .statement elapsed env, .ask q _ =>
      w.ledger.entered q (w.system.db.answer p (w.system.clock + elapsed) env q).1
    | _, _ => w.ledger
  outage := match a, w.system.program with
    | .statement _ env, .ask (.updateExecution _ data) _ =>
      if data.status = "failed" then w.outage else some env.failure
    | _, _ => w.outage

def after (p : Platform) (job : RetentionJob) (db : Database) (clock : ℕ) (as : List Action) :
    Recorded :=
  run (step p) (start p job db clock) as

def wentThrough (w : Recorded) : Bool := w.outage.isSome

end Recorded

/- What the worker gets from the handler; it retries what was thrown. -/
def handlerOutcome : Except String Unit → Option Thrown
  | .ok _ => none
  | .error message => some (.ofMessage message)

/-- The row of a run that is over. -/
structure ClosesRecord (w : Recorded) (r : Except String Unit) (row : JobExecution) : Prop where
  status : row.status ∈ executionStatuses
  notFailed : w.wentThrough = true → row.status ≠ "failed"
  notRetried : w.wentThrough = true → handlerOutcome r = none
  purged : row.invoicesPurged = w.ledger.effective

/-- A run that went through its loops met no failing statement there, its closing write did not
fail, and if it was a dry run it found no invoice to update; a run that did not had updated
nothing. -/
def GoesWell (job : RetentionJob) (w : Recorded) : Prop :=
  match w.outage with
  | some failure => failure = none ∧ w.ledger.failures = 0 ∧ (job.dryRun = true → w.ledger.unheld = 0)
  | none => w.ledger.effective = 0

section Rows
variable {job : RetentionJob}

def rowMatches (job : RetentionJob) (g : Ledger) (row : JobExecution) : Prop :=
  match g.closing with
  | some (.ok _) => row.status = "completed" ∧ row.invoicesPurged = g.counted job.dryRun
  | _ => row.invoicesPurged = 0

def Query.writesExecution : Query → Bool
  | .insertExecution _ | .updateExecution _ _ => true
  | _ => false

theorem entered_keeps {g : Ledger} {q : Query} (hq : q.writesExecution = false)
    (r : Except String q.Response) :
    (g.entered q r).executionId = g.executionId ∧ (g.entered q r).closing = g.closing := by
  cases q with
  | insertExecution job => cases hq
  | updateExecution executionId data => cases hq
  | activeHold tenantId invoiceId =>
    cases r with
    | error e => exact ⟨rfl, rfl⟩
    | ok held =>
      cases held with
      | true => exact ⟨rfl, rfl⟩
      | false => exact ⟨rfl, rfl⟩
  | updatePii invoiceId fields =>
    cases r with
    | error e => exact ⟨rfl, rfl⟩
    | ok affected =>
      simp only [Ledger.entered]
      split
      · exact ⟨rfl, rfl⟩
      · exact ⟨rfl, rfl⟩
  | _ =>
    cases r with
    | error e => exact ⟨rfl, rfl⟩
    | ok _ => exact ⟨rfl, rfl⟩

theorem effect_executions {db db' : Database} {q : Query} (h : Database.Effect db q db')
    (hq : q.writesExecution = false) : db'.executions = db.executions := by
  cases h with
  | insertExecution job rows => cases hq
  | updateExecution executionId data rows => cases hq
  | _ => rfl

structure RowKept (job : RetentionJob) (g : Ledger) (db : Database) : Prop where
  present : ∀ executionId, g.executionId = some executionId →
    ∃ row ∈ db.executions, row.id = executionId
  rows : ∀ executionId, g.executionId = some executionId →
    ∀ row ∈ db.executions, row.id = executionId → rowMatches job g row

theorem rowMatches_of_open {g : Ledger} {row : JobExecution} (h : g.closing ≠ some (.ok ())) :
    rowMatches job g row ↔ row.invoicesPurged = 0 := by
  unfold rowMatches
  split
  · rename_i u hclosing
    exact absurd hclosing h
  · rfl

theorem rowKept_quiet {g g' : Ledger} {db db' : Database} (h : RowKept job g db)
    (hid : g'.executionId = g.executionId) (hopen : g.closing ≠ some (.ok ()))
    (hopen' : g'.closing ≠ some (.ok ())) (hrows : db'.executions = db.executions) :
    RowKept job g' db' := by
  refine ⟨?_, ?_⟩
  · intro executionId hcreated
    rw [hrows]
    exact h.present executionId (hid ▸ hcreated)
  · intro executionId hcreated row hmem hrow
    rw [hrows] at hmem
    rw [rowMatches_of_open hopen']
    exact (rowMatches_of_open hopen).mp (h.rows executionId (hid ▸ hcreated) row hmem hrow)

theorem rowKept_none {g : Ledger} {db : Database} (h : g.executionId = none) : RowKept job g db := by
  refine ⟨?_, ?_⟩
  · intro executionId hcreated
    cases h.symm.trans hcreated
  · intro executionId hcreated
    cases h.symm.trans hcreated

/- The row is new, since its primary key is. -/
theorem rowKept_insert (p : Platform) (now : ℕ) (env : Env) (db : Database) :
    RowKept job (Ledger.empty.entered (.insertExecution job)
      (db.answer p now env (.insertExecution job)).1) (db.answer p now env (.insertExecution job)).2 := by
  unfold Database.answer
  split
  · exact rowKept_none rfl
  · simp only [Database.execute, Database.insertExecution]
    split
    · exact rowKept_none rfl
    · rename_i hfresh
      refine ⟨?_, ?_⟩
      · intro executionId hcreated
        cases hcreated
        exact ⟨_, List.mem_append_right _ (List.mem_singleton_self _), rfl⟩
      · intro executionId hcreated row hmem hrow
        cases hcreated
        rcases List.mem_append.mp hmem with hold | hnew
        · refine absurd (List.any_eq_true.mpr ⟨row, hold, decide_eq_true hrow⟩) hfresh
        · rw [List.mem_singleton.mp hnew]
          rfl

/- A write of the execution row is refused or changes the rows with its key. -/
theorem updateExecution_cases (p : Platform) (db : Database) (executionId : String)
    (data : ExecutionUpdate) (now : ℕ) :
    (∃ e, db.updateExecution p executionId data now = (.error e, db)) ∨
      ∃ h : data.status ∈ executionStatuses,
        db.updateExecution p executionId data now = (.ok (), { db with
          executions := updateWhere (fun row => decide (row.id = executionId))
            (Database.closed data h now) db.executions }) := by
  unfold Database.updateExecution
  split
  · exact .inl ⟨_, rfl⟩
  · split
    · rename_i h
      exact .inr ⟨h, rfl⟩
    · exact .inl ⟨_, rfl⟩

theorem rowKept_updated {g g' : Ledger} {db : Database} {executionId : String}
    {data : ExecutionUpdate} {now : ℕ} (hstatus : data.status ∈ executionStatuses)
    (h : RowKept job g db) (hid : g'.executionId = g.executionId)
    (hcreated : g.executionId = some executionId)
    (hrow : ∀ row, rowMatches job g row → rowMatches job g' (Database.closed data hstatus now row)) :
    RowKept job g' { db with
      executions := updateWhere (fun row => decide (row.id = executionId))
        (Database.closed data hstatus now) db.executions } := by
  refine ⟨?_, ?_⟩
  · intro id hid'
    obtain ⟨row, hmem, hrowid⟩ := h.present id (hid ▸ hid')
    have hsame : executionId = id := Option.some.inj (hcreated.symm.trans (hid ▸ hid'))
    refine ⟨Database.closed data hstatus now row, mem_updateWhere.mpr ⟨row, hmem, ?_⟩, hrowid⟩
    rw [if_pos (decide_eq_true (hrowid.trans hsame.symm))]
  · intro id hid' row hmem hrowid
    have hsame : executionId = id := Option.some.inj (hcreated.symm.trans (hid ▸ hid'))
    obtain ⟨row₀, hmem₀, hrow₀⟩ := mem_updateWhere.mp hmem
    by_cases hkey : row₀.id = executionId
    · rw [if_pos (decide_eq_true hkey)] at hrow₀
      subst hrow₀
      exact hrow row₀ (h.rows id (hid ▸ hid') row₀ hmem₀ hrowid)
    · rw [if_neg (by simpa using hkey)] at hrow₀
      subst hrow₀
      exact absurd (hrowid.trans hsame.symm) hkey

end Rows

/- The answer to the closing write: the status it writes is allowed when nothing failed. -/
def closingKnown (g : Ledger) (outage : Option (Option String)) : Prop :=
  match g.closing with
  | none => outage = none
  | some r => ∃ failure, outage = some failure ∧ (r = .ok () ↔ failure = none ∧ g.failures = 0)

structure Kept (job : RetentionJob) (w : Recorded) : Prop where
  record : KeepsRecord job EndsWith w.system.program w.ledger
  dry : job.dryRun = true → w.ledger.effective = 0
  row : RowKept job w.ledger w.system.db
  closing : closingKnown w.ledger w.outage

section Steps
variable {p : Platform} {job : RetentionJob} {db : Database} {clock : ℕ} {g : Ledger}
  {outage : Option (Option String)}

theorem entered_effective {q : Query} (hq : ∀ invoiceId fields, q ≠ .updatePii invoiceId fields)
    (r : Except String q.Response) : (g.entered q r).effective = g.effective := by
  cases q with
  | updatePii invoiceId fields => exact absurd rfl (hq invoiceId fields)
  | activeHold tenantId invoiceId =>
    cases r with
    | error e => rfl
    | ok held => cases held <;> rfl
  | updateExecution executionId data =>
    simp only [Ledger.entered]
    split <;> rfl
  | _ => cases r <;> rfl

/- A statement that does not write the execution row comes before the closing write. -/
theorem kept_quiet {q : Query} {next : Except String q.Response → Job Unit}
    (hw : Kept job ⟨⟨db, clock, .ask q next⟩, g, outage⟩) (hq : q.writesExecution = false)
    (hopen : g.closing = none)
    (hlive : ∀ invoiceId fields, q = .updatePii invoiceId fields → job.dryRun = false)
    (elapsed : ℕ) (env : Env) :
    Kept job ⟨System.step p ⟨db, clock, .ask q next⟩ (.statement elapsed env),
      g.entered q (db.answer p (clock + elapsed) env q).1, outage⟩ := by
  obtain ⟨hid, hclosing⟩ := entered_keeps hq (g := g) (db.answer p (clock + elapsed) env q).1
  have hne : g.closing ≠ some (.ok ()) := by simp [hopen]
  refine ⟨hw.record.2 _ _ rfl, ?_, ?_, ?_⟩
  · intro hdry
    rw [entered_effective ?_ _]
    · exact hw.dry hdry
    · intro invoiceId fields h
      exact absurd (hlive invoiceId fields h) (by simp [hdry])
  · exact rowKept_quiet hw.row hid hne (hclosing ▸ hne)
      (effect_executions (Database.answer_effect p (clock + elapsed) env db q) hq)
  · have hnone : outage = none := by
      have := hw.closing
      simpa [closingKnown, hopen] using this
    simp [closingKnown, hclosing, hopen, hnone]

/- The write of the `catch` leaves the counts as they are. -/
theorem rowKept_failed {executionId message : String} (h : RowKept job g db)
    (hcreated : g.executionId = some executionId) (hopen : g.closing ≠ some (.ok ())) (now : ℕ)
    (env : Env) :
    RowKept job g (db.answer p now env (.updateExecution executionId (failedUpdate message))).2 := by
  unfold Database.answer
  split
  · exact h
  · simp only [Database.execute]
    rcases updateExecution_cases p db executionId (failedUpdate message) now with
      ⟨e, hrefused⟩ | ⟨hstatus, hwritten⟩
    · rw [hrefused]
      exact h
    · rw [hwritten]
      refine rowKept_updated hstatus h rfl hcreated fun row hrow => ?_
      rw [rowMatches_of_open hopen] at hrow ⊢
      exact hrow

theorem closing_accepted (p : Platform) (db : Database) (executionId : String) (now : ℕ)
    {progress : Progress} (herrors : progress.errors = []) :
    ∃ h, db.updateExecution p executionId (closingUpdate progress) now = (.ok (), { db with
      executions := updateWhere (fun row => decide (row.id = executionId))
        (Database.closed (closingUpdate progress) h now) db.executions }) := by
  have hstatus : (closingUpdate progress).status ∈ executionStatuses := by
    simp [closingUpdate, herrors, executionStatuses]
  have hnull : (closingUpdate progress).errors = none := by simp [closingUpdate, herrors]
  refine ⟨hstatus, ?_⟩
  unfold Database.updateExecution
  rw [if_neg (by simp [hnull]), dif_pos hstatus]

/- `completed_with_errors` is no status of the table. -/
theorem closing_refused (p : Platform) (db : Database) (executionId : String) (now : ℕ)
    {progress : Progress} (herrors : progress.errors ≠ []) :
    ∃ e, db.updateExecution p executionId (closingUpdate progress) now = (.error e, db) := by
  rcases updateExecution_cases p db executionId (closingUpdate progress) now with h | ⟨hstatus, -⟩
  · exact h
  · simp [closingUpdate, herrors, executionStatuses] at hstatus

/- What the closing write leaves, by its answer. -/
theorem rowKept_closing {executionId : String} {progress : Progress} (h : RowKept job g db)
    (hcreated : g.executionId = some executionId) (hopen : g.closing = none)
    (hpurged : progress.totalPurged = g.counted job.dryRun)
    (herrors : progress.errors.length = g.failures) (now : ℕ) (env : Env) :
    RowKept job
      (g.closedWith (db.answer p now env (.updateExecution executionId (closingUpdate progress))).1)
      (db.answer p now env (.updateExecution executionId (closingUpdate progress))).2 ∧
    ((db.answer p now env (.updateExecution executionId (closingUpdate progress))).1 = .ok () ↔
      env.failure = none ∧ g.failures = 0) := by
  have hne : g.closing ≠ some (.ok ()) := by simp [hopen]
  have hrefused : ∀ e : String, RowKept job (g.closedWith (.error e)) db :=
    fun e => rowKept_quiet h rfl hne (by simp [Ledger.closedWith]) rfl
  unfold Database.answer
  cases hfailure : env.failure with
  | some message => exact ⟨hrefused message, by simp⟩
  | none =>
    simp only [Database.execute]
    by_cases hnil : progress.errors = []
    · obtain ⟨hstatus, hwritten⟩ := closing_accepted p db executionId now hnil
      have hzero : g.failures = 0 := by rw [← herrors, hnil]; rfl
      rw [hwritten]
      refine ⟨rowKept_updated hstatus h rfl hcreated fun row _ => ⟨?_, ?_⟩, by simp [hzero]⟩
      · simp [Database.closed, closingUpdate, hnil]
      · simp [Database.closed, closingUpdate, hpurged, Ledger.counted, Ledger.closedWith]
    · obtain ⟨e, hwritten⟩ := closing_refused p db executionId now hnil
      have hpos : g.failures ≠ 0 := by
        rw [← herrors]
        exact fun h => hnil (List.length_eq_zero_iff.mp h)
      rw [hwritten]
      exact ⟨hrefused e, by simp [hpos]⟩

theorem kept_insert {job' : RetentionJob} {next : Except String String → Job Unit}
    (hw : Kept job ⟨⟨db, clock, .ask (.insertExecution job') next⟩, g, outage⟩) (elapsed : ℕ)
    (env : Env) :
    Kept job (Recorded.step p ⟨⟨db, clock, .ask (.insertExecution job') next⟩, g, outage⟩
      (.statement elapsed env)) := by
  obtain ⟨rfl, rfl⟩ : job' = job ∧ g = .empty := hw.record.1
  refine ⟨hw.record.2 _ _ rfl, ?_, rowKept_insert p (clock + elapsed) env db, ?_⟩
  · intro hdry
    exact (entered_effective (by simp) _).trans (hw.dry hdry)
  · have hnone : outage = none := hw.closing
    subst hnone
    simp only [Recorded.step]
    cases (db.answer p (clock + elapsed) env (.insertExecution job')).1 with
    | error e => rfl
    | ok executionId => rfl

theorem kept_update {executionId : String} {data : ExecutionUpdate}
    {next : Except String Unit → Job Unit}
    (hw : Kept job ⟨⟨db, clock, .ask (.updateExecution executionId data) next⟩, g, outage⟩)
    (elapsed : ℕ) (env : Env) :
    Kept job (Recorded.step p ⟨⟨db, clock, .ask (.updateExecution executionId data) next⟩, g, outage⟩
      (.statement elapsed env)) := by
  obtain ⟨hcreated, hdata⟩ := hw.record.1
  have hnext := hw.record.2 (db.answer p (clock + elapsed) env (.updateExecution executionId data)).1
    _ rfl
  rcases hdata with ⟨hopen, message, rfl⟩ | ⟨hopen, progress, rfl, hpurged, herrors⟩
  · exact ⟨hnext, hw.dry, rowKept_failed hw.row hcreated hopen (clock + elapsed) env, hw.closing⟩
  · have hentered : ∀ r, g.entered (.updateExecution executionId (closingUpdate progress)) r =
        g.closedWith r := fun r => if_neg (closingUpdate_status_ne progress)
    obtain ⟨hrow, hanswer⟩ := rowKept_closing (p := p) hw.row hcreated hopen hpurged herrors
      (clock + elapsed) env
    refine ⟨hnext, ?_, ?_, ?_⟩
    · simp only [Recorded.step, hentered]
      exact hw.dry
    · simp only [Recorded.step, hentered]
      exact hrow
    · simp only [Recorded.step, hentered, if_neg (closingUpdate_status_ne progress)]
      exact ⟨env.failure, rfl, hanswer⟩

theorem kept_step {w : Recorded} (hw : Kept job w) (a : Action) : Kept job (w.step p a) := by
  obtain ⟨⟨db, clock, program⟩, g, outage⟩ := w
  cases a with
  | placeHold hold => exact ⟨hw.record, hw.dry, ⟨hw.row.present, hw.row.rows⟩, hw.closing⟩
  | releaseHold holdId => exact ⟨hw.record, hw.dry, ⟨hw.row.present, hw.row.rows⟩, hw.closing⟩
  | statement elapsed env =>
    cases program with
    | done r => exact ⟨hw.record, hw.dry, hw.row, hw.closing⟩
    | ask q next =>
      cases q with
      | insertExecution job' => exact kept_insert hw elapsed env
      | updateExecution executionId data => exact kept_update hw elapsed env
      | updatePii invoiceId fields =>
        exact kept_quiet hw rfl hw.record.1.1 (fun _ _ _ => hw.record.1.2) elapsed env
      | _ => exact kept_quiet hw rfl hw.record.1 (fun _ _ h => by cases h) elapsed env

end Steps

theorem kept_run (p : Platform) (job : RetentionJob) (db : Database) (clock : ℕ) (as : List Action) :
    Kept job (Recorded.after p job db clock as) := by
  refine run_keeps (Recorded.step p) (Kept job) ?_ _ as
    ⟨retentionPurge_records, fun _ => rfl, rowKept_none rfl, rfl⟩
  intro w a hw
  exact kept_step hw a

theorem Recorded.exists_over (p : Platform) (job : RetentionJob) (db : Database) (clock : ℕ)
    (supply : ℕ → ℕ × Env) :
    ∃ n, (after p job db clock (System.statements supply n)).system.program.finished = true := by
  exact System.exists_over_of_map (step p) (f := Recorded.system) (fun _ _ => rfl) _ supply

theorem closesRecord_iff {job : RetentionJob} {w : Recorded} {r : Except String Unit}
    {row : JobExecution} (hw : Kept job w) (hends : r = .ok () ↔ w.ledger.closing = some (.ok ()))
    (hrow : rowMatches job w.ledger row) : ClosesRecord w r row ↔ GoesWell job w := by
  have hclosing := hw.closing
  unfold closingKnown at hclosing
  cases hc : w.ledger.closing with
  | none =>
    rw [hc] at hclosing
    have hpurged : row.invoicesPurged = 0 := (rowMatches_of_open (by simp [hc])).mp hrow
    have hthrough : w.wentThrough = false := by simp [Recorded.wentThrough, hclosing]
    simp only [GoesWell, hclosing]
    constructor
    · intro h
      rw [← h.purged, hpurged]
    · intro h
      exact ⟨row.check, by simp [hthrough], by simp [hthrough], by rw [hpurged, h]⟩
  | some answer =>
    rw [hc] at hclosing hends
    obtain ⟨failure, houtage, hanswer⟩ := hclosing
    have hthrough : w.wentThrough = true := by simp [Recorded.wentThrough, houtage]
    simp only [GoesWell, houtage]
    cases answer with
    | error e =>
      have hthrown : r ≠ .ok () := fun h => by cases hends.mp h
      refine iff_of_false (fun h => hthrown ?_) fun h => by cases hanswer.mpr ⟨h.1, h.2.1⟩
      have hresolved := h.notRetried hthrough
      cases r with
      | ok u => rfl
      | error m => cases hresolved
    | ok u =>
      obtain ⟨hnone, hzero⟩ := hanswer.mp rfl
      have hok : r = .ok () := hends.mpr rfl
      obtain ⟨hstatus, hpurged⟩ : row.status = "completed" ∧
          row.invoicesPurged = w.ledger.counted job.dryRun := by
        simpa [rowMatches, hc] using hrow
      have hcount : w.ledger.counted job.dryRun = w.ledger.effective ↔
          (job.dryRun = true → w.ledger.unheld = 0) := by
        cases hdry : job.dryRun with
        | true => simp [Ledger.counted, hw.dry hdry]
        | false => simp [Ledger.counted]
      constructor
      · intro h
        exact ⟨hnone, hzero, hcount.mp (hpurged.symm.trans h.purged)⟩
      · intro h
        refine ⟨row.check, fun _ => ?_, fun _ => ?_, hpurged.trans (hcount.mpr h.2.2)⟩
        · rw [hstatus]
          decide
        · rw [hok]
          rfl

/-- Over every database, every job and every pattern of failing statements, with holds placed
and released in between: the row of a run that is over is closed as it should be exactly when
the run went well. -/
theorem record_closed_iff (p : Platform) (job : RetentionJob) (db : Database) (clock : ℕ)
    (as : List Action) (executionId : String) (r : Except String Unit)
    (hcreated : (Recorded.after p job db clock as).ledger.executionId = some executionId)
    (hover : (Recorded.after p job db clock as).system.program = .done r) :
    (∃ row ∈ (Recorded.after p job db clock as).system.db.executions, row.id = executionId ∧
      ClosesRecord (Recorded.after p job db clock as) r row) ↔
    GoesWell job (Recorded.after p job db clock as) := by
  have hw := kept_run p job db clock as
  have hends : EndsWith (Recorded.after p job db clock as).ledger r := by
    have hrecord := hw.record
    rw [hover] at hrecord
    exact hrecord
  have hends := hends.resolve_left (by simp [hcreated])
  have hiff : ∀ row ∈ (Recorded.after p job db clock as).system.db.executions, row.id = executionId →
      (ClosesRecord (Recorded.after p job db clock as) r row ↔
        GoesWell job (Recorded.after p job db clock as)) :=
    fun row hmem hid => closesRecord_iff hw hends (hw.row.rows executionId hcreated row hmem hid)
  constructor
  · intro h
    obtain ⟨row, hmem, hid, hcloses⟩ := h
    exact (hiff row hmem hid).mp hcloses
  · intro h
    obtain ⟨row, hmem, hid⟩ := hw.row.present executionId hcreated
    exact ⟨row, hmem, hid, (hiff row hmem hid).mpr h⟩

def recordedDatabase : Database :=
  sampleDatabase ["customer_email"] [sampleInvoice "inv-1" (some "a@acme.example")]

theorem record_closed_sample :
    ∃ row ∈ (Recorded.after samplePlatform (sampleJob false) recordedDatabase 10000000000
        [works, works, works, works, works, works, works, works]).system.db.executions,
      row.id = "run-1" ∧ ClosesRecord (Recorded.after samplePlatform (sampleJob false) recordedDatabase
        10000000000 [works, works, works, works, works, works, works, works]) (.ok ()) row := by
  refine (record_closed_iff samplePlatform (sampleJob false) recordedDatabase 10000000000 _ "run-1"
    (.ok ()) (by decide) rfl).mpr ⟨rfl, rfl, ?_⟩
  intro hdry
  cases hdry

/- The invoice is updated, its audit entry is not inserted; both writes of the row are refused
and the handler throws. -/
def erroredRun : Recorded :=
  Recorded.after samplePlatform (sampleJob false) recordedDatabase 10000000000
    [works, works, works, works, works, works, fails, works, works]

theorem errored_run_not_closed :
    erroredRun.ledger.executionId = some "run-1" ∧ erroredRun.wentThrough = true ∧
    erroredRun.ledger.effective = 1 ∧
    erroredRun.system.program = .done (.error "invalid input syntax for type json") ∧
    (erroredRun.system.db.executions.map fun row => (row.id, row.status, row.invoicesPurged)) =
      [("run-1", "started", 0)] ∧
    ¬ ∃ row ∈ erroredRun.system.db.executions, row.id = "run-1" ∧
      ClosesRecord erroredRun (.error "invalid input syntax for type json") row := by
  refine ⟨by decide, by decide, by decide, rfl, by decide, ?_⟩
  intro h
  obtain ⟨row, -, -, hcloses⟩ := h
  cases hcloses.notRetried (by decide)

end Liquifact.Retention
