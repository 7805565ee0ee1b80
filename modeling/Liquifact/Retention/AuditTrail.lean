import Liquifact.Retention.RetentionPurge

/-!
# The audit log of a purge whose statements may fail

The update and the insertion into `retention_audit_log` are two statements; an error of the
second is caught with those of the first, and the run goes on. A `Traced` run lists the
invoices whose PII columns it has set to NULL and the fate of its `pii_purged` insertions.
-/

namespace Liquifact.Retention
open Liquifact.Lib
open Interaction (Meets either meets_attempt meets_mono meets_query meets_query_bind)

def Audited (db : Database) (invoiceId : String) : Prop :=
  ∃ entry ∈ db.audit, entry.invoiceId = invoiceId ∧ entry.operation = .piiPurged

instance decidableAudited (db : Database) (invoiceId : String) : Decidable (Audited db invoiceId) :=
  inferInstanceAs (Decidable (∃ entry ∈ db.audit, _))

/- A `pii_purged` insertion: its invoice, and whether it works. -/
def System.logs (s : System) : Action → Option (String × Bool)
  | .statement _ env =>
    match s.program with
    | .ask (.insertAudit entry) _ =>
      if entry.operation = .piiPurged then some (entry.invoiceId, env.failure.isNone) else none
    | _ => none
  | _ => none

structure Traced where
  system : System
  nulled : List String
  logged : List String
  unlogged : List String

namespace Traced

def start (p : Platform) (job : RetentionJob) (db : Database) (clock : ℕ) : Traced :=
  ⟨⟨db, clock, retentionPurge p job⟩, [], [], []⟩

def step (p : Platform) (t : Traced) (a : Action) : Traced where
  system := t.system.step p a
  nulled := t.nulled ++ (t.system.nulled p a).toList
  logged := match t.system.logs a with
    | some (invoiceId, true) => t.logged ++ [invoiceId]
    | _ => t.logged
  unlogged := match t.system.logs a with
    | some (invoiceId, false) => t.unlogged ++ [invoiceId]
    | _ => t.unlogged

def after (p : Platform) (job : RetentionJob) (db : Database) (clock : ℕ) (as : List Action) : Traced :=
  run (step p) (start p job db clock) as

end Traced

section Program
variable {p : Platform} {job : RetentionJob}

/- An update that affects a row is followed by its `pii_purged` insertion, and by nothing else. -/
def logsNext (g : Option String) : Query → Prop
  | .insertAudit entry => g = if entry.operation = .piiPurged then some entry.invoiceId else none
  | _ => g = none

abbrev LogsPurges {α : Type} (post : Option String → Except String α → Prop) (program : Job α)
    (g : Option String) : Prop :=
  program.Meets logsNext (fun _ q r g' => g' = purgedBy q r) post g

theorem purgeInvoicePii_logs (invoiceId : String) (fields : List PiiField) (dryRun : Bool) :
    LogsPurges (either (fun g result => g = if result.success = true ∧ dryRun = false then
      some invoiceId else none) fun g _ => g = none)
      (purgeInvoicePii p invoiceId fields dryRun) none := by
  unfold purgeInvoicePii
  split
  · rename_i hdry
    simp [LogsPurges, Meets, either, pure, hdry]
  · rename_i hlive
    refine meets_query_bind rfl ?_ fun _ _ h => h
    intro current g hg
    subst hg
    refine meets_query_bind rfl ?_ fun _ _ h => h
    intro affected g hg
    subst hg
    simp only [purgedBy]
    split
    · simp [Meets, either, pure, hlive]
    · simp [Meets, either, pure]

theorem processInvoice_logs (policy : RetentionPolicy) (fields : List PiiField) (invoice : Invoice)
    (progress : Progress) :
    LogsPurges (fun g r => ∃ progress', r = .ok progress' ∧ g = none)
      (processInvoice p job policy fields invoice progress) none := by
  unfold processInvoice
  refine meets_query rfl fun r g hg => ?_
  subst hg
  cases r with
  | error e => exact ⟨_, rfl, rfl⟩
  | ok held =>
    cases held with
    | true => exact ⟨_, rfl, rfl⟩
    | false =>
      refine meets_attempt _ _ (meets_mono ?_ _ _ (purgeInvoicePii_logs invoice.id fields job.dryRun))
      intro g r hr
      cases r with
      | error e => exact ⟨_, rfl, hr⟩
      | ok result =>
        simp only [either] at hr
        simp only
        split
        · rename_i hsuccess
          refine meets_query ?_ fun r g' hg' => ?_
          · rw [hr]
            cases hdry : job.dryRun with
            | true => simp [logsNext, auditEntry, hdry]
            | false => simp [logsNext, auditEntry, hdry, hsuccess]
          · cases r with
            | error e => exact ⟨_, rfl, hg'⟩
            | ok _ => exact ⟨_, rfl, hg'⟩
        · rename_i hfailed
          refine ⟨_, rfl, ?_⟩
          rw [hr, if_neg fun h => hfailed h.1]

theorem concluded_logs {executionId : String} (r : Except String Unit) :
    LogsPurges (fun g _ => g = none) (concluded executionId r) none := by
  cases r with
  | ok _ => rfl
  | error e => exact meets_query_bind rfl (fun _ _ h => h) fun _ _ h => h

theorem retentionPurge_logs : LogsPurges (fun g _ => g = none) (retentionPurge p job) none := by
  unfold retentionPurge
  refine meets_query rfl fun r g hg => ?_
  subst hg
  cases r with
  | error e => rfl
  | ok executionId =>
    refine meets_attempt _ _ (meets_runPolicies (I := fun g _ => g = none) ?_ (fun _ _ _ h => h) ?_ ?_ ?_ rfl)
    · intro g progress q hg hq
      subst hg
      cases q with
      | policyById policyId tenantId => exact ⟨rfl, fun _ _ h => h⟩
      | activePolicies tenantId => exact ⟨rfl, fun _ _ h => h⟩
      | eligibleInvoices tenantId retentionDays limit => exact ⟨rfl, fun _ _ h => h⟩
      | _ => cases hq
    · intro policy fields invoice progress g hg
      subst hg
      exact processInvoice_logs policy fields invoice progress
    · intro g progress hg
      subst hg
      refine ⟨rfl, fun r g' hg' => ?_⟩
      subst hg'
      exact concluded_logs r
    · intro g progress e hg
      subst hg
      exact concluded_logs (.error e)

end Program

namespace Traced
variable {p : Platform} {db : Database} {t : Traced} {g : Option String}

/- `g` is the invoice that is updated and not logged yet. -/
structure Accounted (db : Database) (t : Traced) (g : Option String) : Prop where
  logsPurges : LogsPurges (fun g _ => g = none) t.system.program g
  nulled_of_pending : ∀ invoiceId, g = some invoiceId → invoiceId ∈ t.nulled
  nulled_of_unlogged : ∀ invoiceId ∈ t.unlogged, invoiceId ∈ t.nulled
  fate : ∀ invoiceId ∈ t.nulled, invoiceId ∈ t.logged ∨ invoiceId ∈ t.unlogged ∨ g = some invoiceId
  audited : ∀ invoiceId, Audited t.system.db invoiceId ↔ Audited db invoiceId ∨ invoiceId ∈ t.logged

theorem audited_append {db db' : Database} {entry : AuditEntry} (h : db'.audit = db.audit ++ [entry])
    (invoiceId : String) : Audited db' invoiceId ↔
      Audited db invoiceId ∨ (entry.invoiceId = invoiceId ∧ entry.operation = .piiPurged) := by
  unfold Audited
  rw [h]
  constructor
  · intro haudited
    obtain ⟨e, he, hmatch⟩ := haudited
    rcases List.mem_append.mp he with hold | hnew
    · exact .inl ⟨e, hold, hmatch⟩
    · rw [List.mem_singleton.mp hnew] at hmatch
      exact .inr hmatch
  · intro haudited
    rcases haudited with ⟨e, he, hmatch⟩ | hmatch
    · exact ⟨e, List.mem_append_left _ he, hmatch⟩
    · exact ⟨entry, List.mem_append_right _ (List.mem_singleton_self _), hmatch⟩

section Statement
variable {s : System} {nulled logged unlogged : List String}

/- A statement that is no insertion into the audit log. -/
theorem accounted_other {q : Query} {next : Except String q.Response → Job Unit}
    (ht : Accounted db ⟨⟨s.db, s.clock, .ask q next⟩, nulled, logged, unlogged⟩ g)
    (hg : g = none) (hq : ∀ entry, q ≠ .insertAudit entry) (now : ℕ) (env : Env) :
    Accounted db ⟨⟨(s.db.answer p now env q).2, now, next (s.db.answer p now env q).1⟩,
      nulled ++ (purgedBy q (s.db.answer p now env q).1).toList, logged, unlogged⟩
      (purgedBy q (s.db.answer p now env q).1) := by
  refine ⟨ht.logsPurges.2 _ _ rfl, ?_, ?_, ?_, ?_⟩
  · intro invoiceId hpurged
    simp [hpurged]
  · intro invoiceId hmem
    exact List.mem_append_left _ (ht.nulled_of_unlogged invoiceId hmem)
  · intro invoiceId hmem
    rcases List.mem_append.mp hmem with hold | hnew
    · rcases ht.fate invoiceId hold with h | h | h
      · exact .inl h
      · exact .inr (.inl h)
      · exact absurd (hg.symm.trans h) (by simp)
    · exact .inr (.inr (Option.mem_toList.mp hnew))
  · intro invoiceId
    unfold Audited
    rw [(Database.answer_effect p now env s.db q).audit hq]
    exact ht.audited invoiceId

section Insertion
variable {entry : AuditEntry} {next : Except String Unit → Job Unit}

theorem step_insert_failed {elapsed : ℕ} {env : Env} {message : String}
    (h : env.failure = some message) :
    step p ⟨⟨s.db, s.clock, .ask (.insertAudit entry) next⟩, nulled, logged, unlogged⟩
      (.statement elapsed env) = ⟨⟨s.db, s.clock + elapsed, next (.error message)⟩, nulled, logged,
        if entry.operation = .piiPurged then unlogged ++ [entry.invoiceId] else unlogged⟩ := by
  by_cases hop : entry.operation = .piiPurged
  · simp [step, System.step, System.nulled, System.logs, Database.answer, h, hop, purgedBy]
  · simp [step, System.step, System.nulled, System.logs, Database.answer, h, hop, purgedBy]

theorem step_insert_works {elapsed : ℕ} {env : Env} (h : env.failure = none) :
    step p ⟨⟨s.db, s.clock, .ask (.insertAudit entry) next⟩, nulled, logged, unlogged⟩
      (.statement elapsed env) =
        ⟨⟨{ s.db with audit := s.db.audit ++ [entry] }, s.clock + elapsed, next (.ok ())⟩, nulled,
          if entry.operation = .piiPurged then logged ++ [entry.invoiceId] else logged, unlogged⟩ := by
  by_cases hop : entry.operation = .piiPurged
  · simp [step, System.step, System.nulled, System.logs, Database.answer, Database.execute, h, hop,
      purgedBy]
  · simp [step, System.step, System.nulled, System.logs, Database.answer, Database.execute, h, hop,
      purgedBy]

/- The insertion for the invoice that is pending. -/
theorem accounted_purge_logged
    (ht : Accounted db ⟨⟨s.db, s.clock, .ask (.insertAudit entry) next⟩, nulled, logged, unlogged⟩ g)
    (hop : entry.operation = .piiPurged) (elapsed : ℕ) (env : Env) :
    Accounted db (step p ⟨⟨s.db, s.clock, .ask (.insertAudit entry) next⟩, nulled, logged, unlogged⟩
      (.statement elapsed env)) none := by
  have hg : g = some entry.invoiceId := by
    have hallowed : g = if _ then _ else _ := ht.logsPurges.1
    rw [hallowed, if_pos hop]
  have hnulled : entry.invoiceId ∈ nulled := ht.nulled_of_pending _ hg
  have hnext := fun r => ht.logsPurges.2 r none rfl
  cases hfailure : env.failure with
  | some message =>
    rw [step_insert_failed hfailure, if_pos hop]
    refine ⟨hnext _, (fun _ h => by cases h), ?_, ?_, ht.audited⟩
    · intro invoiceId hmem
      rcases List.mem_append.mp hmem with hold | hnew
      · exact ht.nulled_of_unlogged invoiceId hold
      · rw [List.mem_singleton.mp hnew]
        exact hnulled
    · intro invoiceId hmem
      rcases ht.fate invoiceId hmem with h | h | h
      · exact .inl h
      · exact .inr (.inl (List.mem_append_left _ h))
      · refine .inr (.inl (List.mem_append_right _ ?_))
        rw [Option.some.inj (hg.symm.trans h)]
        exact List.mem_singleton_self _
  | none =>
    rw [step_insert_works hfailure, if_pos hop]
    refine ⟨hnext _, (fun _ h => by cases h), ht.nulled_of_unlogged, ?_, ?_⟩
    · intro invoiceId hmem
      rcases ht.fate invoiceId hmem with h | h | h
      · exact .inl (List.mem_append_left _ h)
      · exact .inr (.inl h)
      · refine .inl (List.mem_append_right _ ?_)
        rw [Option.some.inj (hg.symm.trans h)]
        exact List.mem_singleton_self _
    · intro invoiceId
      rw [audited_append rfl, ht.audited, List.mem_append, List.mem_singleton, or_assoc]
      refine or_congr_right (or_congr_right ?_)
      rw [and_iff_left hop, eq_comm]

/- The insertion of a dry run says nothing about a purge. -/
theorem accounted_dry_logged
    (ht : Accounted db ⟨⟨s.db, s.clock, .ask (.insertAudit entry) next⟩, nulled, logged, unlogged⟩ g)
    (hop : entry.operation ≠ .piiPurged) (elapsed : ℕ) (env : Env) :
    Accounted db (step p ⟨⟨s.db, s.clock, .ask (.insertAudit entry) next⟩, nulled, logged, unlogged⟩
      (.statement elapsed env)) none := by
  have hg : g = none := by
    have hallowed : g = if _ then _ else _ := ht.logsPurges.1
    rw [hallowed, if_neg hop]
  have hnext := fun r => ht.logsPurges.2 r none rfl
  subst hg
  cases hfailure : env.failure with
  | some message =>
    rw [step_insert_failed hfailure, if_neg hop]
    exact ⟨hnext _, ht.nulled_of_pending, ht.nulled_of_unlogged, ht.fate, ht.audited⟩
  | none =>
    rw [step_insert_works hfailure, if_neg hop]
    refine ⟨hnext _, ht.nulled_of_pending, ht.nulled_of_unlogged, ht.fate, ?_⟩
    intro invoiceId
    rw [audited_append rfl, or_iff_left fun h => hop h.2]
    exact ht.audited invoiceId

end Insertion

end Statement

/- What leaves the program and the audit log alone. -/
theorem accounted_silent {a : Action} {s : System} (ht : Accounted db t g)
    (hstep : t.step p a = ⟨s, t.nulled, t.logged, t.unlogged⟩)
    (hprogram : s.program = t.system.program) (haudit : s.db.audit = t.system.db.audit) :
    Accounted db (t.step p a) g := by
  rw [hstep]
  refine ⟨?_, ht.nulled_of_pending, ht.nulled_of_unlogged, ht.fate, ?_⟩
  · rw [hprogram]
    exact ht.logsPurges
  · intro invoiceId
    unfold Audited
    rw [haudit]
    exact ht.audited invoiceId

theorem accounted_step (ht : Accounted db t g) (a : Action) :
    ∃ g', Accounted db (t.step p a) g' := by
  obtain ⟨⟨db₁, clock, program⟩, nulled, logged, unlogged⟩ := t
  cases a with
  | placeHold hold =>
    refine ⟨g, accounted_silent ht (s := System.step p ⟨db₁, clock, program⟩ (.placeHold hold)) ?_ rfl rfl⟩
    simp [step, System.nulled, System.logs]
  | releaseHold holdId =>
    refine ⟨g, accounted_silent ht (s := System.step p ⟨db₁, clock, program⟩ (.releaseHold holdId)) ?_ rfl rfl⟩
    simp [step, System.nulled, System.logs]
  | statement elapsed env =>
    cases program with
    | done r =>
      refine ⟨g, accounted_silent ht (s := ⟨db₁, clock + elapsed, .done r⟩) ?_ rfl rfl⟩
      simp [step, System.step, System.nulled, System.logs]
    | ask q next =>
      cases q with
      | insertAudit entry =>
        by_cases hop : entry.operation = .piiPurged
        · exact ⟨none, accounted_purge_logged (s := ⟨db₁, clock, .done (.ok ())⟩) ht hop elapsed env⟩
        · exact ⟨none, accounted_dry_logged (s := ⟨db₁, clock, .done (.ok ())⟩) ht hop elapsed env⟩
      | _ =>
        exact ⟨_, accounted_other (s := ⟨db₁, clock, .done (.ok ())⟩) ht ht.logsPurges.1
          (fun _ h => by cases h) (clock + elapsed) env⟩

theorem accounted_run (p : Platform) (job : RetentionJob) (db : Database) (clock : ℕ)
    (as : List Action) : ∃ g, Accounted db (after p job db clock as) g := by
  refine run_keeps (step p) (fun t => ∃ g, Accounted db t g) ?_ _ as
    ⟨none, retentionPurge_logs, ?_, ?_, ?_, ?_⟩
  · intro t a ht
    obtain ⟨g, hg⟩ := ht
    exact accounted_step hg a
  · intro invoiceId h
    cases h
  · intro invoiceId h
    cases h
  · intro invoiceId h
    cases h
  · intro invoiceId
    simp [start]

theorem exists_over (p : Platform) (job : RetentionJob) (db : Database) (clock : ℕ)
    (supply : ℕ → ℕ × Env) :
    ∃ n, (after p job db clock (System.statements supply n)).system.program.finished = true := by
  exact System.exists_over_of_map (step p) (f := Traced.system) (fun _ _ => rfl) _ supply

end Traced

/-- Over every database, every job and every pattern of failing statements: when a run is over,
every invoice it purged has its `pii_purged` row exactly when each invoice for which such an
insertion failed has another one that worked, in the run or before it. -/
theorem purges_audited_iff (p : Platform) (job : RetentionJob) (db : Database) (clock : ℕ)
    (as : List Action) (hover : (Traced.after p job db clock as).system.program.finished = true) :
    (∀ invoiceId ∈ (Traced.after p job db clock as).nulled,
      Audited (Traced.after p job db clock as).system.db invoiceId) ↔
    ∀ invoiceId ∈ (Traced.after p job db clock as).unlogged,
      invoiceId ∈ (Traced.after p job db clock as).logged ∨ Audited db invoiceId := by
  obtain ⟨g, hg⟩ := Traced.accounted_run p job db clock as
  obtain ⟨r, -, hnone⟩ := hg.logsPurges.of_finished hover
  constructor
  · intro haudited invoiceId hunlogged
    have hrow := haudited invoiceId (hg.nulled_of_unlogged invoiceId hunlogged)
    exact ((hg.audited invoiceId).mp hrow).symm
  · intro hlogged invoiceId hnulled
    rw [hg.audited]
    rcases hg.fate invoiceId hnulled with h | h | h
    · exact .inr h
    · exact (hlogged invoiceId h).symm
    · exact absurd (hnone.symm.trans h) (by simp)

def auditedDatabase : Database :=
  sampleDatabase ["customer_email"] [sampleInvoice "inv-1" (some "a@acme.example")]

theorem purges_audited_sample :
    (Traced.after samplePlatform (sampleJob false) auditedDatabase 10000000000
      [works, works, works, works, works, works, works, works]).nulled = ["inv-1"] ∧
    ∀ invoiceId ∈ (Traced.after samplePlatform (sampleJob false) auditedDatabase 10000000000
        [works, works, works, works, works, works, works, works]).nulled,
      Audited (Traced.after samplePlatform (sampleJob false) auditedDatabase 10000000000
        [works, works, works, works, works, works, works, works]).system.db invoiceId := by
  refine ⟨by decide, (purges_audited_iff _ _ _ _ _ (by decide)).mpr ?_⟩
  decide

/- The update takes effect and the insertion fails; so do both writes of the execution row,
with a status and with a rendering of the errors that the table does not take. -/
theorem purge_not_audited :
    (Traced.after samplePlatform (sampleJob false) auditedDatabase 10000000000
      [works, works, works, works, works, works, fails, works, works]).system.program.finished = true ∧
    ¬ ∀ invoiceId ∈ (Traced.after samplePlatform (sampleJob false) auditedDatabase 10000000000
        [works, works, works, works, works, works, fails, works, works]).nulled,
      Audited (Traced.after samplePlatform (sampleJob false) auditedDatabase 10000000000
        [works, works, works, works, works, works, fails, works, works]).system.db invoiceId := by
  refine ⟨by decide, ?_⟩
  decide

end Liquifact.Retention
