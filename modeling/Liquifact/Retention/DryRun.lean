import Liquifact.Retention.Backlog

/-!
# What a dry run predicts (`src/jobs/retentionPurge.js`)

A dry run and a live run of one job from one database, with nothing else going on and no
failure but those of the schema. They make the same row choices: the n-th of the queries that
choose rows (policies, eligible invoices, holds) is executed at the same time in both and gives
its rows in an order of which PII is no part. Both runs then come to the same invoices
(`comesTo`); the dry run reports all of them, the live run purges those whose fields an
`UPDATE` can set to NULL.
-/

namespace Liquifact.Retention
open Liquifact.Lib
open Interaction (Meets Runs either meets_attempt meets_bind meets_mono meets_query meets_query_bind
  meets_forEach forEach)

/- An invoice by its identifier, with the fields that are purged. -/
abbrev Purged := String × List PiiField

structure Moment where
  now : ℕ
  invoiceOrder : RowOrder Invoice
  policyOrder : RowOrder RetentionPolicy

/- The order does not depend on PII. -/
def PiiBlind (order : RowOrder Invoice) : Prop :=
  ∀ rows rows' : List Invoice, rows.map Invoice.erased = rows'.map Invoice.erased →
    (order.arrange rows).map Invoice.erased = (order.arrange rows').map Invoice.erased

def Query.chooses : Query → Bool
  | .policyById _ _ | .activePolicies _ | .eligibleInvoices _ _ _ | .activeHold _ _ => true
  | _ => false

/- What a dry run reports as purged is in the audit entries that it writes. -/
def reports : (q : Query) → Except String q.Response → List Purged
  | .insertAudit entry, .ok _ =>
    if entry.operation = .dryRun then [(entry.invoiceId, entry.piiFields)] else []
  | _, _ => []

def purges : (q : Query) → Except String q.Response → List Purged
  | .updatePii invoiceId fields, .ok affected => if 0 < affected then [(invoiceId, fields)] else []
  | _, _ => []

/- A database with the number of row choices made so far, and what was reported and purged. -/
structure PurgeRun where
  db : Database
  choices : ℕ
  reported : List Purged
  purged : List Purged

namespace PurgeRun

def start (db : Database) : PurgeRun := ⟨db, 0, [], []⟩

def after (s : PurgeRun) (q : Query) (r : Except String q.Response) (db : Database) : PurgeRun where
  db := db
  choices := if q.chooses then s.choices + 1 else s.choices
  reported := s.reported ++ reports q r
  purged := s.purged ++ purges q r

end PurgeRun

section Definitions
variable (p : Platform) (job : RetentionJob) (moments : ℕ → Moment)

/- A row choice is made at its moment; the key of a new row is a new one. -/
def Chosen (s : PurgeRun) (q : Query) (r : Except String q.Response) (s' : PurgeRun) : Prop :=
  ∃ now env db', env.failure = none ∧ (∀ row ∈ s.db.executions, row.id ≠ env.id) ∧
    (q.chooses = true → now = (moments s.choices).now ∧
      env.invoiceOrder = (moments s.choices).invoiceOrder ∧
        env.policyOrder = (moments s.choices).policyOrder) ∧
    s.db.answer p now env q = (r, db') ∧ s' = s.after q r db'

/- The invoices among these that are not held when they are checked, the first at choice `k`. -/
def unheld (holds : List LegalHold) (tenantId : String) : ℕ → List String → List String
  | _, [] => []
  | k, id :: ids =>
    if isHeld holds tenantId id (moments k).now then unheld holds tenantId (k + 1) ids
    else id :: unheld holds tenantId (k + 1) ids

/- The rest of a loop over policies, whose first choice is `k`; it ends at bad field names and
at an invalid date. -/
def comesToFrom (db : Database) : ℕ → List RetentionPolicy → List Purged
  | _, [] => []
  | k, policy :: rest =>
    match validatePiiFields p (fieldNames job policy) with
    | .error _ => []
    | .ok fields =>
      match db.eligibleInvoices p job.tenantId (retentionDaysOf job policy) job.batchSize
          (moments k).now (moments k).invoiceOrder with
      | .error _ => []
      | .ok batch =>
        (unheld moments db.holds job.tenantId (k + 1) (batch.map Invoice.id)).map (·, fields) ++
          comesToFrom db (k + 1 + batch.length) rest

def policiesOf (db : Database) : List RetentionPolicy :=
  match job.policyId with
  | none => (moments 0).policyOrder.arrange (db.policies.filter (Database.active job.tenantId))
  | some policyId => (db.policies.find? fun policy =>
      decide (policy.id = policyId) && Database.active job.tenantId policy).toList

/-- The invoices that a run of the job comes to, with the fields of the policy. -/
def comesTo (db : Database) : List Purged := comesToFrom p job moments db 1 (policiesOf job moments db)

/- There is something to update, and none of it is `NOT NULL`. -/
def purgeable (x : Purged) : Bool := decide (x.2 ≠ [] ∧ .customerName ∉ x.2)

end Definitions

/-! ### The record of a run -/

/-- After `k` row choices a run has come to `entries`. -/
structure Upto (job : RetentionJob) (db₀ : Database) (k : ℕ) (entries : List Purged) (s : PurgeRun) :
    Prop where
  frame : Frame db₀ s.db
  choices : s.choices = k
  reported : s.reported = if job.dryRun then entries else []
  purged : s.purged = if job.dryRun then [] else entries.filter purgeable
  untouched : job.dryRun = true → s.db.invoices = db₀.invoices

abbrev Shows {α : Type} (p : Platform) (moments : ℕ → Moment) (post : PurgeRun → Except String α → Prop)
    (program : Job α) (s : PurgeRun) : Prop :=
  program.Meets (fun _ _ => True) (Chosen p moments) post s

section Statements
variable {p : Platform} {job : RetentionJob} {moments : ℕ → Moment} {db₀ : Database} {k : ℕ}
  {entries : List Purged} {s s' : PurgeRun}

theorem chosen_execute {q : Query} {r : Except String q.Response} (h : Chosen p moments s q r s')
    (hq : q.chooses = true) : ∃ env db', env.invoiceOrder = (moments s.choices).invoiceOrder ∧
      env.policyOrder = (moments s.choices).policyOrder ∧
      s.db.execute p (moments s.choices).now env q = (r, db') ∧ s' = s.after q r db' := by
  obtain ⟨now, env, db', hfailure, -, hmoment, hanswer, hs'⟩ := h
  obtain ⟨rfl, hinvoices, hpolicies⟩ := hmoment hq
  simp only [Database.answer, hfailure] at hanswer
  exact ⟨env, db', hinvoices, hpolicies, hanswer, hs'⟩

theorem upto_start (job : RetentionJob) (db : Database) : Upto job db 0 [] (.start db) := by
  refine ⟨.refl db, rfl, ?_, ?_, fun _ => rfl⟩
  · exact (ite_self _).symm
  · exact (ite_self _).symm

/- A row choice changes no table, nor reports or purges anything. -/
theorem Upto.choose (h : Upto job db₀ k entries s) {q : Query} (hq : q.chooses = true)
    (r : Except String q.Response) : Upto job db₀ (k + 1) entries (s.after q r s.db) := by
  have hnone : reports q r = [] ∧ purges q r = [] := by
    cases q with
    | policyById policyId tenantId => exact ⟨rfl, rfl⟩
    | activePolicies tenantId => exact ⟨rfl, rfl⟩
    | eligibleInvoices tenantId retentionDays limit => exact ⟨rfl, rfl⟩
    | activeHold tenantId invoiceId => exact ⟨rfl, rfl⟩
    | _ => cases hq
  refine ⟨h.frame, ?_, ?_, ?_, h.untouched⟩
  · rw [PurgeRun.after, if_pos hq, h.choices]
  · rw [PurgeRun.after, hnone.1, List.append_nil]
    exact h.reported
  · rw [PurgeRun.after, hnone.2, List.append_nil]
    exact h.purged

def Query.records : Query → Bool
  | .insertExecution _ | .updateExecution _ _ => true
  | _ => false

/- Nor does a write to the execution record. -/
theorem Upto.record (h : Upto job db₀ k entries s) {q : Query} {r : Except String q.Response}
    (hq : q.records = true) (hchosen : Chosen p moments s q r s') : Upto job db₀ k entries s' := by
  obtain ⟨now, env, db', -, -, -, hanswer, rfl⟩ := hchosen
  have hnone : reports q r = [] ∧ purges q r = [] ∧ q.chooses = false ∧
      ∀ invoiceId fields, q ≠ .updatePii invoiceId fields := by
    cases q with
    | insertExecution job' => exact ⟨rfl, rfl, rfl, by simp⟩
    | updateExecution executionId data => exact ⟨rfl, rfl, rfl, by simp⟩
    | _ => cases hq
  obtain ⟨hreports, hpurges, hchooses, hne⟩ := hnone
  have heffect := Database.answer_effect p now env s.db q
  rw [hanswer] at heffect
  have hsame := sameTables_of_effect heffect hne
  refine ⟨h.frame.of_same hsame, ?_, ?_, ?_, fun hdry => hsame.invoices.trans (h.untouched hdry)⟩
  · rw [PurgeRun.after, hchooses]
    exact h.choices
  · rw [PurgeRun.after, hreports, List.append_nil]
    exact h.reported
  · rw [PurgeRun.after, hpurges, List.append_nil]
    exact h.purged

/- The invoice is read before it is updated. -/
theorem Upto.read (h : Upto job db₀ k entries s) {invoiceId : String} {r : Except String (Option Invoice)}
    (hchosen : Chosen p moments s (.invoiceById invoiceId) r s') : Upto job db₀ k entries s' := by
  obtain ⟨now, env, db', hfailure, -, -, hanswer, rfl⟩ := hchosen
  simp only [Database.answer, hfailure, Database.execute] at hanswer
  cases hanswer
  refine ⟨h.frame, h.choices, ?_, ?_, h.untouched⟩
  · exact (List.append_nil _).trans h.reported
  · exact (List.append_nil _).trans h.purged

theorem chosen_audit {entry : AuditEntry} {r : Except String Unit}
    (hchosen : Chosen p moments s (.insertAudit entry) r s') :
    s' = s.after (.insertAudit entry) (.ok ()) { s.db with audit := s.db.audit ++ [entry] } := by
  obtain ⟨now, env, db', hfailure, -, -, hanswer, rfl⟩ := hchosen
  simp only [Database.answer, hfailure, Database.execute] at hanswer
  cases hanswer
  rfl

/- The entry of a dry run is its report. -/
theorem Upto.audit_dry (h : Upto job db₀ k entries s) (hdry : job.dryRun = true) {entry : AuditEntry}
    {r : Except String Unit} (hoperation : entry.operation = .dryRun)
    (hchosen : Chosen p moments s (.insertAudit entry) r s') :
    Upto job db₀ k (entries ++ [(entry.invoiceId, entry.piiFields)]) s' := by
  obtain rfl := chosen_audit hchosen
  refine ⟨h.frame.of_same ⟨rfl, rfl, rfl⟩, h.choices, ?_, ?_, h.untouched⟩
  · have hreported := h.reported
    rw [if_pos hdry] at hreported ⊢
    rw [PurgeRun.after, reports, if_pos hoperation, hreported]
  · have hpurged := h.purged
    rw [if_pos hdry] at hpurged ⊢
    exact (List.append_nil _).trans hpurged

theorem Upto.audit_live (h : Upto job db₀ k entries s) {entry : AuditEntry} {r : Except String Unit}
    (hoperation : entry.operation ≠ .dryRun) (hchosen : Chosen p moments s (.insertAudit entry) r s') :
    Upto job db₀ k entries s' := by
  obtain rfl := chosen_audit hchosen
  refine ⟨h.frame.of_same ⟨rfl, rfl, rfl⟩, h.choices, ?_, ?_, h.untouched⟩
  · rw [PurgeRun.after, reports, if_neg hoperation, List.append_nil]
    exact h.reported
  · exact (List.append_nil _).trans h.purged

theorem Frame.any_hasId {db : Database} (h : Frame db₀ db) {invoiceId : String}
    (hid : ∃ i ∈ db₀.invoices, i.id = invoiceId) : db.invoices.any (hasId invoiceId) = true := by
  obtain ⟨i₀, hi₀, rfl⟩ := hid
  have hmem : i₀.erased ∈ db.invoices.map Invoice.erased := by
    rw [h.invoices]
    exact List.mem_map_of_mem hi₀
  obtain ⟨i, hi, heq⟩ := List.mem_map.mp hmem
  have hsame : i.erased.id = i₀.erased.id := by rw [heq]
  exact List.any_eq_true.mpr ⟨i, hi, decide_eq_true hsame⟩

/- Of an invoice that is there, exactly what is purgeable is purged. -/
theorem updatePii_present {db : Database} {invoiceId : String}
    (hpresent : db.invoices.any (hasId invoiceId) = true) (fields : List PiiField) :
    purges (.updatePii invoiceId fields) (db.updatePii invoiceId fields).1 =
      [(invoiceId, fields)].filter purgeable := by
  unfold Database.updatePii
  by_cases hnil : fields = []
  · rw [if_pos hnil, List.filter_cons_of_neg (by simp [purgeable, hnil])]
    rfl
  · rw [if_neg hnil]
    by_cases hname : .customerName ∈ fields
    · rw [if_pos ⟨hpresent, hname⟩, List.filter_cons_of_neg (by simp [purgeable, hname])]
      rfl
    · have hcount : 0 < db.invoices.countP (hasId invoiceId) :=
        List.countP_pos_iff.mpr (List.any_eq_true.mp hpresent)
      rw [if_neg fun hnull => hname hnull.2, List.filter_cons_of_pos (by simp [purgeable, hnil, hname])]
      simp only [purges, if_pos hcount, List.filter_nil]

theorem Upto.update (h : Upto job db₀ k entries s) (hlive : job.dryRun = false) {invoiceId : String}
    {fields : List PiiField} {r : Except String ℕ} (hid : ∃ i ∈ db₀.invoices, i.id = invoiceId)
    (hchosen : Chosen p moments s (.updatePii invoiceId fields) r s') :
    Upto job db₀ k (entries ++ [(invoiceId, fields)]) s' := by
  obtain ⟨now, env, db', hfailure, -, -, hanswer, rfl⟩ := hchosen
  simp only [Database.answer, hfailure, Database.execute] at hanswer
  have hr : (s.db.updatePii invoiceId fields).1 = r := congrArg Prod.fst hanswer
  have hdb : (s.db.updatePii invoiceId fields).2 = db' := congrArg Prod.snd hanswer
  have heffect := Database.answer_effect p now env s.db (.updatePii invoiceId fields)
  simp only [Database.answer, hfailure, Database.execute, hdb] at heffect
  have hupdated : Updated invoiceId fields s.db db' :=
    ⟨congrArg Database.invoices hdb.symm, heffect.holds, heffect.policies⟩
  have hlive' : job.dryRun ≠ true := by
    rw [hlive]
    exact Bool.false_ne_true
  have hdone : InvoiceDone job (fun _ => True) invoiceId fields s.db db' := .inl hupdated
  refine ⟨h.frame.of_done hdone, h.choices, ?_, ?_, fun hdry => absurd hdry hlive'⟩
  · have hreported := h.reported
    rw [if_neg hlive'] at hreported ⊢
    exact (List.append_nil _).trans hreported
  · have hpurged := h.purged
    rw [if_neg hlive'] at hpurged ⊢
    rw [PurgeRun.after, ← hr, updatePii_present (h.frame.any_hasId hid), hpurged, List.filter_append]

end Statements

/-! ### What a run comes to -/

section Loops
variable {p : Platform} {job : RetentionJob} {moments : ℕ → Moment} {db₀ : Database} {k : ℕ}
  {entries : List Purged} {s s' : PurgeRun}

/- Without a hold a dry run reports the invoice, a live run updates it. -/
theorem purgeInvoice_shows (h : Upto job db₀ k entries s) (policy : RetentionPolicy)
    (fields : List PiiField) {invoice : Invoice} (hid : ∃ i ∈ db₀.invoices, i.id = invoice.id)
    (progress : Progress) :
    Shows p moments (fun s' r => ∃ progress', r = .ok progress' ∧
        Upto job db₀ k (entries ++ [(invoice.id, fields)]) s')
      ((purgeInvoicePii p invoice.id fields job.dryRun).attempt fun
        | .error message => pure (progress.failed invoice message)
        | .ok result =>
          if result.success then
            (await (.insertAudit (auditEntry p job policy invoice result))).attempt fun
            | .error message => pure ((progress.purged result.purgedFields).failed invoice message)
            | .ok _ => pure (progress.purged result.purgedFields)
          else pure progress) s := by
  unfold purgeInvoicePii
  cases hmode : job.dryRun with
  | true =>
    rw [if_pos rfl]
    refine meets_query trivial fun r s₁ h₁ => ?_
    have hentry := h.audit_dry hmode (by simp [auditEntry, hmode]) h₁
    obtain rfl := chosen_audit h₁
    cases r with
    | error e => exact ⟨_, rfl, hentry⟩
    | ok _ => exact ⟨_, rfl, hentry⟩
  | false =>
    rw [if_neg Bool.false_ne_true]
    refine meets_attempt _ _ (meets_query_bind trivial ?_ ?_)
    · intro current s₁ h₁
      have hread := h.read h₁
      refine meets_query_bind trivial ?_ ?_
      · intro affected s₂ h₂
        have hupdate := hread.update hmode hid h₂
        have hfinish : ∀ result : PurgeResult, Shows p moments (fun s' r => ∃ progress', r = .ok progress' ∧
            Upto job db₀ k (entries ++ [(invoice.id, fields)]) s')
            (if result.success then
              (await (.insertAudit (auditEntry p job policy invoice result))).attempt fun
              | .error message => pure ((progress.purged result.purgedFields).failed invoice message)
              | .ok _ => pure (progress.purged result.purgedFields)
            else pure progress) s₂ := by
          intro result
          split
          · refine meets_query trivial fun r s₃ h₃ => ?_
            have haudit := hupdate.audit_live (by simp [auditEntry, hmode]) h₃
            cases r with
            | error e => exact ⟨_, rfl, haudit⟩
            | ok _ => exact ⟨_, rfl, haudit⟩
          · exact ⟨_, rfl, hupdate⟩
        split
        · exact hfinish _
        · exact hfinish _
      · intro e s₂ h₂
        exact ⟨_, rfl, hread.update hmode hid h₂⟩
    · intro e s₁ h₁
      obtain ⟨now, env, db', hfailure, -, -, hanswer, -⟩ := h₁
      simp only [Database.answer, hfailure, Database.execute] at hanswer
      cases hanswer

theorem processInvoice_shows (h : Upto job db₀ k entries s) (policy : RetentionPolicy)
    (fields : List PiiField) {invoice : Invoice} (hid : ∃ i ∈ db₀.invoices, i.id = invoice.id)
    (progress : Progress) :
    Shows p moments (fun s' r => ∃ progress', r = .ok progress' ∧ Upto job db₀ (k + 1)
        (entries ++ (unheld moments db₀.holds job.tenantId k [invoice.id]).map (·, fields)) s')
      (processInvoice p job policy fields invoice progress) s := by
  unfold processInvoice
  refine meets_query trivial fun r s₁ h₁ => ?_
  obtain ⟨env, db', -, -, hexecute, rfl⟩ := chosen_execute h₁ rfl
  cases hexecute
  have hchosen := @Upto.choose job db₀ k entries s h (.activeHold job.tenantId invoice.id) rfl
    (.ok (isHeld s.db.holds job.tenantId invoice.id (moments s.choices).now))
  rw [h.frame.holds, h.choices] at hchosen ⊢
  cases hheld : isHeld db₀.holds job.tenantId invoice.id (moments k).now with
  | true =>
    rw [hheld] at hchosen
    refine ⟨progress, rfl, ?_⟩
    simp only [unheld, hheld, if_true, List.map_nil, List.append_nil]
    exact hchosen
  | false =>
    rw [hheld] at hchosen
    simp only [unheld, hheld, Bool.false_eq_true, if_false, List.map_cons, List.map_nil]
    exact purgeInvoice_shows hchosen policy fields hid progress

theorem unheld_cons (moments : ℕ → Moment) (holds : List LegalHold) (tenantId : String) (k : ℕ)
    (id : String) (ids : List String) : unheld moments holds tenantId k (id :: ids) =
      unheld moments holds tenantId k [id] ++ unheld moments holds tenantId (k + 1) ids := by
  simp only [unheld]
  split
  · rfl
  · rfl

/- The loop over a batch: what is still to come is added to what the run has come to. -/
theorem batch_shows (policy : RetentionPolicy) (fields : List PiiField) (batch : List Invoice)
    (hids : ∀ i ∈ batch, ∃ i₀ ∈ db₀.invoices, i₀.id = i.id) (progress : Progress)
    (h : Upto job db₀ k entries s) :
    Shows p moments (either (fun s' _ => Upto job db₀ (k + batch.length) (entries ++
        (unheld moments db₀.holds job.tenantId k (batch.map Invoice.id)).map (·, fields)) s')
      (fun _ _ => False)) (forEach (processInvoice p job policy fields) batch progress) s := by
  induction batch generalizing k entries s progress with
  | nil =>
    rw [List.map_nil, unheld, List.map_nil, List.append_nil]
    exact h
  | cons invoice rest ih =>
    have hid := hids invoice (List.mem_cons_self ..)
    refine meets_bind _ _ (meets_mono ?_ _ _ (processInvoice_shows h policy fields hid progress))
    intro s' r hr
    obtain ⟨progress', rfl, hnext⟩ := hr
    have hrest := ih (fun i hi => hids i (List.mem_cons_of_mem _ hi)) progress' hnext
    rw [List.map_cons, unheld_cons, List.map_append, ← List.append_assoc, List.length_cons,
      Nat.add_comm rest.length, ← Nat.add_assoc]
    exact hrest

/- The batch of the live run is that of the dry run, but for PII. -/
theorem eligibleInvoices_frame {db : Database} (h : Frame db₀ db) (tenantId : String)
    (retentionDays : JsNumber) (limit now : ℕ) {order : RowOrder Invoice} (horder : PiiBlind order) :
    (db.eligibleInvoices p tenantId retentionDays limit now order).map (List.map Invoice.erased) =
      (db₀.eligibleInvoices p tenantId retentionDays limit now order).map (List.map Invoice.erased) := by
  unfold Database.eligibleInvoices
  rw [h.holds]
  cases p.daysBefore now retentionDays with
  | none => rfl
  | some cutoff =>
    have hfilter : ∀ rows : List Invoice,
        (rows.filter (eligible db₀.holds tenantId cutoff now)).map Invoice.erased =
          (rows.map Invoice.erased).filter (eligible db₀.holds tenantId cutoff now) := by
      intro rows
      rw [List.filter_map]
      rfl
    have hsame := horder (db.invoices.filter (eligible db₀.holds tenantId cutoff now))
      (db₀.invoices.filter (eligible db₀.holds tenantId cutoff now))
      (by rw [hfilter, hfilter, h.invoices])
    simp only [Except.map, List.map_take, hsame]

theorem mem_invoices_of_eligible {tenantId : String} {retentionDays : JsNumber} {limit now : ℕ}
    {order : RowOrder Invoice} {batch : List Invoice}
    (h : db₀.eligibleInvoices p tenantId retentionDays limit now order = .ok batch) :
    ∀ i ∈ batch, i ∈ db₀.invoices := by
  unfold Database.eligibleInvoices at h
  split at h
  · cases h
  · cases h
    intro i hi
    exact (List.mem_filter.mp ((order.perm _).mem_iff.mp (List.mem_of_mem_take hi))).1

theorem ids_of_erased {rows rows' : List Invoice}
    (h : rows.map Invoice.erased = rows'.map Invoice.erased) :
    rows.map Invoice.id = rows'.map Invoice.id := by
  have hids := congrArg (List.map Invoice.id) h
  rwa [List.map_map, List.map_map] at hids

theorem length_of_erased {rows rows' : List Invoice}
    (h : rows.map Invoice.erased = rows'.map Invoice.erased) : rows.length = rows'.length := by
  have hlength := congrArg List.length h
  rwa [List.length_map, List.length_map] at hlength

variable {total : List Purged}

/- What has been come to, with what the rest of the policies leads to, is all there is. -/
def Ahead (p : Platform) (job : RetentionJob) (moments : ℕ → Moment) (db₀ : Database)
    (total : List Purged) (rest : List RetentionPolicy) (s : PurgeRun) : Prop :=
  ∃ k entries, Upto job db₀ k entries s ∧ entries ++ comesToFrom p job moments db₀ k rest = total

theorem processPolicy_shows (horder : ∀ k, PiiBlind (moments k).invoiceOrder) {policy : RetentionPolicy}
    {rest : List RetentionPolicy} (progress : Progress)
    (h : Ahead p job moments db₀ total (policy :: rest) s) :
    Shows p moments (either (fun s' _ => Ahead p job moments db₀ total rest s')
      (fun s' _ => ∃ k, Upto job db₀ k total s')) (processPolicy p job policy progress) s := by
  obtain ⟨k, entries, hupto, htotal⟩ := h
  rw [comesToFrom] at htotal
  refine meets_bind _ _ ?_
  rw [← fieldNames]
  cases hvalid : validatePiiFields p (fieldNames job policy) with
  | error e =>
    rw [hvalid, List.append_nil] at htotal
    exact ⟨k, htotal ▸ hupto⟩
  | ok fields =>
    rw [hvalid] at htotal
    change Shows p moments _ (await _ >>= _) s
    have hframe := eligibleInvoices_frame (p := p) hupto.frame job.tenantId (retentionDaysOf job policy)
      job.batchSize (moments k).now (horder k)
    refine meets_query_bind trivial ?_ ?_
    · intro batch s₁ h₁
      obtain ⟨env, db', hinvoices, -, hexecute, rfl⟩ := chosen_execute h₁ rfl
      rw [Database.execute, hinvoices, hupto.choices] at hexecute
      obtain ⟨hbatch, rfl⟩ := Prod.mk.inj hexecute
      rw [hbatch] at hframe
      cases hbatch₀ : db₀.eligibleInvoices p job.tenantId (retentionDaysOf job policy) job.batchSize
          (moments k).now (moments k).invoiceOrder with
      | error e =>
        rw [hbatch₀] at hframe
        cases hframe
      | ok batch₀ =>
        rw [hbatch₀] at hframe htotal
        have hsame : batch.map Invoice.erased = batch₀.map Invoice.erased := Except.ok.inj hframe
        have hchosen := @Upto.choose job db₀ k entries s hupto
          (.eligibleInvoices job.tenantId (retentionDaysOf job policy) job.batchSize) rfl (.ok batch)
        have hids : ∀ i ∈ batch, ∃ i₀ ∈ db₀.invoices, i₀.id = i.id := by
          intro i hi
          have hmem : i.erased ∈ batch₀.map Invoice.erased := hsame ▸ List.mem_map_of_mem hi
          obtain ⟨i₀, hi₀, heq⟩ := List.mem_map.mp hmem
          have hid : i₀.erased.id = i.erased.id := by rw [heq]
          exact ⟨i₀, mem_invoices_of_eligible hbatch₀ i₀ hi₀, hid⟩
        refine meets_mono ?_ _ _ (batch_shows policy fields batch hids _ hchosen)
        intro s' r hr
        cases r with
        | error e => cases hr
        | ok progress' =>
          refine ⟨_, _, hr, ?_⟩
          rw [← htotal, List.append_assoc, ids_of_erased hsame, length_of_erased hsame]
    · intro e s₁ h₁
      obtain ⟨env, db', hinvoices, -, hexecute, rfl⟩ := chosen_execute h₁ rfl
      rw [Database.execute, hinvoices, hupto.choices] at hexecute
      obtain ⟨hbatch, rfl⟩ := Prod.mk.inj hexecute
      rw [hbatch] at hframe
      cases hbatch₀ : db₀.eligibleInvoices p job.tenantId (retentionDaysOf job policy) job.batchSize
          (moments k).now (moments k).invoiceOrder with
      | ok batch₀ =>
        rw [hbatch₀] at hframe
        cases hframe
      | error e₀ =>
        rw [hbatch₀, List.append_nil] at htotal
        exact ⟨k + 1, htotal ▸ hupto.choose rfl _⟩

theorem applicablePolicies_shows (h : Upto job db₀ 0 [] s) :
    Shows p moments (either (fun s' policies => Upto job db₀ 1 [] s' ∧ policies = policiesOf job moments db₀)
      (fun s' _ => Upto job db₀ 1 [] s' ∧ policiesOf job moments db₀ = [])) (applicablePolicies job) s := by
  unfold applicablePolicies policiesOf
  cases job.policyId with
  | none =>
    refine ⟨trivial, fun r s' h₁ => ?_⟩
    obtain ⟨env, db', -, hpolicies, hexecute, rfl⟩ := chosen_execute h₁ rfl
    rw [Database.execute, hpolicies, h.choices, h.frame.policies] at hexecute
    cases hexecute
    exact ⟨h.choose rfl _, rfl⟩
  | some policyId =>
    refine meets_query_bind trivial ?_ ?_
    · intro found s' h₁
      obtain ⟨env, db', -, -, hexecute, rfl⟩ := chosen_execute h₁ rfl
      rw [Database.execute, h.frame.policies] at hexecute
      obtain ⟨hfound, rfl⟩ := Prod.mk.inj hexecute
      have hpolicies := congrArg Option.toList (Except.ok.inj hfound)
      cases found with
      | none => exact ⟨h.choose rfl _, hpolicies⟩
      | some policy => exact ⟨h.choose rfl _, hpolicies.symm⟩
    · intro e s' h₁
      obtain ⟨env, db', -, -, hexecute, rfl⟩ := chosen_execute h₁ rfl
      cases hexecute

theorem runPolicies_shows (horder : ∀ k, PiiBlind (moments k).invoiceOrder) (executionId : String)
    (h : Upto job db₀ 0 [] s) :
    Shows p moments (fun s' _ => ∃ k, Upto job db₀ k (comesTo p job moments db₀) s')
      (runPolicies p job executionId) s := by
  refine meets_bind _ _ (meets_mono ?_ _ _ (applicablePolicies_shows h))
  intro s₁ r hr
  cases r with
  | error e =>
    obtain ⟨hupto, hnone⟩ := hr
    refine ⟨1, ?_⟩
    rw [comesTo, hnone, comesToFrom]
    exact hupto
  | ok policies =>
    obtain ⟨hupto, rfl⟩ := hr
    simp only [either]
    split
    · next hnone =>
      refine ⟨1, ?_⟩
      rw [comesTo, hnone, comesToFrom]
      exact hupto
    · refine meets_bind _ _ (meets_mono ?_ _ _ (meets_forEach
        (fun rest s _ => Ahead p job moments db₀ (comesTo p job moments db₀) rest s)
        (fun s _ => ∃ k, Upto job db₀ k (comesTo p job moments db₀) s) ?_ _ _ _ ⟨1, [], hupto, rfl⟩))
      · intro s₂ r hr
        cases r with
        | error e => exact hr
        | ok progress =>
          obtain ⟨k, entries, hupto', htotal⟩ := hr
          rw [comesToFrom, List.append_nil] at htotal
          subst htotal
          exact ⟨trivial, fun r s' h' => ⟨k, hupto'.record rfl h'⟩⟩
      · intro policy rest progress s₂ hahead
        exact processPolicy_shows horder progress hahead

/-- Every run of the job comes to `comesTo`. -/
theorem retentionPurge_shows (horder : ∀ k, PiiBlind (moments k).invoiceOrder)
    (h : Upto job db₀ 0 [] s) :
    Shows p moments (fun s' _ => ∃ k, Upto job db₀ k (comesTo p job moments db₀) s')
      (retentionPurge p job) s := by
  unfold retentionPurge
  refine meets_query trivial fun r s₁ h₁ => ?_
  have hupto := h.record rfl h₁
  obtain ⟨now, env, db', hfailure, hfresh, -, hanswer, -⟩ := h₁
  have hnew : (s.db.executions.any fun e => decide (e.id = env.id)) = false := by
    rw [List.any_eq_false]
    intro row hrow
    simpa using hfresh row hrow
  simp only [Database.answer, hfailure, Database.execute, Database.insertExecution, hnew] at hanswer
  cases hanswer
  refine meets_attempt _ _ (meets_mono ?_ _ _ (runPolicies_shows horder env.id hupto))
  intro s₂ r hr
  obtain ⟨k, hupto'⟩ := hr
  cases r with
  | ok _ => exact ⟨k, hupto'⟩
  | error e =>
    refine meets_query_bind trivial ?_ ?_
    · intro _ s' h'
      exact ⟨k, hupto'.record rfl h'⟩
    · intro _ s' h'
      exact ⟨k, hupto'.record rfl h'⟩

end Loops

/-! ### The two runs -/

def RetentionJob.inMode (job : RetentionJob) (dryRun : Bool) : RetentionJob :=
  { job with dryRun := dryRun }

section Modes
variable {p : Platform} {job : RetentionJob} {moments : ℕ → Moment} {db : Database} {s : PurgeRun}
  {r : Except String Unit}

theorem comesToFrom_inMode (dryRun : Bool) (k : ℕ) (policies : List RetentionPolicy) :
    comesToFrom p (job.inMode dryRun) moments db k policies = comesToFrom p job moments db k policies := by
  induction policies generalizing k with
  | nil => rfl
  | cons policy rest ih =>
    simp only [comesToFrom, ih]
    rfl

theorem comesTo_inMode (dryRun : Bool) :
    comesTo p (job.inMode dryRun) moments db = comesTo p job moments db :=
  comesToFrom_inMode dryRun 1 _

theorem dry_run_reports (horder : ∀ k, PiiBlind (moments k).invoiceOrder)
    (hrun : Runs (Chosen p moments) (retentionPurge p (job.inMode true)) (.start db) r s) :
    s.db.invoices = db.invoices ∧ s.reported = comesTo p job moments db := by
  obtain ⟨k, h⟩ := Interaction.post_of_runs hrun (retentionPurge_shows horder (upto_start _ db))
  have hmode : (job.inMode true).dryRun = true := rfl
  have hreported := h.reported
  rw [if_pos hmode, comesTo_inMode] at hreported
  exact ⟨h.untouched hmode, hreported⟩

theorem live_run_purges (horder : ∀ k, PiiBlind (moments k).invoiceOrder)
    (hrun : Runs (Chosen p moments) (retentionPurge p (job.inMode false)) (.start db) r s) :
    s.purged = (comesTo p job moments db).filter purgeable := by
  obtain ⟨k, h⟩ := Interaction.post_of_runs hrun (retentionPurge_shows horder (upto_start _ db))
  have hpurged := h.purged
  rw [comesTo_inMode] at hpurged
  exact hpurged

theorem chosen_total (p : Platform) (moments : ℕ → Moment) (s : PurgeRun) (q : Query) :
    ∃ r s', Chosen p moments s q r s' := by
  obtain ⟨id, hid⟩ := Infinite.exists_notMem_finset (s.db.executions.map JobExecution.id).toFinset
  have hfresh : ∀ row ∈ s.db.executions, row.id ≠ id := by
    intro row hrow heq
    exact hid (List.mem_toFinset.mpr (heq ▸ List.mem_map_of_mem hrow))
  exact ⟨_, _, (moments s.choices).now,
    ⟨none, (moments s.choices).invoiceOrder, (moments s.choices).policyOrder, id⟩, _, rfl, hfresh,
    fun _ => ⟨rfl, rfl, rfl⟩, rfl, rfl⟩

/- A run of the job is possible in either mode. -/
theorem exists_purge_run (p : Platform) (job : RetentionJob) (moments : ℕ → Moment) (db : Database) :
    ∃ r s, Runs (Chosen p moments) (retentionPurge p job) (.start db) r s :=
  Interaction.exists_runs (chosen_total p moments) _ _

end Modes

/-- For every database, job and choice of rows: a dry run leaves the invoices as they are and
reports exactly what a live run purges, if and only if each invoice that a run comes to has
fields to be purged and `customer_name` is not among them. -/
theorem dry_run_predicts_iff (p : Platform) (job : RetentionJob) (db : Database) (moments : ℕ → Moment)
    (horder : ∀ k, PiiBlind (moments k).invoiceOrder) {dry live : PurgeRun}
    {dryResult liveResult : Except String Unit}
    (hdry : Runs (Chosen p moments) (retentionPurge p (job.inMode true)) (.start db) dryResult dry)
    (hlive : Runs (Chosen p moments) (retentionPurge p (job.inMode false)) (.start db) liveResult live) :
    (dry.db.invoices = db.invoices ∧ ∀ x, x ∈ dry.reported ↔ x ∈ live.purged) ↔
      ∀ x ∈ comesTo p job moments db, x.2 ≠ [] ∧ .customerName ∉ x.2 := by
  obtain ⟨hinvoices, hreported⟩ := dry_run_reports horder hdry
  rw [hreported, live_run_purges horder hlive]
  constructor
  · rintro ⟨-, hsame⟩ x hx
    exact of_decide_eq_true (List.mem_filter.mp ((hsame x).mp hx)).2
  · intro hall
    refine ⟨hinvoices, fun x => ⟨fun hx => ?_, fun hx => (List.mem_filter.mp hx).1⟩⟩
    exact List.mem_filter.mpr ⟨hx, decide_eq_true (hall x hx)⟩

/- Everything at one time, rows in the order of the tables. -/
def sampleMoments (_ : ℕ) : Moment :=
  ⟨10000000000, ⟨fun rows => rows, fun _ => .refl _⟩, ⟨fun rows => rows, fun _ => .refl _⟩⟩

theorem sampleMoments_blind (k : ℕ) : PiiBlind (sampleMoments k).invoiceOrder := fun _ _ h => h

theorem dry_run_predicts_sample :
    comesTo samplePlatform (sampleJob true) sampleMoments (backlogDatabase ["a@acme.example"]) =
      [("a@acme.example", [.customerEmail])] ∧
    ∃ r r' dry live,
      Runs (Chosen samplePlatform sampleMoments) (retentionPurge samplePlatform ((sampleJob true).inMode true))
        (.start (backlogDatabase ["a@acme.example"])) r dry ∧
      Runs (Chosen samplePlatform sampleMoments) (retentionPurge samplePlatform ((sampleJob true).inMode false))
        (.start (backlogDatabase ["a@acme.example"])) r' live ∧
      dry.db.invoices = (backlogDatabase ["a@acme.example"]).invoices ∧
        ∀ x, x ∈ dry.reported ↔ x ∈ live.purged := by
  have hcomes : comesTo samplePlatform (sampleJob true) sampleMoments (backlogDatabase ["a@acme.example"]) =
      [("a@acme.example", [.customerEmail])] := by
    decide
  obtain ⟨r, dry, hdry⟩ := exists_purge_run samplePlatform ((sampleJob true).inMode true) sampleMoments
    (backlogDatabase ["a@acme.example"])
  obtain ⟨r', live, hlive⟩ := exists_purge_run samplePlatform ((sampleJob true).inMode false) sampleMoments
    (backlogDatabase ["a@acme.example"])
  refine ⟨hcomes, r, r', dry, live, hdry, hlive, ?_⟩
  refine (dry_run_predicts_iff samplePlatform (sampleJob true) (backlogDatabase ["a@acme.example"])
    sampleMoments sampleMoments_blind hdry hlive).mpr ?_
  rw [hcomes]
  decide

/- The default fields of a policy: the dry run reports what the table refuses. -/
theorem default_policy_mispredicted : ¬ ∀ (p : Platform) (job : RetentionJob) (db : Database)
    (moments : ℕ → Moment) (dry live : PurgeRun) (r r' : Except String Unit),
    (∀ k, PiiBlind (moments k).invoiceOrder) →
    Runs (Chosen p moments) (retentionPurge p (job.inMode true)) (.start db) r dry →
    Runs (Chosen p moments) (retentionPurge p (job.inMode false)) (.start db) r' live →
      dry.db.invoices = db.invoices ∧ ∀ x, x ∈ dry.reported ↔ x ∈ live.purged := by
  intro h
  obtain ⟨r, dry, hdry⟩ := exists_purge_run samplePlatform ((sampleJob true).inMode true) sampleMoments
    (sampleDatabase ["customer_name", "customer_email", "customer_tax_id"]
      [sampleInvoice "inv-1" (some "a@acme.example")])
  obtain ⟨r', live, hlive⟩ := exists_purge_run samplePlatform ((sampleJob true).inMode false) sampleMoments
    (sampleDatabase ["customer_name", "customer_email", "customer_tax_id"]
      [sampleInvoice "inv-1" (some "a@acme.example")])
  obtain ⟨-, hsame⟩ := h _ _ _ _ _ _ _ _ sampleMoments_blind hdry hlive
  have hcomes : comesTo samplePlatform (sampleJob true) sampleMoments
      (sampleDatabase ["customer_name", "customer_email", "customer_tax_id"]
        [sampleInvoice "inv-1" (some "a@acme.example")]) =
      [("inv-1", [.customerName, .customerEmail, .customerTaxId])] := by
    decide
  rw [(dry_run_reports sampleMoments_blind hdry).2, live_run_purges sampleMoments_blind hlive, hcomes] at hsame
  have hpurged := (hsame _).mp (List.mem_singleton_self _)
  exact absurd hpurged (by decide)

end Liquifact.Retention
