import Mathlib.Data.Fintype.EquivFin
import Liquifact.Retention.HoldChecks

/-!
# Successive purge runs

Live runs of a job for one policy, one after the other, with nothing else going on: every
statement is executed at one of `times` and fails only where the schema refuses it, and the
same invoices are eligible all the time. The eligibility query does not ask whether an invoice
was purged before, so a `LIMIT` may take the same rows in every run; and a policy that names
`customer_name` can update no row at all, since the column is `NOT NULL`.
-/

namespace Liquifact.Retention
open Liquifact.Lib
open Interaction (Meets Runs either meets_attempt meets_bind meets_mono meets_query meets_query_bind
  meets_forEach forEach)

section Definitions
variable (p : Platform) (job : RetentionJob) (policy : RetentionPolicy) (times : ℕ → Prop)
  (orders : RowOrder Invoice → Prop)

def Answered (db : Database) (q : Query) (r : Except String q.Response) (db' : Database) : Prop :=
  ∃ now env, times now ∧ orders env.invoiceOrder ∧ env.failure = none ∧
    (∀ row ∈ db.executions, row.id ≠ env.id) ∧ db.answer p now env q = (r, db')

inductive Successive : ℕ → Database → Database → Prop where
  | start (db : Database) : Successive 0 db db
  | run {n : ℕ} {db db' db'' : Database} {r : Except String Unit} (h : Successive n db db')
      (hrun : Runs (Answered p times orders) (retentionPurge p job) db' r db'') :
      Successive (n + 1) db db''

def isEligible (holds : List LegalHold) (now : ℕ) (i : Invoice) : Bool :=
  match p.daysBefore now (retentionDaysOf job policy) with
  | none => false
  | some cutoff => eligible holds job.tenantId cutoff now i

def backlog (db : Database) (now : ℕ) : List Invoice :=
  db.invoices.filter (isEligible p job policy db.holds now)

def fieldNames : List String := job.piiFields.getD policy.piiFields

/- The PII columns that the policy names. -/
def namedFields : List PiiField := (fieldNames job policy).filterMap piiFieldOf

/-- No eligible invoice has a value left in a PII column that the policy names. -/
def Finished (db : Database) : Prop :=
  ∀ now, times now → ∀ i ∈ backlog p job policy db now, ∀ field ∈ namedFields job policy,
    i.pii field = none

/- The policy is the one that the job is run for. -/
def Applies (db : Database) : Prop :=
  match job.policyId with
  | some policyId => db.policies.find? (fun policy' =>
      decide (policy'.id = policyId) && Database.active job.tenantId policy') = some policy
  | none => db.policies.filter (Database.active job.tenantId) = [policy]

/- Nothing becomes eligible, or stops being so, while the runs go on. -/
def Steady (db : Database) : Prop :=
  ∀ t t', times t → times t' → ∀ i ∈ db.invoices,
    isEligible p job policy db.holds t i = isEligible p job policy db.holds t' i

end Definitions

section Statements
variable {p : Platform} {times : ℕ → Prop} {orders : RowOrder Invoice → Prop} {db db' : Database}

theorem answered_execute {q : Query} {r : Except String q.Response}
    (h : Answered p times orders db q r db') :
    ∃ now env, times now ∧ orders env.invoiceOrder ∧ (∀ row ∈ db.executions, row.id ≠ env.id) ∧
      db.execute p now env q = (r, db') := by
  obtain ⟨now, env, hnow, horder, hfailure, hfresh, hanswer⟩ := h
  simp only [Database.answer, hfailure] at hanswer
  exact ⟨now, env, hnow, horder, hfresh, hanswer⟩

/- The tables that decide about invoices. -/
structure SameTables (db db' : Database) : Prop where
  invoices : db'.invoices = db.invoices
  holds : db'.holds = db.holds
  policies : db'.policies = db.policies

theorem SameTables.refl (db : Database) : SameTables db db := ⟨rfl, rfl, rfl⟩

theorem sameTables_of_effect {q : Query} (h : Database.Effect db q db')
    (hq : ∀ invoiceId fields, q ≠ .updatePii invoiceId fields) : SameTables db db' := by
  cases h with
  | updatePii invoiceId fields rows => exact absurd rfl (hq invoiceId fields)
  | _ => exact ⟨rfl, rfl, rfl⟩

theorem sameTables_of_answered {q : Query} {r : Except String q.Response}
    (h : Answered p times orders db q r db')
    (hq : ∀ invoiceId fields, q ≠ .updatePii invoiceId fields) : SameTables db db' := by
  obtain ⟨now, env, -, -, -, -, hanswer⟩ := h
  have heffect := Database.answer_effect p now env db q
  rw [hanswer] at heffect
  exact sameTables_of_effect heffect hq

end Statements

section Runs
variable {p : Platform} {job : RetentionJob} {policy : RetentionPolicy} {times : ℕ → Prop}
  {orders : RowOrder Invoice → Prop}

abbrev Leads {α : Type} (p : Platform) (times : ℕ → Prop) (orders : RowOrder Invoice → Prop)
    (post : Database → Except String α → Prop) (program : Job α) (db : Database) : Prop :=
  program.Meets (fun _ _ => True) (Answered p times orders) post db

/- The invoices are as the `UPDATE` of one of them leaves them. -/
structure Updated (invoiceId : String) (fields : List PiiField) (db db' : Database) : Prop where
  invoices : db'.invoices = (db.updatePii invoiceId fields).2.invoices
  holds : db'.holds = db.holds
  policies : db'.policies = db.policies

theorem Updated.trans_same {invoiceId : String} {fields : List PiiField} {db db' db'' : Database}
    (h : Updated invoiceId fields db db') (h' : SameTables db' db'') :
    Updated invoiceId fields db db'' :=
  ⟨h'.invoices.trans h.invoices, h'.holds.trans h.holds, h'.policies.trans h.policies⟩

theorem updated_of_answered {invoiceId : String} {fields : List PiiField} {db db' : Database}
    {r : Except String ℕ} (h : Answered p times orders db (.updatePii invoiceId fields) r db') :
    Updated invoiceId fields db db' := by
  obtain ⟨now, env, -, -, hfailure, -, hanswer⟩ := h
  have heffect := Database.answer_effect p now env db (.updatePii invoiceId fields)
  rw [hanswer] at heffect
  refine ⟨?_, heffect.holds, heffect.policies⟩
  have hdb : (db.updatePii invoiceId fields).2 = db' := by
    simpa [Database.answer, hfailure, Database.execute] using congrArg Prod.snd hanswer
  rw [hdb]

theorem purgeInvoicePii_leads (invoiceId : String) (fields : List PiiField) (db : Database) :
    Leads p times orders (fun db' _ => Updated invoiceId fields db db')
      (purgeInvoicePii p invoiceId fields false) db := by
  unfold purgeInvoicePii
  rw [if_neg (by simp)]
  refine meets_query_bind trivial ?_ ?_
  · intro current db₁ h₁
    obtain ⟨now, env, -, -, -, hexecute⟩ := answered_execute h₁
    cases hexecute
    refine meets_query_bind trivial ?_ fun e db' h => updated_of_answered h
    intro affected db' h
    split
    · exact updated_of_answered h
    · exact updated_of_answered h
  · intro e db₁ h₁
    obtain ⟨now, env, -, -, -, hexecute⟩ := answered_execute h₁
    cases hexecute

/- An invoice is updated unless it is held at the time of its check. -/
def InvoiceDone (job : RetentionJob) (times : ℕ → Prop) (invoiceId : String) (fields : List PiiField)
    (db db' : Database) : Prop :=
  Updated invoiceId fields db db' ∨
    (SameTables db db' ∧ ∃ now, times now ∧ isHeld db.holds job.tenantId invoiceId now = true)

theorem processInvoice_leads (hlive : job.dryRun = false) (fields : List PiiField) (invoice : Invoice)
    (progress : Progress) (db : Database) :
    Leads p times orders
      (fun db' r => ∃ progress', r = .ok progress' ∧ InvoiceDone job times invoice.id fields db db')
      (processInvoice p job policy fields invoice progress) db := by
  unfold processInvoice
  refine meets_query trivial fun r db₁ h₁ => ?_
  obtain ⟨now, env, hnow, -, -, hexecute⟩ := answered_execute h₁
  cases hexecute
  cases hheld : isHeld db.holds job.tenantId invoice.id now with
  | true => exact ⟨progress, rfl, .inr ⟨.refl db, now, hnow, hheld⟩⟩
  | false =>
    rw [hlive]
    refine meets_attempt _ _ (meets_mono ?_ _ _ (purgeInvoicePii_leads invoice.id fields db))
    intro db₂ r h₂
    cases r with
    | error e => exact ⟨_, rfl, .inl h₂⟩
    | ok result =>
      simp only
      split
      · refine meets_query trivial fun r db₃ h₃ => ?_
        have hdone := h₂.trans_same (sameTables_of_answered h₃ (by simp))
        cases r with
        | error e => exact ⟨_, rfl, .inl hdone⟩
        | ok _ => exact ⟨_, rfl, .inl hdone⟩
      · exact ⟨_, rfl, .inl h₂⟩

theorem applicablePolicies_leads {db : Database} (happlies : Applies job policy db) :
    Leads p times orders (fun db' r => r = .ok [policy] ∧ db' = db) (applicablePolicies job) db := by
  unfold Applies at happlies
  unfold applicablePolicies
  cases hid : job.policyId with
  | none =>
    rw [hid] at happlies
    refine ⟨trivial, fun r db' h => ?_⟩
    obtain ⟨now, env, -, -, -, hexecute⟩ := answered_execute h
    cases hexecute
    simp only at happlies
    rw [happlies]
    refine ⟨?_, rfl⟩
    rw [List.perm_singleton.mp (env.policyOrder.perm [policy])]
  | some policyId =>
    rw [hid] at happlies
    refine meets_query_bind trivial ?_ ?_
    · intro found db' h
      obtain ⟨now, env, -, -, -, hexecute⟩ := answered_execute h
      simp only [Database.execute] at hexecute
      simp only at happlies
      rw [happlies] at hexecute
      cases hexecute
      exact ⟨rfl, rfl⟩
    · intro e db' h
      obtain ⟨now, env, -, -, -, hexecute⟩ := answered_execute h
      cases hexecute

theorem Applies.of_same {db db' : Database} (h : Applies job policy db) (hsame : SameTables db db') :
    Applies job policy db' := by
  unfold Applies at h ⊢
  rw [hsame.policies]
  exact h

/- The primary key of the execution row is a new one. -/
theorem insertExecution_answered {db db' : Database} {r : Except String String}
    (h : Answered p times orders db (.insertExecution job) r db') : ∃ executionId, r = .ok executionId := by
  obtain ⟨now, env, -, -, hfresh, hexecute⟩ := answered_execute h
  have hnew : (db.executions.any fun e => decide (e.id = env.id)) = false := by
    rw [List.any_eq_false]
    intro row hrow
    simpa using hfresh row hrow
  simp only [Database.execute, Database.insertExecution, hnew] at hexecute
  cases hexecute
  exact ⟨env.id, rfl⟩

section Handler
variable {K : Database → Prop} (hK : ∀ db db', SameTables db db' → K db → K db')

include hK in
theorem concluded_leads (executionId : String) (r : Except String Unit) {db : Database} (h : K db) :
    Leads p times orders (fun db' _ => K db') (concluded executionId r) db := by
  cases r with
  | ok _ => exact h
  | error e =>
    refine meets_query_bind trivial ?_ ?_
    · intro _ db' h'
      exact hK db db' (sameTables_of_answered h' (by simp)) h
    · intro _ db' h'
      exact hK db db' (sameTables_of_answered h' (by simp)) h

variable {db : Database} (hpolicy : ∀ progress db₁, SameTables db db₁ →
  Leads p times orders (fun db' _ => K db') (processPolicy p job policy progress) db₁)

include hpolicy in
theorem policies_leads {db₁ : Database} (hsame : SameTables db db₁) :
    Leads p times orders (fun db' _ => K db')
      (forEach (processPolicy p job) [policy] ⟨0, 0, [], []⟩) db₁ := by
  refine meets_bind _ _ (meets_mono ?_ _ _ (hpolicy _ db₁ hsame))
  intro db' r h
  cases r with
  | ok progress => exact h
  | error e => exact h

include hK hpolicy

theorem runPolicies_leads (happlies : Applies job policy db) (executionId : String)
    {db₁ : Database} (hsame : SameTables db db₁) :
    Leads p times orders (fun db' _ => K db') (runPolicies p job executionId) db₁ := by
  refine meets_bind _ _ (meets_mono ?_ _ _ (applicablePolicies_leads (happlies.of_same hsame)))
  intro db₂ r h
  obtain ⟨rfl, rfl⟩ := h
  simp only [either]
  rw [if_neg (by simp)]
  refine meets_bind _ _ (meets_mono ?_ _ _ (policies_leads hpolicy hsame))
  intro db' r h
  cases r with
  | error e => exact h
  | ok progress =>
    exact ⟨trivial, fun r db'' h' => hK db' db'' (sameTables_of_answered h' (by simp)) h⟩

/- What a run does to the invoices, it does while it processes its policy. -/
theorem retentionPurge_leads (happlies : Applies job policy db) :
    Leads p times orders (fun db' _ => K db') (retentionPurge p job) db := by
  unfold retentionPurge
  refine meets_query trivial fun r db₁ h₁ => ?_
  have hsame := sameTables_of_answered h₁ (by simp)
  obtain ⟨executionId, rfl⟩ := insertExecution_answered h₁
  refine meets_attempt _ _ (meets_mono ?_ _ _ (runPolicies_leads hK hpolicy happlies executionId hsame))
  intro db' r h
  exact concluded_leads hK executionId r h

end Handler

/- The eligibility query gives the first invoices of the backlog, in some order. -/
def FirstOf (p : Platform) (job : RetentionJob) (policy : RetentionPolicy) (times : ℕ → Prop)
    (orders : RowOrder Invoice → Prop) (db : Database) (batch : List Invoice) : Prop :=
  ∃ now order, times now ∧ orders order ∧
    batch = (order.arrange (backlog p job policy db now)).take job.batchSize

theorem eligibleInvoices_answered {db db' : Database} {r : Except String (List Invoice)}
    (h : Answered p times orders db
      (.eligibleInvoices job.tenantId (retentionDaysOf job policy) job.batchSize) r db') :
    db' = db ∧ match r with
      | .ok batch => FirstOf p job policy times orders db batch
      | .error _ => ∃ now, times now ∧ backlog p job policy db now = [] := by
  obtain ⟨now, env, hnow, horder, -, hexecute⟩ := answered_execute h
  simp only [Database.execute, Database.eligibleInvoices] at hexecute
  cases hcutoff : p.daysBefore now (retentionDaysOf job policy) with
  | none =>
    rw [hcutoff] at hexecute
    cases hexecute
    refine ⟨rfl, now, hnow, ?_⟩
    simp [backlog, isEligible, hcutoff]
  | some cutoff =>
    rw [hcutoff] at hexecute
    cases hexecute
    have hpredicate : isEligible p job policy db.holds now =
        eligible db.holds job.tenantId cutoff now := by
      funext i
      simp only [isEligible, hcutoff]
    refine ⟨rfl, now, env.invoiceOrder, hnow, horder, ?_⟩
    rw [backlog, hpredicate]

/- `K` is about the invoices of the batch that are still to come. -/
theorem processPolicy_leads (hlive : job.dryRun = false) {K : List Invoice → Database → Prop}
    {db : Database} (progress : Progress)
    (hrefused : (∃ e, validatePiiFields p (fieldNames job policy) = .error e) ∨
      (∃ now, times now ∧ backlog p job policy db now = []) → K [] db)
    (hbatch : ∀ fields batch, validatePiiFields p (fieldNames job policy) = .ok fields →
      FirstOf p job policy times orders db batch → K batch db)
    (hinvoice : ∀ fields, validatePiiFields p (fieldNames job policy) = .ok fields →
      ∀ invoice rest db₁ db₂, K (invoice :: rest) db₁ →
        InvoiceDone job times invoice.id fields db₁ db₂ → K rest db₂) :
    Leads p times orders (fun db' _ => K [] db') (processPolicy p job policy progress) db := by
  refine meets_bind _ _ ?_
  cases hvalid : validatePiiFields p (fieldNames job policy) with
  | error e =>
    unfold fieldNames at hvalid
    rw [hvalid]
    exact hrefused (.inl ⟨e, by unfold fieldNames; exact hvalid⟩)
  | ok fields =>
    have hfields := hvalid
    unfold fieldNames at hvalid
    rw [hvalid]
    change Leads p times orders _ (await _ >>= _) db
    refine meets_query_bind trivial ?_ ?_
    · intro batch db₁ h₁
      obtain ⟨rfl, hfirst⟩ := eligibleInvoices_answered h₁
      refine meets_mono ?_ _ _ (meets_forEach (fun rest db' _ => K rest db') (fun _ _ => False) ?_ batch
        _ _ (hbatch fields batch hfields hfirst))
      · intro db' r h
        cases r with
        | ok progress => exact h
        | error e => cases h
      · intro invoice rest progress db₁ hK
        refine meets_mono ?_ _ _ (processInvoice_leads hlive fields invoice progress db₁)
        intro db₂ r h
        obtain ⟨progress', rfl, hdone⟩ := h
        exact hinvoice fields hfields invoice rest db₁ db₂ hK hdone
    · intro e db₁ h₁
      obtain ⟨rfl, hempty⟩ := eligibleInvoices_answered h₁
      exact hrefused (.inr hempty)

end Runs

section Invoices
variable {p : Platform} {job : RetentionJob} {policy : RetentionPolicy} {times : ℕ → Prop}
  {orders : RowOrder Invoice → Prop}

/- An invoice without its PII. -/
def Invoice.erased (i : Invoice) : Invoice :=
  { i with customerName := "", customerEmail := none, customerTaxId := none }

theorem updatePii_invoices (db : Database) (invoiceId : String) (fields : List PiiField) :
    (db.updatePii invoiceId fields).2.invoices = db.invoices ∨
      ((.customerName ∈ fields → ∀ i ∈ db.invoices, i.id ≠ invoiceId) ∧
        (db.updatePii invoiceId fields).2.invoices =
          updateWhere (hasId invoiceId) (piiNull fields) db.invoices) := by
  unfold Database.updatePii
  split
  · exact .inl rfl
  · split
    · exact .inl rfl
    · rename_i hnull
      refine .inr ⟨?_, rfl⟩
      intro hname i hi hid
      exact hnull ⟨List.any_eq_true.mpr ⟨i, hi, decide_eq_true hid⟩, hname⟩

theorem pii_piiNull_of_mem {fields : List PiiField} {field : PiiField} (i : Invoice)
    (hfield : field ∈ fields) (hname : .customerName ∉ fields) : (piiNull fields i).pii field = none := by
  cases field with
  | customerName => exact absurd hfield hname
  | customerEmail => exact if_pos hfield
  | customerTaxId => exact if_pos hfield

theorem pii_piiNull_of_none (fields : List PiiField) {field : PiiField} {i : Invoice}
    (h : i.pii field = none) : (piiNull fields i).pii field = none := by
  cases field with
  | customerName => cases h
  | customerEmail =>
    simp only [piiNull, Invoice.pii] at h ⊢
    rw [h, ite_self]
  | customerTaxId =>
    simp only [piiNull, Invoice.pii] at h ⊢
    rw [h, ite_self]

theorem map_erased_updateWhere (q : Invoice → Bool) (fields : List PiiField) (rows : List Invoice) :
    (updateWhere q (piiNull fields) rows).map Invoice.erased = rows.map Invoice.erased := by
  unfold updateWhere
  rw [List.map_map]
  refine List.map_congr_left fun i _ => ?_
  rw [Function.comp_apply]
  split
  · rfl
  · rfl

theorem mapM_some_filterMap {names : List String} {fields : List PiiField}
    (h : names.mapM piiFieldOf = some fields) : names.filterMap piiFieldOf = fields := by
  induction names generalizing fields with
  | nil =>
    cases h
    rfl
  | cons name names ih =>
    rw [List.mapM_cons] at h
    cases hname : piiFieldOf name with
    | none =>
      rw [hname] at h
      cases h
    | some field =>
      cases hrest : names.mapM piiFieldOf with
      | none =>
        rw [hname, hrest] at h
        cases h
      | some rest =>
        rw [hname, hrest] at h
        cases h
        rw [List.filterMap_cons_some hname, ih hrest]

theorem namedFields_of_valid {fields : List PiiField}
    (h : validatePiiFields p (fieldNames job policy) = .ok fields) : namedFields job policy = fields := by
  unfold validatePiiFields at h
  split at h
  · rename_i fields' hmapM
    cases h
    exact mapM_some_filterMap hmapM
  · cases h

/- The two checks for holds agree on an eligible invoice. -/
theorem not_held_of_eligible {holds : List LegalHold} {now : ℕ} {i : Invoice}
    (h : isEligible p job policy holds now i = true) :
    isHeld holds job.tenantId i.id now = false := by
  unfold isEligible at h
  split at h
  · cases h
  · simp only [eligible, Bool.and_eq_true] at h
    exact isHeld_eq_false_iff.mpr (notIn_heldIds_iff.mp h.2).2

end Invoices

/- What the runs never change. -/
structure Frame (db₀ db : Database) : Prop where
  invoices : db.invoices.map Invoice.erased = db₀.invoices.map Invoice.erased
  holds : db.holds = db₀.holds
  policies : db.policies = db₀.policies

section Frames
variable {p : Platform} {job : RetentionJob} {policy : RetentionPolicy} {times : ℕ → Prop}
  {db₀ db db' : Database}

theorem Frame.refl (db : Database) : Frame db db := ⟨rfl, rfl, rfl⟩

theorem Frame.of_same (h : Frame db₀ db) (hsame : SameTables db db') : Frame db₀ db' := by
  refine ⟨?_, hsame.holds.trans h.holds, hsame.policies.trans h.policies⟩
  rw [hsame.invoices]
  exact h.invoices

theorem Frame.of_done {invoiceId : String} {fields : List PiiField} (h : Frame db₀ db)
    (hdone : InvoiceDone job times invoiceId fields db db') : Frame db₀ db' := by
  rcases hdone with hupdated | ⟨hsame, -⟩
  · refine ⟨?_, hupdated.holds.trans h.holds, hupdated.policies.trans h.policies⟩
    rw [hupdated.invoices]
    rcases updatePii_invoices db invoiceId fields with heq | ⟨-, heq⟩
    · rw [heq]
      exact h.invoices
    · rw [heq, map_erased_updateWhere]
      exact h.invoices
  · exact h.of_same hsame

theorem Frame.applies (h : Frame db₀ db) (happlies : Applies job policy db₀) : Applies job policy db := by
  unfold Applies at happlies ⊢
  rw [h.policies]
  exact happlies

/- Eligibility is not about PII. -/
theorem isEligible_erased (holds : List LegalHold) (now : ℕ) (i : Invoice) :
    isEligible p job policy holds now i.erased = isEligible p job policy holds now i := rfl

theorem Frame.mem (h : Frame db₀ db) {i : Invoice} (hi : i ∈ db.invoices) :
    ∃ i₀ ∈ db₀.invoices, i₀.erased = i.erased := by
  have hmem : i.erased ∈ db₀.invoices.map Invoice.erased := by
    rw [← h.invoices]
    exact List.mem_map_of_mem hi
  exact List.mem_map.mp hmem

theorem Frame.steady (h : Frame db₀ db) (hsteady : Steady p job policy times db₀) :
    Steady p job policy times db := by
  intro t t' ht ht' i hi
  obtain ⟨i₀, hi₀, heq⟩ := h.mem hi
  have hsame := hsteady t t' ht ht' i₀ hi₀
  rw [← isEligible_erased, heq, ← isEligible_erased _ t', heq] at hsame
  rw [h.holds]
  exact hsame

theorem length_filter_erased (q : Invoice → Bool) (hq : ∀ i, q i.erased = q i) (rows : List Invoice) :
    (rows.filter q).length = ((rows.map Invoice.erased).filter q).length := by
  rw [List.filter_map, List.length_map]
  congr 2
  funext i
  exact (hq i).symm

theorem Frame.length_backlog (h : Frame db₀ db) (now : ℕ) :
    (backlog p job policy db now).length = (backlog p job policy db₀ now).length := by
  unfold backlog
  rw [h.holds, length_filter_erased _ (isEligible_erased _ now), h.invoices,
    ← length_filter_erased _ (isEligible_erased _ now)]

theorem Frame.nodup (h : Frame db₀ db) (hkeys : (db₀.invoices.map Invoice.id).Nodup) :
    (db.invoices.map Invoice.id).Nodup := by
  have hids : ∀ rows : List Invoice, rows.map Invoice.id = (rows.map Invoice.erased).map Invoice.id := by
    intro rows
    rw [List.map_map]
    rfl
  rw [hids, h.invoices, ← hids]
  exact hkeys

theorem mem_backlog_of_steady (hsteady : Steady p job policy times db) {t t' : ℕ} (ht : times t)
    (ht' : times t') {i : Invoice} (hi : i ∈ backlog p job policy db t) :
    i ∈ backlog p job policy db t' := by
  obtain ⟨hmem, heligible⟩ := List.mem_filter.mp hi
  exact List.mem_filter.mpr ⟨hmem, (hsteady t t' ht ht' i hmem) ▸ heligible⟩

theorem finished_of_empty (hsteady : Steady p job policy times db) {now : ℕ} (hnow : times now)
    (hempty : backlog p job policy db now = []) : Finished p job policy times db := by
  intro t ht i hi
  have hmem := mem_backlog_of_steady hsteady ht hnow hi
  rw [hempty] at hmem
  cases hmem

/- An update leaves no more PII than there was. -/
theorem finished_of_done {invoiceId : String} {fields : List PiiField}
    (hfinished : Finished p job policy times db)
    (hdone : InvoiceDone job times invoiceId fields db db') : Finished p job policy times db' := by
  have hrows : db'.holds = db.holds ∧
      ∀ i ∈ db'.invoices, ∃ i₀ ∈ db.invoices, i = i₀ ∨ i = piiNull fields i₀ := by
    rcases hdone with hupdated | ⟨hsame, -⟩
    · refine ⟨hupdated.holds, ?_⟩
      rw [hupdated.invoices]
      rcases updatePii_invoices db invoiceId fields with heq | ⟨-, heq⟩
      · rw [heq]
        exact fun i hi => ⟨i, hi, .inl rfl⟩
      · rw [heq]
        intro i hi
        obtain ⟨i₀, hi₀, rfl⟩ := mem_updateWhere.mp hi
        refine ⟨i₀, hi₀, ?_⟩
        split
        · exact .inr rfl
        · exact .inl rfl
    · refine ⟨hsame.holds, ?_⟩
      rw [hsame.invoices]
      exact fun i hi => ⟨i, hi, .inl rfl⟩
  intro now hnow i hi field hfield
  obtain ⟨hmem, heligible⟩ := List.mem_filter.mp hi
  obtain ⟨i₀, hmem₀, heq⟩ := hrows.2 i hmem
  rw [hrows.1] at heligible
  rcases heq with rfl | rfl
  · exact hfinished now hnow i (List.mem_filter.mpr ⟨hmem₀, heligible⟩) field hfield
  · exact pii_piiNull_of_none fields
      (hfinished now hnow i₀ (List.mem_filter.mpr ⟨hmem₀, heligible⟩) field hfield)

theorem finished_of_same (hfinished : Finished p job policy times db) (hsame : SameTables db db') :
    Finished p job policy times db' := by
  unfold Finished backlog at hfinished ⊢
  rw [hsame.invoices, hsame.holds]
  exact hfinished

end Frames

section Outcomes
variable {p : Platform} {job : RetentionJob} {policy : RetentionPolicy} {times : ℕ → Prop}
  {orders : RowOrder Invoice → Prop} {db₀ db : Database}

/- One run of a job whose policy is finished. -/
theorem run_keeps_finished (hlive : job.dryRun = false) (happlies : Applies job policy db₀)
    (hframe : Frame db₀ db) (hfinished : Finished p job policy times db) :
    Leads p times orders (fun db' _ => Frame db₀ db' ∧ Finished p job policy times db')
      (retentionPurge p job) db := by
  refine retentionPurge_leads (fun _ _ hsame h => ⟨h.1.of_same hsame, finished_of_same h.2 hsame⟩)
    (fun progress db₁ hsame => ?_) (hframe.applies happlies)
  have hstart : Frame db₀ db₁ ∧ Finished p job policy times db₁ :=
    ⟨hframe.of_same hsame, finished_of_same hfinished hsame⟩
  refine processPolicy_leads hlive (K := fun _ db' => Frame db₀ db' ∧ Finished p job policy times db')
    progress (fun _ => hstart) (fun _ _ _ _ => hstart) ?_
  intro fields _ invoice rest db₂ db₃ h hdone
  exact ⟨h.1.of_done hdone, finished_of_done h.2 hdone⟩

/- What is left of a batch: the eligible invoices to come, and none but these has PII. -/
structure Remaining (p : Platform) (job : RetentionJob) (policy : RetentionPolicy) (times : ℕ → Prop)
    (db₀ : Database) (rest : List Invoice) (db : Database) : Prop where
  frame : Frame db₀ db
  eligible : ∀ i ∈ rest, ∀ t, times t → isEligible p job policy db₀.holds t i = true
  rows : ∀ t, times t → ∀ i ∈ backlog p job policy db t,
    (∃ invoice ∈ rest, invoice.id = i.id) ∨ ∀ field ∈ namedFields job policy, i.pii field = none

theorem remaining_done {fields : List PiiField} {invoice : Invoice} {rest : List Invoice}
    {db₁ db₂ : Database} (hfields : namedFields job policy = fields) (hne : fields ≠ [])
    (hname : .customerName ∉ fields) (h : Remaining p job policy times db₀ (invoice :: rest) db₁)
    (hdone : InvoiceDone job times invoice.id fields db₁ db₂) :
    Remaining p job policy times db₀ rest db₂ := by
  refine ⟨h.frame.of_done hdone, fun i hi => h.eligible i (List.mem_cons_of_mem _ hi), ?_⟩
  rcases hdone with hupdated | ⟨-, t, ht, hheld⟩
  · have hwritten : db₂.invoices = updateWhere (hasId invoice.id) (piiNull fields) db₁.invoices := by
      rw [hupdated.invoices, Database.updatePii, if_neg hne, if_neg fun hnull => hname hnull.2]
    intro t ht i hi
    obtain ⟨hmem, heligible⟩ := List.mem_filter.mp hi
    rw [hwritten] at hmem
    rw [hupdated.holds] at heligible
    obtain ⟨i₀, hmem₀, rfl⟩ := mem_updateWhere.mp hmem
    by_cases hid : i₀.id = invoice.id
    · have hhas : hasId invoice.id i₀ = true := decide_eq_true hid
      rw [if_pos hhas]
      refine .inr fun field hfield => ?_
      rw [hfields] at hfield
      exact pii_piiNull_of_mem i₀ hfield hname
    · rw [if_neg (by simpa [hasId] using hid)] at heligible ⊢
      rcases h.rows t ht i₀ (List.mem_filter.mpr ⟨hmem₀, heligible⟩) with ⟨other, hother, heq⟩ | hnone
      · rcases List.mem_cons.mp hother with rfl | hrest
        · exact absurd heq.symm hid
        · exact .inl ⟨other, hrest, heq⟩
      · exact .inr hnone
  · rw [h.frame.holds, not_held_of_eligible (h.eligible invoice (List.mem_cons_self ..) t ht)] at hheld
    cases hheld

/- One run whose batch is the whole backlog. -/
theorem run_finishes (hlive : job.dryRun = false) (happlies : Applies job policy db)
    (hsteady : Steady p job policy times db) {fields : List PiiField}
    (hvalid : validatePiiFields p (fieldNames job policy) = .ok fields) (hne : fields ≠ [])
    (hname : .customerName ∉ fields)
    (hlength : ∀ now, times now → (backlog p job policy db now).length ≤ job.batchSize) :
    Leads p times orders (fun db' _ => Finished p job policy times db') (retentionPurge p job) db := by
  have hfields : namedFields job policy = fields := namedFields_of_valid hvalid
  refine retentionPurge_leads (fun _ _ hsame h => finished_of_same h hsame)
    (fun progress db₁ hsame => ?_) happlies
  have hframe : Frame db db₁ := (Frame.refl db).of_same hsame
  have hsteady₁ := hframe.steady hsteady
  have hend : ∀ db', Remaining p job policy times db [] db' → Finished p job policy times db' := by
    intro db' h t ht i hi
    rcases h.rows t ht i hi with ⟨invoice, hinvoice, -⟩ | hnone
    · cases hinvoice
    · exact hnone
  refine meets_mono (fun db' _ h => hend db' h) _ _ (processPolicy_leads hlive
    (K := Remaining p job policy times db) progress ?_ ?_ ?_)
  · intro hrefused
    rcases hrefused with ⟨e, he⟩ | ⟨now, hnow, hempty⟩
    · rw [hvalid] at he
      cases he
    · refine ⟨hframe, (fun i hi => by cases hi), fun t ht i hi => ?_⟩
      exact .inr (finished_of_empty hsteady₁ hnow hempty t ht i hi)
  · intro _ batch _ hfirst
    obtain ⟨now, order, hnow, -, rfl⟩ := hfirst
    have hall : (order.arrange (backlog p job policy db₁ now)).take job.batchSize =
        order.arrange (backlog p job policy db₁ now) := by
      refine List.take_of_length_le ?_
      rw [(order.perm _).length_eq, hframe.length_backlog]
      exact hlength now hnow
    rw [hall]
    refine ⟨hframe, ?_, ?_⟩
    · intro i hi t ht
      have hmem := mem_backlog_of_steady hsteady₁ hnow ht ((order.perm _).mem_iff.mp hi)
      rw [← hframe.holds]
      exact (List.mem_filter.mp hmem).2
    · intro t ht i hi
      have hmem := mem_backlog_of_steady hsteady₁ ht hnow hi
      exact .inl ⟨i, (order.perm _).mem_iff.mpr hmem, rfl⟩
  · intro fields' hvalid' invoice rest db₂ db₃ h hdone
    obtain rfl : fields = fields' := Except.ok.inj (hvalid.symm.trans hvalid')
    exact remaining_done hfields hne hname h hdone

/- The order that gives one invoice last. -/
def lastOrder (x : Invoice) : RowOrder Invoice where
  arrange rows := if x ∈ rows then rows.erase x ++ [x] else rows
  perm rows := by
    by_cases hx : x ∈ rows
    · rw [if_pos hx]
      exact (List.perm_append_singleton x _).trans (List.perm_cons_erase hx).symm
    · rw [if_neg hx]

def givesLast (x : Invoice) (order : RowOrder Invoice) : Prop := order = lastOrder x

/- An invoice that is given last is not reached by a `LIMIT` below the backlog. -/
theorem ne_id_of_mem_take {x i : Invoice} {rows : List Invoice} {limit : ℕ}
    (hkeys : (rows.map Invoice.id).Nodup) (hx : x ∈ rows) (hlimit : limit < rows.length)
    (hi : i ∈ ((lastOrder x).arrange rows).take limit) : i.id ≠ x.id := by
  have hrows : rows.Nodup := List.Nodup.of_map _ hkeys
  have hlength : limit ≤ (rows.erase x).length := by
    rw [List.length_erase_of_mem hx]
    omega
  simp only [lastOrder, if_pos hx] at hi
  rw [List.take_append_of_le_length hlength] at hi
  obtain ⟨hne, hmem⟩ := hrows.mem_erase_iff.mp (List.mem_of_mem_take hi)
  exact fun hid => hne (List.inj_on_of_nodup_map hkeys hmem hx hid)

/- Nothing in the rest of the batch leads to an update of the invoice. -/
structure Spared (job : RetentionJob) (policy : RetentionPolicy) (db₀ : Database) (x : Invoice)
    (rest : List Invoice) (db : Database) : Prop where
  frame : Frame db₀ db
  mem : x ∈ db.invoices
  others : ∀ i ∈ rest, .customerName ∈ namedFields job policy ∨ i.id ≠ x.id

theorem spared_done {fields : List PiiField} {invoice x : Invoice} {rest : List Invoice}
    {db₁ db₂ : Database} (hfields : namedFields job policy = fields)
    (h : Spared job policy db₀ x (invoice :: rest) db₁)
    (hdone : InvoiceDone job times invoice.id fields db₁ db₂) : Spared job policy db₀ x rest db₂ := by
  refine ⟨h.frame.of_done hdone, ?_, fun i hi => h.others i (List.mem_cons_of_mem _ hi)⟩
  rcases hdone with hupdated | ⟨hsame, -⟩
  · rw [hupdated.invoices]
    rcases updatePii_invoices db₁ invoice.id fields with heq | ⟨hname, heq⟩
    · rw [heq]
      exact h.mem
    · have hid : x.id ≠ invoice.id := by
        rcases h.others invoice (List.mem_cons_self ..) with hnamed | hne
        · exact hname (hfields ▸ hnamed) x h.mem
        · exact hne.symm
      rw [heq, mem_updateWhere]
      exact ⟨x, h.mem, by rw [if_neg (by simpa [hasId] using hid)]⟩
  · rw [hsame.invoices]
    exact h.mem

/- Why a run does not come to the invoice. -/
def Blocked (p : Platform) (job : RetentionJob) (policy : RetentionPolicy) (db : Database) (now : ℕ) :
    Prop :=
  (∃ e, validatePiiFields p (fieldNames job policy) = .error e) ∨
    .customerName ∈ namedFields job policy ∨
      job.batchSize < (backlog p job policy db now).length

theorem run_spares (hlive : job.dryRun = false) (happlies : Applies job policy db₀)
    (hsteady : Steady p job policy times db₀) (hkeys : (db₀.invoices.map Invoice.id).Nodup)
    {now : ℕ} (hnow : times now) {x : Invoice}
    (hx : isEligible p job policy db₀.holds now x = true)
    (hblocked : ∀ t, times t → Blocked p job policy db₀ t)
    (h : Spared job policy db₀ x [] db) :
    Leads p times (givesLast x) (fun db' _ => Spared job policy db₀ x [] db')
      (retentionPurge p job) db := by
  have hkeep : ∀ db db', SameTables db db' → Spared job policy db₀ x [] db →
      Spared job policy db₀ x [] db' := by
    intro db db' hsame h
    exact ⟨h.frame.of_same hsame, hsame.invoices ▸ h.mem, h.others⟩
  refine retentionPurge_leads hkeep (fun progress db₁ hsame => ?_) (h.frame.applies happlies)
  have h₁ := hkeep db db₁ hsame h
  refine processPolicy_leads hlive (K := Spared job policy db₀ x) progress (fun _ => h₁) ?_ ?_
  · intro fields batch hvalid hfirst
    refine ⟨h₁.frame, h₁.mem, fun i hi => ?_⟩
    obtain ⟨t, order, ht, rfl, rfl⟩ := hfirst
    rcases hblocked t ht with ⟨e, he⟩ | hnamed | hlimit
    · rw [hvalid] at he
      cases he
    · exact .inl hnamed
    · have hmem : x ∈ backlog p job policy db₁ t := by
        refine mem_backlog_of_steady (h₁.frame.steady hsteady) hnow ht (List.mem_filter.mpr ⟨h₁.mem, ?_⟩)
        rw [h₁.frame.holds]
        exact hx
      have hnodup : ((backlog p job policy db₁ t).map Invoice.id).Nodup :=
        (h₁.frame.nodup hkeys).sublist (List.filter_sublist.map _)
      rw [← h₁.frame.length_backlog] at hlimit
      exact .inr (ne_id_of_mem_take hnodup hmem hlimit hi)
  · intro fields hvalid invoice rest db₂ db₃ h hdone
    exact spared_done (namedFields_of_valid hvalid) h hdone

theorem answered_total (hnow : ∃ now, times now) (horder : ∃ order, orders order) (db : Database)
    (q : Query) : ∃ r db', Answered p times orders db q r db' := by
  obtain ⟨now, hnow⟩ := hnow
  obtain ⟨order, horder⟩ := horder
  obtain ⟨id, hid⟩ := Infinite.exists_notMem_finset (db.executions.map JobExecution.id).toFinset
  have hfresh : ∀ row ∈ db.executions, row.id ≠ id := by
    intro row hrow heq
    exact hid (List.mem_toFinset.mpr (heq ▸ List.mem_map_of_mem hrow))
  exact ⟨_, _, now, ⟨none, order, ⟨fun rows => rows, fun _ => .refl _⟩, id⟩, hnow, horder, rfl, hfresh,
    rfl⟩

theorem Successive.mono {orders' : RowOrder Invoice → Prop} (h : ∀ order, orders order → orders' order)
    {n : ℕ} {db db' : Database} (hruns : Successive p job times orders n db db') :
    Successive p job times orders' n db db' := by
  induction hruns with
  | start db => exact .start db
  | run _ hrun ih =>
    refine .run ih (hrun.mono ?_)
    intro db q r db' hanswered
    obtain ⟨now, env, hnow, horder, hrest⟩ := hanswered
    exact ⟨now, env, hnow, h _ horder, hrest⟩

/- What every run keeps, every sequence of runs keeps. -/
theorem successive_invariant {K : Database → Prop}
    (hrun : ∀ db, K db → Leads p times orders (fun db' _ => K db') (retentionPurge p job) db) {n : ℕ}
    {db db' : Database} (hruns : Successive p job times orders n db db') (h : K db) : K db' := by
  induction hruns with
  | start db => exact h
  | run _ hlast ih => exact Interaction.post_of_runs hlast (hrun _ (ih h))

theorem exists_successive (hnow : ∃ now, times now) (horder : ∃ order, orders order) (n : ℕ)
    (db : Database) : ∃ db', Successive p job times orders n db db' := by
  induction n with
  | zero => exact ⟨db, .start db⟩
  | succ n ih =>
    obtain ⟨db', hruns⟩ := ih
    obtain ⟨r, db'', hrun⟩ := Interaction.exists_runs (answered_total hnow horder) (retentionPurge p job)
      db'
    exact ⟨db'', .run hruns hrun⟩

/- Some runs never come to the invoice. -/
theorem exists_sparing (hlive : job.dryRun = false) (happlies : Applies job policy db₀)
    (hsteady : Steady p job policy times db₀) (hkeys : (db₀.invoices.map Invoice.id).Nodup)
    {now : ℕ} (hnow : times now) {x : Invoice} (hx : x ∈ backlog p job policy db₀ now)
    (hblocked : ∀ t, times t → Blocked p job policy db₀ t) (n : ℕ) :
    ∃ db, Successive p job times (fun _ => True) n db₀ db ∧ x ∈ backlog p job policy db now := by
  obtain ⟨hmem, heligible⟩ := List.mem_filter.mp hx
  have hlast : ∃ order, givesLast x order := ⟨lastOrder x, rfl⟩
  have hexists : ∃ db, Successive p job times (givesLast x) n db₀ db :=
    exists_successive ⟨now, hnow⟩ hlast n db₀
  obtain ⟨db, hruns⟩ := hexists
  have hspared : Spared job policy db₀ x [] db :=
    successive_invariant (fun _ => run_spares hlive happlies hsteady hkeys hnow heligible hblocked) hruns
      ⟨.refl db₀, hmem, fun i hi => by cases hi⟩
  refine ⟨db, hruns.mono fun _ _ => trivial, List.mem_filter.mpr ⟨hspared.mem, ?_⟩⟩
  rw [hspared.frame.holds]
  exact heligible

theorem backlog_steady (hsteady : Steady p job policy times db) {t t' : ℕ} (ht : times t)
    (ht' : times t') : backlog p job policy db t = backlog p job policy db t' :=
  List.filter_congr fun i hi => hsteady t t' ht ht' i hi

theorem blocked_of_steady (hsteady : Steady p job policy times db) {now : ℕ} (hnow : times now)
    (h : ∀ fields, validatePiiFields p (fieldNames job policy) = .ok fields →
      .customerName ∉ fields → job.batchSize < (backlog p job policy db now).length) {t : ℕ}
    (ht : times t) : Blocked p job policy db t := by
  cases hvalid : validatePiiFields p (fieldNames job policy) with
  | error e => exact .inl ⟨e, hvalid⟩
  | ok fields =>
    by_cases hname : .customerName ∈ fields
    · exact .inr (.inl (namedFields_of_valid hvalid ▸ hname))
    · refine .inr (.inr ?_)
      rw [backlog_steady hsteady ht hnow]
      exact h fields hvalid hname

theorem successive_keeps_finished (hlive : job.dryRun = false) (happlies : Applies job policy db)
    {n : ℕ} {db' : Database} (hruns : Successive p job times orders n db db')
    (hfinished : Finished p job policy times db) : Finished p job policy times db' :=
  (successive_invariant (K := fun db' => Frame db db' ∧ Finished p job policy times db')
    (fun _ h => run_keeps_finished hlive happlies h.1 h.2) hruns ⟨.refl db, hfinished⟩).2

end Outcomes

/-- For every invoices table, every batch size from one on and every choice of rows: after as
many live runs as batches fit the backlog, no eligible invoice has a value in a column that the
policy names, exactly when there was none to begin with, or the policy's columns are valid and
nullable and the backlog fits one batch. -/
theorem backlog_finished_iff (p : Platform) (job : RetentionJob) (policy : RetentionPolicy)
    (times : ℕ → Prop) (db : Database) (now : ℕ) (hlive : job.dryRun = false)
    (hbatch : 1 ≤ job.batchSize) (happlies : Applies job policy db)
    (hkeys : (db.invoices.map Invoice.id).Nodup) (hnow : times now)
    (hsteady : Steady p job policy times db) :
    (∀ db', Successive p job times (fun _ => True)
        (((backlog p job policy db now).length + job.batchSize - 1) / job.batchSize) db db' →
      Finished p job policy times db') ↔
    Finished p job policy times db ∨
      ∃ fields, validatePiiFields p (fieldNames job policy) = .ok fields ∧ .customerName ∉ fields ∧
        (backlog p job policy db now).length ≤ job.batchSize := by
  constructor
  · intro hall
    by_contra hnot
    push Not at hnot
    obtain ⟨hunfinished, hunreached⟩ := hnot
    have hblocked : ∀ t, times t → Blocked p job policy db t :=
      fun t ht => blocked_of_steady hsteady hnow hunreached ht
    unfold Finished at hunfinished
    push Not at hunfinished
    obtain ⟨t, ht, x, hx, field, hfield, hvalue⟩ := hunfinished
    obtain ⟨db', hruns, hx'⟩ := exists_sparing hlive happlies hsteady hkeys ht hx hblocked
      (((backlog p job policy db now).length + job.batchSize - 1) / job.batchSize)
    exact hvalue (hall db' hruns t ht x hx' field hfield)
  · intro hcond db' hruns
    rcases hcond with hfinished | ⟨fields, hvalid, hname, hlength⟩
    · exact successive_keeps_finished hlive happlies hruns hfinished
    · by_cases hempty : backlog p job policy db now = []
      · exact successive_keeps_finished hlive happlies hruns
          (finished_of_empty hsteady hnow hempty)
      · by_cases hnil : fields = []
        · intro t ht i hi field hfield
          rw [namedFields_of_valid hvalid, hnil] at hfield
          cases hfield
        · have hpos : 0 < (backlog p job policy db now).length := List.length_pos_of_ne_nil hempty
          have hone : ((backlog p job policy db now).length + job.batchSize - 1) / job.batchSize = 1 := by
            rw [Nat.div_eq_iff (by omega)]
            omega
          rw [hone] at hruns
          cases hruns with
          | run hstart hrun =>
            cases hstart
            refine Interaction.post_of_runs hrun
              (run_finishes hlive happlies hsteady hvalid hnil hname fun t ht => ?_)
            rw [backlog_steady hsteady ht hnow]
            exact hlength

def laterOn (t : ℕ) : Prop := 10000000000 ≤ t

def backlogDatabase (emails : List String) : Database :=
  sampleDatabase ["customer_email"] (emails.map fun email => sampleInvoice email (some email))

theorem sample_eligible {t : ℕ} (ht : laterOn t) (email : String) :
    isEligible samplePlatform (sampleJob false) (samplePolicy ["customer_email"]) [] t
      (sampleInvoice email (some email)) = true := by
  have hfloor : ⌊((30 : ℕ) : ℚ)⌋ = 30 := Int.floor_natCast 30
  unfold laterOn at ht
  simp only [isEligible, samplePlatform, retentionDaysOf, sampleJob, samplePolicy, JsNumber.ofNat,
    Option.getD_none, hfloor, eligible, sampleInvoice, heldIds, List.filter_nil, List.map_nil, sqlNotIn,
    holds_some, decide_true, Bool.true_and, Bool.and_true]
  exact decide_eq_true (by omega)

theorem sample_steady (emails : List String) :
    Steady samplePlatform (sampleJob false) (samplePolicy ["customer_email"]) laterOn
      (backlogDatabase emails) := by
  intro t t' ht ht' i hi
  obtain ⟨email, -, rfl⟩ := List.mem_map.mp hi
  exact (sample_eligible ht email).trans (sample_eligible ht' email).symm

theorem backlog_finished_sample :
    (backlog samplePlatform (sampleJob false) (samplePolicy ["customer_email"])
      (backlogDatabase ["a@acme.example"]) 10000000000).length = 1 ∧
    ∀ db', Successive samplePlatform (sampleJob false) laterOn (fun _ => True) 1
        (backlogDatabase ["a@acme.example"]) db' →
      Finished samplePlatform (sampleJob false) (samplePolicy ["customer_email"]) laterOn db' := by
  have hlength : (backlog samplePlatform (sampleJob false) (samplePolicy ["customer_email"])
      (backlogDatabase ["a@acme.example"]) 10000000000).length = 1 := by decide
  have hiff := backlog_finished_iff samplePlatform (sampleJob false) (samplePolicy ["customer_email"])
    laterOn (backlogDatabase ["a@acme.example"]) 10000000000 rfl (by decide) rfl (by decide) (le_refl _)
    (sample_steady _)
  rw [hlength] at hiff
  exact ⟨hlength, hiff.mpr (.inr ⟨[.customerEmail], by decide, by decide, by decide⟩)⟩

/- Two invoices, two runs with a batch of one: the database may give the same invoice twice. -/
theorem second_invoice_starved :
    (backlog samplePlatform (sampleJob false) (samplePolicy ["customer_email"])
      (backlogDatabase ["a@acme.example", "b@acme.example"]) 10000000000).length = 2 ∧
    ¬ ∀ db', Successive samplePlatform (sampleJob false) laterOn (fun _ => True) 2
        (backlogDatabase ["a@acme.example", "b@acme.example"]) db' →
      Finished samplePlatform (sampleJob false) (samplePolicy ["customer_email"]) laterOn db' := by
  refine ⟨by decide, ?_⟩
  intro h
  have hblocked : ∀ t, laterOn t → Blocked samplePlatform (sampleJob false)
      (samplePolicy ["customer_email"]) (backlogDatabase ["a@acme.example", "b@acme.example"]) t := by
    intro t ht
    refine .inr (.inr ?_)
    rw [backlog_steady (sample_steady _) ht (le_refl _)]
    decide
  have hmem : sampleInvoice "b@acme.example" (some "b@acme.example") ∈ backlog samplePlatform
      (sampleJob false) (samplePolicy ["customer_email"])
      (backlogDatabase ["a@acme.example", "b@acme.example"]) 10000000000 := by decide
  have happlies : Applies (sampleJob false) (samplePolicy ["customer_email"])
      (backlogDatabase ["a@acme.example", "b@acme.example"]) := rfl
  obtain ⟨db', hruns, hx⟩ := exists_sparing rfl happlies (sample_steady _) (by decide) (le_refl _) hmem
    hblocked 2
  have hnone := h db' hruns 10000000000 (le_refl _) _ hx .customerEmail (by decide)
  cases hnone

end Liquifact.Retention
