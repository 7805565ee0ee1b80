import Liquifact.Retention.RetentionPurge

/-!
# Legal holds against a running purge

The run looks for holds twice, in the eligibility query and right before each invoice, and
writes in a statement of its own. Placements and releases may come between any two of its
statements. A `Watched` system knows how many rows `legal_holds` had when the run last checked
an invoice: a placement appends its row, so the later ones are the rest of the table.
-/

namespace Liquifact.Retention
open Liquifact.Lib
open Interaction (Meets meets_attempt meets_mono meets_query meets_query_bind)

def onInvoice (invoiceId : String) (h : LegalHold) : Prop := h.invoiceId = some invoiceId

def System.moment (s : System) : Action → ℕ
  | .statement elapsed _ => s.clock + elapsed
  | _ => s.clock

structure Watched where
  system : System
  seen : ℕ

namespace Watched

def step (p : Platform) (w : Watched) (a : Action) : Watched where
  system := w.system.step p a
  seen :=
    match a, w.system.program with
    | .statement _ _, .ask (.activeHold _ _) _ => w.system.db.holds.length
    | _, _ => w.seen

/-- No PII column of an invoice is set to NULL while a hold on the invoice is active. -/
def RespectsHolds (p : Platform) (w : Watched) (a : Action) : Prop :=
  ∀ invoiceId, w.system.nulled p a = some invoiceId →
    ∀ h ∈ w.system.db.holds, onInvoice invoiceId h → h.activeAt (w.system.moment a) = false

/-- When the PII columns of an invoice are set to NULL, no hold on it that was placed since its
check is active, and none that names another tenant. -/
def NoLateHold (p : Platform) (tenantId : String) (w : Watched) (a : Action) : Prop :=
  ∀ invoiceId, w.system.nulled p a = some invoiceId →
    (∀ h ∈ w.system.db.holds.drop w.seen, onInvoice invoiceId h →
      h.activeAt (w.system.moment a) = false) ∧
    ∀ h ∈ w.system.db.holds, h.tenantId ≠ tenantId → onInvoice invoiceId h →
      h.activeAt (w.system.moment a) = false

end Watched

section Clearance
variable (tenantId : String)

/- The invoice whose check was the last one, if it found no hold. -/
def cleared : Option String → (q : Query) → Except String q.Response → Option String
  | _, .activeHold _ invoiceId, .ok false => some invoiceId
  | _, .activeHold _ _, _ => none
  | g, _, _ => g

def afterCheck (g : Option String) : Query → Prop
  | .updatePii invoiceId _ => g = some invoiceId
  | .activeHold t _ => t = tenantId
  | _ => True

abbrev ChecksFirst (program : Job Unit) (g : Option String) : Prop :=
  program.Meets (afterCheck tenantId) (fun g q r g' => g' = cleared g q r) (fun _ _ => True) g

end Clearance

section Program
variable {p : Platform} {job : RetentionJob}

/- An invoice is updated after its check and before any other check. -/
theorem processInvoice_checksFirst (policy : RetentionPolicy) (fields : List PiiField)
    (invoice : Invoice) (progress : Progress) (g : Option String) :
    (processInvoice p job policy fields invoice progress).Meets (afterCheck job.tenantId)
      (fun g q r g' => g' = cleared g q r) (fun _ r => ∃ progress', r = .ok progress' ∧ True) g := by
  unfold processInvoice
  refine meets_query rfl fun r g' hg => ?_
  subst hg
  cases r with
  | error e => exact ⟨_, rfl, trivial⟩
  | ok held =>
    cases held with
    | true => exact ⟨_, rfl, trivial⟩
    | false =>
      refine meets_attempt _ _ (meets_mono ?_ _ _ (?_ : Meets _ _ (fun _ _ => True) _ _))
      · intro s r _
        cases r with
        | error e => exact ⟨_, rfl, trivial⟩
        | ok result =>
          dsimp only
          split
          · refine meets_query trivial fun r _ _ => ?_
            cases r with
            | error e => exact ⟨_, rfl, trivial⟩
            | ok _ => exact ⟨_, rfl, trivial⟩
          · exact ⟨_, rfl, trivial⟩
      · unfold purgeInvoicePii
        split
        · trivial
        · refine meets_query_bind trivial ?_ fun _ _ _ => trivial
          intro current g' hg
          subst hg
          refine meets_query_bind rfl ?_ fun _ _ _ => trivial
          intro affected g' _
          split
          · trivial
          · trivial

theorem concluded_checksFirst {executionId : String} (r : Except String Unit) (g : Option String) :
    ChecksFirst job.tenantId (concluded executionId r) g := by
  cases r with
  | ok _ => trivial
  | error e =>
    exact meets_query_bind trivial (fun _ _ _ => trivial) fun _ _ _ => trivial

theorem retentionPurge_checksFirst : ChecksFirst job.tenantId (retentionPurge p job) none := by
  unfold retentionPurge
  refine meets_query trivial fun r g _ => ?_
  cases r with
  | error e => trivial
  | ok executionId =>
    refine meets_attempt _ g (meets_runPolicies (fun _ _ q _ hq => ⟨?_, fun _ _ _ => trivial⟩)
      (fun _ _ _ h => h) (fun policy fields invoice progress g _ =>
        processInvoice_checksFirst policy fields invoice progress g) ?_ ?_ trivial)
    · cases q with
      | updatePii invoiceId fields => cases hq
      | activeHold t invoiceId => cases hq
      | _ => trivial
    · intro g progress _
      exact ⟨trivial, fun r g' _ => concluded_checksFirst r g'⟩
    · intro g progress e _
      exact concluded_checksFirst (.error e) g

end Program

theorem activeAt_mono {h : LegalHold} {t t' : ℕ} (ht : t ≤ t') (hinactive : h.activeAt t = false) :
    h.activeAt t' = false := by
  unfold LegalHold.activeAt LegalHold.unexpired at hinactive ⊢
  cases hexpires : h.expiresAt with
  | none =>
    rw [hexpires] at hinactive
    exact hinactive
  | some e =>
    rw [hexpires] at hinactive
    by_cases hstatus : h.status = .active
    · simp only [hstatus, decide_true, Bool.true_and, decide_eq_false_iff_not] at hinactive ⊢
      omega
    · simp [hstatus]

theorem inactive_of_not_held {holds : List LegalHold} {tenantId invoiceId : String} {now : ℕ}
    (hheld : isHeld holds tenantId invoiceId now = false) {h : LegalHold} (hmem : h ∈ holds)
    (htenant : h.tenantId = tenantId) (hinvoice : onInvoice invoiceId h) : h.activeAt now = false := by
  have hall := List.any_eq_false.mp hheld h hmem
  simpa [htenant, show h.invoiceId = some invoiceId from hinvoice] using hall

/- A cleared invoice has no active hold of the tenant. -/
theorem of_cleared {p : Platform} {now : ℕ} {env : Env} {db : Database} {g : Option String}
    {tenantId invoiceId invoiceId' : String}
    (h : cleared g (.activeHold tenantId invoiceId)
      (db.answer p now env (.activeHold tenantId invoiceId)).1 = some invoiceId') :
    isHeld db.holds tenantId invoiceId now = false ∧ invoiceId = invoiceId' := by
  unfold Database.answer at h
  split at h
  · cases h
  · simp only [Database.execute] at h
    cases hheld : isHeld db.holds tenantId invoiceId now with
    | true =>
      rw [hheld] at h
      cases h
    | false =>
      rw [hheld] at h
      exact ⟨rfl, Option.some.inj h⟩

namespace Watched
variable {p : Platform} {tenantId : String} {w : Watched} {g : Option String}

/- The holds that the check of the cleared invoice saw are not active. -/
structure Guarded (tenantId : String) (w : Watched) (g : Option String) : Prop where
  checksFirst : ChecksFirst tenantId w.system.program g
  within : w.seen ≤ w.system.db.holds.length
  inactive : ∀ invoiceId, g = some invoiceId → ∀ h ∈ w.system.db.holds.take w.seen,
    h.tenantId = tenantId → onInvoice invoiceId h → h.activeAt w.system.clock = false

theorem guarded_statement (hw : Guarded tenantId w g) (elapsed : ℕ) (env : Env) :
    ∃ g', Guarded tenantId (w.step p (.statement elapsed env)) g' := by
  obtain ⟨⟨db, clock, program⟩, seen⟩ := w
  obtain ⟨hchecks, hwithin, hinactive⟩ := hw
  cases program with
  | done r =>
    refine ⟨g, trivial, hwithin, ?_⟩
    intro invoiceId hg h hmem htenant hinvoice
    exact activeAt_mono (Nat.le_add_right ..) (hinactive invoiceId hg h hmem htenant hinvoice)
  | ask q next =>
    have hholds := (Database.answer_effect p (clock + elapsed) env db q).holds
    have hnext := hchecks.2 (db.answer p (clock + elapsed) env q).1 _ rfl
    cases q with
    | activeHold t invoiceId =>
      obtain rfl : t = tenantId := hchecks.1
      refine ⟨_, hnext, ?_, ?_⟩
      · simp only [step, System.step, hholds]
        exact le_refl _
      · intro invoiceId' hg h hmem htenant hinvoice
        simp only [step, System.step, hholds, List.take_length] at hmem
        obtain ⟨hheld, rfl⟩ := of_cleared hg
        exact inactive_of_not_held hheld hmem htenant hinvoice
    | _ =>
      refine ⟨g, hnext, ?_, ?_⟩
      · simp only [step, System.step, hholds]
        exact hwithin
      · intro invoiceId hg h hmem htenant hinvoice
        simp only [step, System.step, hholds] at hmem
        exact activeAt_mono (Nat.le_add_right ..) (hinactive invoiceId hg h hmem htenant hinvoice)

theorem guarded_step (hw : Guarded tenantId w g) (a : Action) :
    ∃ g', Guarded tenantId (w.step p a) g' := by
  cases a with
  | statement elapsed env => exact guarded_statement hw elapsed env
  | placeHold hold =>
    refine ⟨g, hw.checksFirst, ?_, ?_⟩
    · simp only [step, System.step, List.length_append]
      exact Nat.le_add_right_of_le hw.within
    · intro invoiceId hg h hmem
      simp only [step, System.step, List.take_append_of_le_length hw.within] at hmem
      exact hw.inactive invoiceId hg h hmem
  | releaseHold holdId =>
    refine ⟨g, hw.checksFirst, ?_, ?_⟩
    · simp only [step, System.step, updateWhere, List.length_map]
      exact hw.within
    · intro invoiceId hg h hmem htenant hinvoice
      simp only [step, System.step, updateWhere, ← List.map_take] at hmem
      obtain ⟨h₀, hmem₀, rfl⟩ := List.mem_map.mp hmem
      by_cases hid : h₀.id = holdId
      · simp [hid, LegalHold.activeAt]
      · simp only [hid, decide_false, Bool.false_eq_true, if_false] at htenant hinvoice ⊢
        exact hw.inactive invoiceId hg h₀ hmem₀ htenant hinvoice

theorem respectsHolds_iff (hw : Guarded tenantId w g) (a : Action) :
    w.RespectsHolds p a ↔ w.NoLateHold p tenantId a := by
  constructor
  · intro hrespects invoiceId hnulled
    refine ⟨fun h hmem => hrespects invoiceId hnulled h (List.mem_of_mem_drop hmem), ?_⟩
    intro h hmem _
    exact hrespects invoiceId hnulled h hmem
  · intro hlate invoiceId hnulled h hmem hinvoice
    obtain ⟨hafter, hforeign⟩ := hlate invoiceId hnulled
    obtain ⟨elapsed, env, fields, next, rfl, hprogram⟩ := System.nulled_eq_some hnulled
    have hcleared : g = some invoiceId := by
      have hchecks := hw.checksFirst
      rw [hprogram] at hchecks
      exact hchecks.1
    by_cases htenant : h.tenantId = tenantId
    · rw [← List.take_append_drop w.seen w.system.db.holds] at hmem
      rcases List.mem_append.mp hmem with hseen | hlater
      · exact activeAt_mono (Nat.le_add_right ..)
          (hw.inactive invoiceId hcleared h hseen htenant hinvoice)
      · exact hafter h hlater hinvoice
    · exact hforeign h hmem htenant hinvoice

end Watched

/-- Over every database, every job and every interleaving of the statements of its run with
placements and releases of holds, failing statements included: no PII column is set to NULL
under an active hold exactly when, at each such update, no hold placed on the invoice since its
check is still active and none of another tenant is. -/
theorem holds_respected_iff (p : Platform) (job : RetentionJob) (db : Database) (clock : ℕ)
    (as : List Action) :
    Along (Watched.step p) (Watched.RespectsHolds p) ⟨⟨db, clock, retentionPurge p job⟩, 0⟩ as ↔
      Along (Watched.step p) (Watched.NoLateHold p job.tenantId)
        ⟨⟨db, clock, retentionPurge p job⟩, 0⟩ as := by
  refine along_iff_of_invariant (Watched.step p) (fun w => ∃ g, w.Guarded job.tenantId g)
    _ _ ?_ ?_ _ as ⟨none, retentionPurge_checksFirst, Nat.zero_le _, ?_⟩
  · intro w a hw
    obtain ⟨g, hg⟩ := hw
    exact Watched.respectsHolds_iff hg a
  · intro w a hw
    obtain ⟨g, hg⟩ := hw
    exact Watched.guarded_step hg a
  · intro invoiceId hg
    cases hg

def lateHold : LegalHold := ⟨"hold-1", "tenant-a", some "inv-1", .active, none⟩

/- The hold comes after the check of its invoice and before the update. -/
theorem late_hold_ignored :
    ¬ Along (Watched.step samplePlatform) (Watched.RespectsHolds samplePlatform)
      ⟨⟨sampleDatabase ["customer_email"] [sampleInvoice "inv-1" (some "a@acme.example")],
        10000000000, retentionPurge samplePlatform (sampleJob false)⟩, 0⟩
      [works, works, works, works, .placeHold lateHold, works, works] := by
  intro h
  have hupdate := h.2.2.2.2.2.2.1 "inv-1" (by decide) lateHold (by decide) rfl
  exact absurd hupdate (by decide)

end Liquifact.Retention
