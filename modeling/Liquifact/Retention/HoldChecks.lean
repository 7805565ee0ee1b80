import Liquifact.Retention.RetentionPurge

/-!
# The two checks for legal holds

`getEligibleInvoices` (`src/jobs/retentionPurge.js`, 93-113) asks for invoices whose id is `NOT IN`
the held ids of the tenant, `isUnderLegalHold` (71-84) for a hold on the one invoice. The column
`legal_holds.invoice_id` (`migrations/20250425000000_create_retention_system.sql`, 19-36) may be
NULL, and `NOT IN` a list with a NULL is never true.
-/

namespace Liquifact.Retention
open Liquifact.Lib

section Checks
variable {legalHolds : List LegalHold} {tenantId : String} {now : ℕ}

theorem mem_heldIds {id : Option String} : id ∈ heldIds legalHolds tenantId now ↔
    ∃ h ∈ legalHolds, h.tenantId = tenantId ∧ h.activeAt now = true ∧ h.invoiceId = id := by
  simp only [heldIds, List.mem_map, List.mem_filter, Bool.and_eq_true, decide_eq_true_eq]
  constructor
  · rintro ⟨h, ⟨hmem, htenant, hactive⟩, hid⟩
    exact ⟨h, hmem, htenant, hactive, hid⟩
  · rintro ⟨h, hmem, htenant, hactive, hid⟩
    exact ⟨h, ⟨hmem, htenant, hactive⟩, hid⟩

theorem isHeld_eq_false_iff {invoiceId : String} : isHeld legalHolds tenantId invoiceId now = false ↔
    some invoiceId ∉ heldIds legalHolds tenantId now := by
  rw [mem_heldIds, isHeld, List.any_eq_false]
  simp only [Bool.and_eq_true, decide_eq_true_eq, not_exists, not_and]
  constructor
  · intro hnone h hmem htenant hactive hid
    exact hnone h hmem ⟨htenant, hid⟩ hactive
  · intro hnone h hmem hthis hactive
    exact hnone h hmem hthis.1 hactive hthis.2

/- A NULL among the held ids counts against every invoice. -/
theorem notIn_heldIds_iff {invoiceId : String} :
    Lib.holds (sqlNotIn invoiceId (heldIds legalHolds tenantId now)) = true ↔
      none ∉ heldIds legalHolds tenantId now ∧ some invoiceId ∉ heldIds legalHolds tenantId now := by
  rw [holds_notIn]
  constructor
  · intro hall
    constructor
    · intro hnull
      obtain ⟨z, hz, -⟩ := hall none hnull
      cases hz
    · intro hown
      obtain ⟨z, hz, hne⟩ := hall _ hown
      exact hne (Option.some.inj hz)
  · rintro ⟨hnull, hown⟩ y hy
    cases y with
    | none => exact absurd hy hnull
    | some z =>
      refine ⟨z, rfl, ?_⟩
      intro heq
      rw [heq] at hown
      exact hown hy

/- Past the cutoff and not deleted, all that counts is the list of held ids. -/
theorem eligible_iff {cutoff : ℤ} {i : Invoice} (htenant : i.tenantId = tenantId)
    (hcutoff : i.createdAt < cutoff) (hdeleted : i.deletedAt = none) :
    eligible legalHolds tenantId cutoff now i = true ↔
      none ∉ heldIds legalHolds tenantId now ∧ some i.id ∉ heldIds legalHolds tenantId now := by
  unfold eligible
  rw [decide_eq_true htenant, decide_eq_true hcutoff, decide_eq_true hdeleted, Bool.true_and,
    Bool.true_and, Bool.true_and, notIn_heldIds_iff]

end Checks

/-- For every table of holds, tenant and time, and every invoice of the tenant past the cutoff and
not deleted: the query finds it eligible just when it is not under a hold, if and only if no
active hold of the tenant is without an invoice, or the invoice has an active hold of its own. -/
theorem hold_checks_agree_iff (legalHolds : List LegalHold) (tenantId : String) (cutoff : ℤ) (now : ℕ)
    (i : Invoice) (htenant : i.tenantId = tenantId) (hcutoff : i.createdAt < cutoff)
    (hdeleted : i.deletedAt = none) :
    (eligible legalHolds tenantId cutoff now i = true ↔ isHeld legalHolds tenantId i.id now = false) ↔
      (∀ h ∈ legalHolds, h.tenantId = tenantId → h.activeAt now = true → h.invoiceId ≠ none) ∨
        ∃ h ∈ legalHolds, h.tenantId = tenantId ∧ h.activeAt now = true ∧ h.invoiceId = some i.id := by
  rw [eligible_iff htenant hcutoff hdeleted, isHeld_eq_false_iff, ← mem_heldIds]
  have hnull : (∀ h ∈ legalHolds, h.tenantId = tenantId → h.activeAt now = true → h.invoiceId ≠ none) ↔
      none ∉ heldIds legalHolds tenantId now := by
    rw [mem_heldIds]
    simp only [not_exists, not_and, ne_eq]
  rw [hnull]
  constructor
  · intro hagree
    by_cases hown : some i.id ∈ heldIds legalHolds tenantId now
    · exact Or.inr hown
    · exact Or.inl (hagree.mpr hown).1
  · intro hcondition
    constructor
    · exact And.right
    · intro hown
      exact ⟨hcondition.resolve_right hown, hown⟩

/-! ### A hold without an invoice -/

def oldInvoice : Invoice := ⟨"inv-1", "tenant-a", "2020-1", "Ada", none, none, 0, none⟩

def invoiceHold : LegalHold := ⟨"hold-1", "tenant-a", some "inv-2", .active, none⟩

def tenantHold : LegalHold := ⟨"hold-2", "tenant-a", none, .active, none⟩

theorem hold_checks_agree_other :
    (eligible [invoiceHold] "tenant-a" 100 1000 oldInvoice = true ↔
      isHeld [invoiceHold] "tenant-a" "inv-1" 1000 = false) := by
  refine (hold_checks_agree_iff [invoiceHold] "tenant-a" 100 1000 oldInvoice rfl (by decide) rfl).mpr ?_
  refine Or.inl ?_
  intro h hmem _ _
  rw [List.mem_singleton.mp hmem]
  decide

theorem tenant_hold_disagrees :
    ¬ ∀ (legalHolds : List LegalHold) (tenantId : String) (cutoff : ℤ) (now : ℕ) (i : Invoice),
      i.tenantId = tenantId → i.createdAt < cutoff → i.deletedAt = none →
      (eligible legalHolds tenantId cutoff now i = true ↔ isHeld legalHolds tenantId i.id now = false) := by
  intro h
  have hagree := h [tenantHold] "tenant-a" 100 1000 oldInvoice rfl (by decide) rfl
  have hfree : isHeld [tenantHold] "tenant-a" oldInvoice.id 1000 = false := by decide
  exact absurd (hagree.mpr hfree) (by decide)

end Liquifact.Retention
