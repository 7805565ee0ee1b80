import Liquifact.Jobs.EscrowProjection

/-!
# The projection against the event log

The two tables have different conflict rules: `escrow_events` keeps the first row of an
event identifier (`onConflict('event_id').ignore()`), the projection takes the newest
event of its invoice (`onConflict('invoice_id').merge(...)`). They agree as long as a
replacing event whose identifier is known repeats what the log holds.
-/

namespace Liquifact.Jobs
open Liquifact.Lib

/- The log row under the identifier the projection names says what the projection says. -/
structure SameEvent (invoiceId : String) (row : Projection) (logged : EventRow) : Prop where
  invoice : logged.invoiceId = invoiceId
  ledger : logged.ledgerSequence = row.latestLedgerSequence
  kind : logged.eventType = row.latestEventType
  body : logged.eventBody = row.latestEventBody

def EscrowTables.Agree (t : EscrowTables) : Prop :=
  ∀ inv row, t.projection.get inv = some row →
    ∃ logged, t.events.get row.latestEventId = some logged ∧ SameEvent inv row.toProjection logged

/- Before the delivery: if its event replaces the projection and its identifier is in the
log already, the log holds it with the same invoice, ledger sequence, type and body. -/
def Repeats (checksum : String → Option Bool) (t : EscrowTables) (d : Delivery) : Prop :=
  ∀ e, d.event checksum = some e →
    shouldReplaceProjection d.asText
      ((t.projection.get e.invoiceId).map ProjectionRow.toProjection) e = true →
    ∀ logged, t.events.get e.eventId = some logged → SameEvent e.invoiceId (projectionOf e) logged

section Step
variable {checksum : String → Option Bool} {t : EscrowTables} {d : Delivery} {e : EscrowEvent}

/- Log rows are written once. -/
theorem step_events_kept (he : d.event checksum = some e) {x : String} {logged : EventRow}
    (h : t.events.get x = some logged) : (t.step checksum d).events.get x = some logged := by
  rw [step_events he]
  split
  · exact h
  · rename_i hnew
    rw [OrdMap.get_set_of_ne _ _ (fun hx => hnew (by rw [hx, OrdMap.has, h]; rfl))]
    exact h

theorem step_events_own (he : d.event checksum = some e) :
    (t.step checksum d).events.get e.eventId =
      some ((t.events.get e.eventId).getD (eventRowOf e d.written)) := by
  rw [step_events he]
  cases hget : t.events.get e.eventId with
  | none => simp [OrdMap.has, hget]
  | some logged => simp [OrdMap.has, hget]

/- A replacing event agrees with its log row exactly when it repeats what was logged. -/
theorem agree_step_iff (hagree : t.Agree) : (t.step checksum d).Agree ↔ Repeats checksum t d := by
  cases he : d.event checksum with
  | none =>
    rw [step_of_none he]
    refine ⟨fun _ e he' => ?_, fun _ => hagree⟩
    rw [he] at he'
    cases he'
  | some e =>
    have hst := step_of_some (t := t) he
    cases hrep : shouldReplaceProjection d.asText
        ((t.projection.get e.invoiceId).map ProjectionRow.toProjection) e with
    | false =>
      constructor
      · intro _ e' he' hrep'
        rw [he] at he'
        cases he'
        rw [hrep] at hrep'
        cases hrep'
      · intro _ inv row hrow
        rw [hst.retained hrep] at hrow
        obtain ⟨logged, hget, hsame⟩ := hagree inv row hrow
        exact ⟨logged, step_events_kept he hget, hsame⟩
    | true =>
      constructor
      · intro h e' he' _ logged hlogged
        rw [he] at he'
        cases he'
        obtain ⟨logged', hget, hsame⟩ := h e.invoiceId ⟨projectionOf e, d.written⟩
          (by rw [hst.replaced hrep, OrdMap.get_set_self])
        have hown := step_events_own (t := t) he
        rw [hlogged, Option.getD_some] at hown
        rw [show (projectionOf e).latestEventId = e.eventId from rfl, hown] at hget
        cases hget
        exact hsame
      · intro h inv row hrow
        rw [hst.replaced hrep, OrdMap.get_set] at hrow
        split at hrow
        · rename_i hinv
          cases hrow
          subst hinv
          refine ⟨_, step_events_own he, ?_⟩
          cases hget : t.events.get e.eventId with
          | none => exact ⟨rfl, rfl, rfl, rfl⟩
          | some logged => exact h e he hrep logged hget
        · obtain ⟨logged, hget, hsame⟩ := hagree inv row hrow
          exact ⟨logged, step_events_kept he hget, hsame⟩

end Step

/-- The projection and the log agree after every delivery of a sequence exactly when each
delivery that replaces a projection row under a known identifier repeats the logged event. -/
theorem log_agrees_iff (checksum : String → Option Bool) (ds : List Delivery) :
    (∀ pre, pre <+: ds → (deliver checksum pre).Agree) ↔
      Along (EscrowTables.step checksum) (Repeats checksum) .empty ds := by
  apply forall_prefix_iff_along
  · intro t d h
    exact agree_step_iff h
  · intro inv row hrow
    cases hrow

/- The event of identifier "e" again, five ledgers later: the log keeps ledger 1. -/
def reindexed : Delivery where
  raw := (sampleDelivery 1).raw.map fun raw => { raw with ledgerSequence := .ofNat 6 }
  observed := "2026-01-02T00:00:00.000Z"
  written := 6
  asText := true

theorem log_disagrees : ¬ (deliver (fun _ => none) [sampleDelivery 1, reindexed]).Agree := by
  intro h
  obtain ⟨logged, hget, hsame⟩ := h "inv-1" _ rfl
  have hlogged : logged.ledgerSequence = 1 := by
    cases hget
    rfl
  exact absurd (hlogged.symm.trans hsame.ledger) (by decide)

end Liquifact.Jobs
