import Liquifact.Jobs.EscrowProjection
import Liquifact.Lib.Numerals

/-!
# Two events of one ledger

Horizon's paging tokens grow along the chain as numbers. `shouldReplaceProjection` compares
them as strings (`escrowIndexer.js:283-285`), so within one ledger the projection may stay
at the earlier of two events.
-/

namespace Liquifact.Jobs
open Liquifact.Lib

/-- Two deliveries of one invoice and one ledger, with numerals as paging tokens, on tables
that show nothing for the invoice or what each of the two events replaces. -/
structure SameLedger (checksum : String → Option Bool) (t : EscrowTables) (d₁ d₂ : Delivery)
    (e₁ e₂ : EscrowEvent) : Prop where
  first : d₁.event checksum = some e₁
  second : d₂.event checksum = some e₂
  invoice : e₁.invoiceId = e₂.invoiceId
  ledger : e₁.ledgerSequence = e₂.ledgerSequence
  token₁ : IsNumeral e₁.pagingToken
  token₂ : IsNumeral e₂.pagingToken
  earlier : ∀ row, t.projection.get e₁.invoiceId = some row →
    row.toProjection.key < e₁.key ∧ row.toProjection.key < e₂.key

/- The projection of the event's invoice shows the event. -/
def At (t : EscrowTables) (e : EscrowEvent) : Prop :=
  (t.projection.get e.invoiceId).map ProjectionRow.toProjection = some (projectionOf e)

/-- After both deliveries, in either order, the projection is at the event with the greater
token. -/
def FollowsChain (checksum : String → Option Bool) (t : EscrowTables) (d₁ d₂ : Delivery)
    (e₁ e₂ : EscrowEvent) : Prop :=
  (numeralValue e₁.pagingToken < numeralValue e₂.pagingToken →
    At ((t.step checksum d₁).step checksum d₂) e₂ ∧ At ((t.step checksum d₂).step checksum d₁) e₂) ∧
  (numeralValue e₂.pagingToken < numeralValue e₁.pagingToken →
    At ((t.step checksum d₁).step checksum d₂) e₁ ∧ At ((t.step checksum d₂).step checksum d₁) e₁)

section Two
variable {checksum : String → Option Bool} {t : EscrowTables} {d₁ d₂ : Delivery}
  {e₁ e₂ : EscrowEvent}

theorem SameLedger.symm (h : SameLedger checksum t d₁ d₂ e₁ e₂) :
    SameLedger checksum t d₂ d₁ e₂ e₁ := by
  refine ⟨h.second, h.first, h.invoice.symm, h.ledger.symm, h.token₂, h.token₁, ?_⟩
  intro row hrow
  rw [← h.invoice] at hrow
  exact (h.earlier row hrow).symm

/- The first of the two is always shown. -/
theorem SameLedger.shows_first (h : SameLedger checksum t d₁ d₂ e₁ e₂) :
    (t.step checksum d₁).projection = t.projection.set e₁.invoiceId ⟨projectionOf e₁, d₁.written⟩ := by
  apply (step_of_some h.first).replaced
  cases hrow : t.projection.get e₁.invoiceId with
  | none => rfl
  | some row =>
    rw [Option.map_some, shouldReplaceProjection_some]
    exact (h.earlier row hrow).1

theorem SameLedger.current (h : SameLedger checksum t d₁ d₂ e₁ e₂) :
    ((t.step checksum d₁).projection.get e₂.invoiceId).map ProjectionRow.toProjection =
      some (projectionOf e₁) := by
  rw [h.shows_first, ← h.invoice, OrdMap.get_set_self]
  rfl

theorem SameLedger.replaces_iff (h : SameLedger checksum t d₁ d₂ e₁ e₂) :
    shouldReplaceProjection d₂.asText (((t.step checksum d₁).projection.get e₂.invoiceId).map
      ProjectionRow.toProjection) e₂ = true ↔ LeadsBelow e₁.pagingToken e₂.pagingToken := by
  rw [h.current, shouldReplaceProjection_iff, EscrowEvent.key, EscrowEvent.key,
    Prod.Lex.toLex_lt_toLex, ← jsLt_numeral_iff h.token₁ h.token₂]
  simp [h.ledger]

theorem orNull_inj {s s' : String} (h : orNull s = orNull s') : s = s' := by
  rw [← orNull_getD s, ← orNull_getD s', h]

theorem SameLedger.at_second_iff (h : SameLedger checksum t d₁ d₂ e₁ e₂)
    (hne : e₁.pagingToken ≠ e₂.pagingToken) :
    At ((t.step checksum d₁).step checksum d₂) e₂ ↔ LeadsBelow e₁.pagingToken e₂.pagingToken := by
  have hstored := step_of_some (t := t.step checksum d₁) h.second
  cases hrep : shouldReplaceProjection d₂.asText (((t.step checksum d₁).projection.get
      e₂.invoiceId).map ProjectionRow.toProjection) e₂ with
  | true =>
    rw [At, hstored.replaced hrep, OrdMap.get_set_self]
    exact ⟨fun _ => h.replaces_iff.mp hrep, fun _ => rfl⟩
  | false =>
    have hnot : ¬ LeadsBelow e₁.pagingToken e₂.pagingToken := by
      rw [← h.replaces_iff, hrep]
      decide
    rw [At, hstored.retained hrep, h.current]
    refine ⟨fun hp => ?_, fun hl => absurd hl hnot⟩
    have htoken := congrArg Projection.latestPagingToken (Option.some.inj hp)
    exact absurd (orNull_inj htoken) hne

theorem SameLedger.at_first_of_not (h : SameLedger checksum t d₁ d₂ e₁ e₂)
    (hnot : ¬ LeadsBelow e₁.pagingToken e₂.pagingToken) :
    At ((t.step checksum d₁).step checksum d₂) e₁ := by
  have hret : shouldReplaceProjection d₂.asText (((t.step checksum d₁).projection.get
      e₂.invoiceId).map ProjectionRow.toProjection) e₂ = false := by
    rw [← Bool.not_eq_true, h.replaces_iff]
    exact hnot
  rw [At, (step_of_some h.second).retained hret, h.invoice]
  exact h.current

theorem leadsBelow_asymm {s s' : String} (h : LeadsBelow s s') : ¬ LeadsBelow s' s := by
  unfold LeadsBelow at h ⊢
  omega

theorem SameLedger.both_iff (h : SameLedger checksum t d₁ d₂ e₁ e₂)
    (hlt : numeralValue e₁.pagingToken < numeralValue e₂.pagingToken) :
    (At ((t.step checksum d₁).step checksum d₂) e₂ ∧ At ((t.step checksum d₂).step checksum d₁) e₂) ↔
      LeadsBelow e₁.pagingToken e₂.pagingToken := by
  have hne : e₁.pagingToken ≠ e₂.pagingToken := by
    intro he
    rw [he] at hlt
    exact lt_irrefl _ hlt
  constructor
  · intro hboth
    exact (h.at_second_iff hne).mp hboth.1
  · intro hleads
    exact ⟨(h.at_second_iff hne).mpr hleads, h.symm.at_first_of_not (leadsBelow_asymm hleads)⟩

/-- Two events of one ledger end up in chain order exactly when the greater token is also
the greater one with both filled up with zeros on the right to one length. -/
theorem follows_chain_iff (h : SameLedger checksum t d₁ d₂ e₁ e₂) :
    FollowsChain checksum t d₁ d₂ e₁ e₂ ↔
      (numeralValue e₁.pagingToken < numeralValue e₂.pagingToken →
        LeadsBelow e₁.pagingToken e₂.pagingToken) ∧
      (numeralValue e₂.pagingToken < numeralValue e₁.pagingToken →
        LeadsBelow e₂.pagingToken e₁.pagingToken) := by
  refine and_congr (imp_congr_right fun hlt => h.both_iff hlt) (imp_congr_right fun hlt => ?_)
  rw [and_comm]
  exact h.symm.both_iff hlt

end Two

def sampleToken (eventId token : String) : Delivery where
  raw := some {
    invoiceId := some "inv-1"
    eventId := some eventId
    eventType := some "funded"
    pagingToken := some token
    ledgerSequence := .ofNat 5
    contractId := none
    txHash := none
    eventBody := none
    observedAt := some "2026-01-01T00:00:00.000Z" }
  observed := "2026-01-01T00:00:00.000Z"
  written := 1
  asText := true

def sampleEvent (eventId token : String) : EscrowEvent where
  eventId := eventId
  invoiceId := "inv-1"
  eventType := "funded"
  ledgerSequence := 5
  pagingToken := token
  contractId := none
  txHash := none
  eventBody := .obj []
  observedAt := "2026-01-01T00:00:00.000Z"

theorem follows_chain_sample :
    FollowsChain (fun _ => none) .empty (sampleToken "a" "11") (sampleToken "b" "20")
      (sampleEvent "a" "11") (sampleEvent "b" "20") := by
  have hsame : SameLedger (fun _ => none) .empty (sampleToken "a" "11") (sampleToken "b" "20")
      (sampleEvent "a" "11") (sampleEvent "b" "20") :=
    ⟨by rfl, by rfl, rfl, rfl, isNumeral_repr 11, isNumeral_repr 20, fun row hrow => by cases hrow⟩
  refine (follows_chain_iff hsame).mpr ⟨fun _ => ?_, fun hlt => ?_⟩
  · decide
  · exact absurd hlt (by decide)

theorem nine_stays_before_ten : ¬ ∀ (checksum : String → Option Bool) (t : EscrowTables)
    (d₁ d₂ : Delivery) (e₁ e₂ : EscrowEvent), SameLedger checksum t d₁ d₂ e₁ e₂ →
    FollowsChain checksum t d₁ d₂ e₁ e₂ := by
  intro h
  have hsame : SameLedger (fun _ => none) .empty (sampleToken "a" "9") (sampleToken "b" "10")
      (sampleEvent "a" "9") (sampleEvent "b" "10") :=
    ⟨by rfl, by rfl, rfl, rfl, isNumeral_repr 9, isNumeral_repr 10, fun row hrow => by cases hrow⟩
  have hshown := ((h _ _ _ _ _ _ hsame).1 (by decide)).1
  have hid := congrArg (Option.map Projection.latestEventId) hshown
  exact absurd hid (by decide)

end Liquifact.Jobs
