import Liquifact.Jobs.EscrowProjection
import Mathlib.Data.Fintype.Basic

/-!
# Several indexers on one database (`src/jobs/escrowIndexer.js:200-309`)

The statements of `persistEscrowEvent`, one at a time and in any order between the
processes. Isolation is read committed: a statement sees what is committed when it runs,
a second writer of a key waits for the first, and an abandoned transaction leaves
nothing. `findProjection` runs on a connection of its own, outside the transaction, and
takes no lock, so the row may have moved on when the upsert that it decided runs.
-/

namespace Liquifact.Jobs
open Liquifact.Lib

/- How far the transaction of a process has come; `fresh` says that its insert met no row
of that identifier, so that a row of its own waits for the commit. -/
inductive Phase where
  | idle
  | begun (d : Delivery) (e : EscrowEvent)
  | inserted (d : Delivery) (e : EscrowEvent) (fresh : Bool)
  | found (d : Delivery) (e : EscrowEvent) (fresh : Bool) (current : Option Projection)
  | upserted (d : Delivery) (e : EscrowEvent) (fresh : Bool)

/- The identifier under which a transaction holds an uncommitted row of the log. -/
def Phase.eventLock : Phase → Option String
  | .inserted _ e true | .found _ e true _ | .upserted _ e true => some e.eventId
  | _ => none

def Phase.projectionLock : Phase → Option String
  | .upserted _ e _ => some e.invoiceId
  | _ => none

/- `persisted` lists the events whose transactions have committed. -/
structure Indexers (π : Type) where
  tables : EscrowTables
  phase : π → Phase
  persisted : List EscrowEvent

inductive Action where
  | start (d : Delivery)
  | advance
  | giveUp

section Model
variable {π : Type} [DecidableEq π]

def Indexers.start : Indexers π := ⟨.empty, fun _ => .idle, []⟩

def Indexers.enter (s : Indexers π) (p : π) (ph : Phase) : Indexers π :=
  { s with phase := Function.update s.phase p ph }

def insertFresh (t : EscrowTables) (e : EscrowEvent) (fresh : Bool) (now : ℕ) : EscrowTables :=
  if fresh then { t with events := t.events.set e.eventId (eventRowOf e now) } else t

def Indexers.commit (s : Indexers π) (p : π) (e : EscrowEvent) (t : EscrowTables) : Indexers π where
  tables := t
  phase := Function.update s.phase p .idle
  persisted := s.persisted ++ [e]

/- The next statement of a process; one that has to wait for a lock does nothing yet. -/
def Indexers.advance [Fintype π] (s : Indexers π) (p : π) : Indexers π :=
  match s.phase p with
  | .idle => s
  | .begun d e =>
    if 2 ^ 63 ≤ e.ledgerSequence then s.enter p .idle
    else if ∃ q, q ≠ p ∧ (s.phase q).eventLock = some e.eventId then s
    else s.enter p (.inserted d e (!s.tables.events.has e.eventId))
  | .inserted d e fresh =>
    s.enter p (.found d e fresh
      ((s.tables.projection.get e.invoiceId).map ProjectionRow.toProjection))
  | .found d e fresh current =>
    if shouldReplaceProjection d.asText current e then
      if ∃ q, q ≠ p ∧ (s.phase q).projectionLock = some e.invoiceId then s
      else s.enter p (.upserted d e fresh)
    else s.commit p e (insertFresh s.tables e fresh d.written)
  | .upserted d e fresh =>
    s.commit p e (upsertProjection (insertFresh s.tables e fresh d.written) e d.written)

def Indexers.step [Fintype π] (checksum : String → Option Bool) (s : Indexers π) (a : π × Action) :
    Indexers π :=
  match a.2 with
  | .start d =>
    match s.phase a.1, normalizeEvent checksum d.observed d.raw with
    | .idle, .ok e => s.enter a.1 (.begun d e)
    | _, _ => s
  | .advance => s.advance a.1
  | .giveUp => s.enter a.1 .idle

end Model

/-! ### What is asked of the projection -/

def Forward (t t' : EscrowTables) : Prop :=
  ∀ inv row, t.projection.get inv = some row →
    ∃ row', t'.projection.get inv = some row' ∧ row.toProjection.key ≤ row'.toProjection.key

section Properties
variable {π : Type}

/- The rows are the greatest committed events, and a transaction that has decided not to
replace the row is not ahead of it. -/
structure Indexers.Current (s : Indexers π) : Prop where
  row : ∀ inv row, s.tables.projection.get inv = some row → ∃ e,
    row.toProjection = projectionOf e ∧ IsLatest EscrowEvent.key (ofInvoice inv s.persisted) e
  absent : ∀ inv, s.tables.projection.get inv = none → ofInvoice inv s.persisted = []
  behind : ∀ p d e fresh current, s.phase p = .found d e fresh current →
    shouldReplaceProjection d.asText current e = false →
    ∃ row, s.tables.projection.get e.invoiceId = some row ∧ e.key ≤ row.toProjection.key

variable {s : Indexers π}

/- The decisions of the other processes outlive a step that moves no row back. -/
theorem Indexers.Current.behind_of_forward {p : π} {d : Delivery} {e : EscrowEvent} {fresh : Bool}
    {current : Option Projection} {t : EscrowTables} (h : s.Current) (hforward : Forward s.tables t)
    (hphase : s.phase p = .found d e fresh current)
    (hold : shouldReplaceProjection d.asText current e = false) :
    ∃ row, t.projection.get e.invoiceId = some row ∧ e.key ≤ row.toProjection.key := by
  obtain ⟨row, hrow, hle⟩ := h.behind p d e fresh current hphase hold
  obtain ⟨row', hrow', hle'⟩ := hforward e.invoiceId row hrow
  exact ⟨row', hrow', hle.trans hle'⟩

end Properties

section Steps
variable {π : Type} [DecidableEq π]

/- What a step can do: nothing, move a process to a phase without touching the tables, or
commit, with the projection kept or replaced. -/
inductive Indexers.Effect (s : Indexers π) (a : π × Action) : Indexers π → Prop
  | waits : Effect s a s
  | moves (ph : Phase)
      (read : ∀ d e fresh current, ph = .found d e fresh current →
        current = (s.tables.projection.get e.invoiceId).map ProjectionRow.toProjection) :
      Effect s a (s.enter a.1 ph)
  | keeps (d : Delivery) (e : EscrowEvent) (fresh : Bool) (current : Option Projection)
      (hphase : s.phase a.1 = .found d e fresh current)
      (hold : shouldReplaceProjection d.asText current e = false) :
      Effect s a (s.commit a.1 e (insertFresh s.tables e fresh d.written))
  | replaces (d : Delivery) (e : EscrowEvent) (fresh : Bool)
      (hact : a.2 = .advance) (hphase : s.phase a.1 = .upserted d e fresh) :
      Effect s a (s.commit a.1 e
        (upsertProjection (insertFresh s.tables e fresh d.written) e d.written))

theorem advance_effect [Fintype π] (s : Indexers π) (a : π × Action) (hact : a.2 = .advance) :
    s.Effect a (s.advance a.1) := by
  unfold Indexers.advance
  cases hphase : s.phase a.1 with
  | idle => exact .waits
  | begun d e =>
    dsimp only
    split
    · exact .moves _ (by rintro _ _ _ _ ⟨⟩)
    · split
      · exact .waits
      · exact .moves _ (by rintro _ _ _ _ ⟨⟩)
  | inserted d e fresh => exact .moves _ (by rintro _ _ _ _ ⟨⟩; rfl)
  | found d e fresh current =>
    dsimp only
    split
    · split
      · exact .waits
      · exact .moves _ (by rintro _ _ _ _ ⟨⟩)
    · rename_i hold
      exact .keeps d e fresh current hphase (by simpa using hold)
  | upserted d e fresh => exact .replaces d e fresh hact hphase

theorem step_effect [Fintype π] (checksum : String → Option Bool) (s : Indexers π) (a : π × Action) :
    s.Effect a (s.step checksum a) := by
  unfold Indexers.step
  split
  · split
    · exact .moves _ (by rintro _ _ _ _ ⟨⟩)
    · exact .waits
  · rename_i hact
    exact advance_effect s a hact
  · exact .moves _ (by rintro _ _ _ _ ⟨⟩)

@[simp] theorem insertFresh_projection (t : EscrowTables) (e : EscrowEvent) (fresh : Bool) (now : ℕ) :
    (insertFresh t e fresh now).projection = t.projection := by
  unfold insertFresh
  split
  · rfl
  · rfl

/-! ### One step -/

variable {s s' : Indexers π} {a : π × Action}

theorem Indexers.Current.commit_behind {p q : π} {e e' : EscrowEvent} {t : EscrowTables}
    {d : Delivery} {fresh : Bool} {current : Option Projection}
    (h : s.Current) (hforward : Forward s.tables t)
    (hphase : (s.commit p e' t).phase q = .found d e fresh current)
    (hold : shouldReplaceProjection d.asText current e = false) :
    ∃ row, t.projection.get e.invoiceId = some row ∧ e.key ≤ row.toProjection.key := by
  simp only [Indexers.commit, Function.update_apply] at hphase
  split at hphase
  · cases hphase
  · exact h.behind_of_forward hforward hphase hold

theorem Indexers.Current.moves {ph : Phase} {p : π} (h : s.Current)
    (read : ∀ d e fresh current, ph = .found d e fresh current →
      current = (s.tables.projection.get e.invoiceId).map ProjectionRow.toProjection) :
    (s.enter p ph).Current := by
  refine ⟨h.row, h.absent, ?_⟩
  intro q d e fresh current hphase hold
  simp only [Indexers.enter, Function.update_apply] at hphase
  split at hphase
  · have hread := read d e fresh current hphase
    show ∃ row, s.tables.projection.get e.invoiceId = some row ∧ _
    cases hget : s.tables.projection.get e.invoiceId with
    | none =>
      rw [hread, hget] at hold
      cases hold
    | some row =>
      rw [hread, hget, Option.map_some, Bool.eq_false_iff, Ne, shouldReplaceProjection_some,
        not_lt] at hold
      exact ⟨row, rfl, hold⟩
  · exact h.behind q d e fresh current hphase hold

theorem Indexers.Current.keeps {p : π} {d : Delivery} {e : EscrowEvent} {fresh : Bool}
    {current : Option Projection} (h : s.Current) (hphase : s.phase p = .found d e fresh current)
    (hold : shouldReplaceProjection d.asText current e = false)
    (hforward : Forward s.tables (insertFresh s.tables e fresh d.written)) :
    (s.commit p e (insertFresh s.tables e fresh d.written)).Current := by
  obtain ⟨shown, hshown, hle⟩ := h.behind p d e fresh current hphase hold
  refine ⟨?_, ?_, fun q d' e' fresh' current' => h.commit_behind hforward⟩
  · intro inv row hrow
    rw [Indexers.commit, insertFresh_projection] at hrow
    obtain ⟨c, hc, hlatest⟩ := h.row inv row hrow
    refine ⟨c, hc, ?_⟩
    rw [Indexers.commit, ofInvoice_append]
    split
    · rename_i hinv
      subst hinv
      rw [hrow] at hshown
      cases hshown
      rw [hc, projectionOf_key] at hle
      exact hlatest.append _ hle
    · exact hlatest
  · intro inv hnone
    rw [Indexers.commit, insertFresh_projection] at hnone
    rw [Indexers.commit, ofInvoice_append, if_neg]
    · exact h.absent inv hnone
    · intro hinv
      rw [← hinv, hshown] at hnone
      cases hnone

theorem Indexers.Current.replaces {p : π} {d : Delivery} {e : EscrowEvent} {fresh : Bool}
    (h : s.Current) (hok : ∀ row, s.tables.projection.get e.invoiceId = some row →
      row.toProjection.key ≤ e.key)
    (hforward : Forward s.tables
      (upsertProjection (insertFresh s.tables e fresh d.written) e d.written)) :
    (s.commit p e
      (upsertProjection (insertFresh s.tables e fresh d.written) e d.written)).Current := by
  refine ⟨?_, ?_, fun q d' e' fresh' current' => h.commit_behind hforward⟩
  · intro inv row hrow
    simp only [Indexers.commit, upsertProjection, insertFresh_projection, OrdMap.get_set] at hrow
    rw [Indexers.commit, ofInvoice_append]
    split
    · rename_i hinv
      rw [if_pos hinv] at hrow
      cases hrow
      refine ⟨e, rfl, isLatest_append_self _ ?_⟩
      intro b hb
      subst hinv
      cases hget : s.tables.projection.get e.invoiceId with
      | none =>
        rw [h.absent _ hget] at hb
        cases hb
      | some shown =>
        obtain ⟨c, hc, hlatest⟩ := h.row _ shown hget
        have hle := hok shown hget
        rw [hc, projectionOf_key] at hle
        exact (hlatest.2 b hb).trans hle
    · rename_i hinv
      rw [if_neg hinv] at hrow
      exact h.row inv row hrow
  · intro inv hnone
    simp only [Indexers.commit, upsertProjection, insertFresh_projection, OrdMap.get_set] at hnone
    rw [Indexers.commit, ofInvoice_append]
    split at hnone
    · cases hnone
    · rename_i hinv
      rw [if_neg hinv]
      exact h.absent inv hnone

end Steps

end Liquifact.Jobs
