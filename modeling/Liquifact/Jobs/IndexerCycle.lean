import Liquifact.Jobs.EscrowProjection

/-!
# The polling cycle and its cursor (`src/jobs/escrowIndexer.js:384-412`)

A cycle loads the cursor, fetches a batch, persists its events one by one and saves the
next cursor. Every error of an event, a refused one as well as a failed transaction, is
caught and counted as skipped, and the cursor moves past the whole batch.
`createEscrowIndexer` (421-518) runs one cycle after another: a call made while one is
running returns at once.
-/

namespace Liquifact.Jobs
open Liquifact.Lib

/- One event of a batch. `failure` is the error with which the database ends its
transaction, if it does; such a transaction leaves no trace. -/
structure Attempt extends Delivery where
  failure : Option String

structure Batch where
  events : List Attempt
  nextCursor : Option String

/- What one cycle meets: each call to the outside may throw. -/
structure Cycle where
  loadError : Option String
  fetched : Except String Batch
  saveError : Option String

structure IndexerState where
  tables : EscrowTables
  horizonCursor : Option String

structure Summary where
  processed : ℕ
  skipped : ℕ
  cursorBefore : Option String
  cursorAfter : Option String

/- The state of the batch loop. -/
structure Progress where
  tables : EscrowTables
  processed : ℕ
  skipped : ℕ

def succeeds (error : Option String) : Except String Unit :=
  match error with
  | none => .ok ()
  | some message => .error message

section Model
variable (checksum : String → Option Bool)

def Attempt.persist (t : EscrowTables) (a : Attempt) : Except String EscrowTables := do
  let (_, t') ← persistEscrowEvent checksum t a.toDelivery
  succeeds a.failure
  .ok t'

def Progress.persistNext (p : Progress) (a : Attempt) : Progress :=
  match a.persist checksum p.tables with
  | .ok t' => ⟨t', p.processed + 1, p.skipped⟩
  | .error _ => ⟨p.tables, p.processed, p.skipped + 1⟩

def Batch.persistAll (b : Batch) (t : EscrowTables) : Progress :=
  run (Progress.persistNext checksum) ⟨t, 0, 0⟩ b.events

/- The cursor the cycle saves, if it saves one. -/
def Batch.cursorToSave (b : Batch) (cursor : Option String) : Option String :=
  match truthy b.nextCursor with
  | none => none
  | some next => if some next = cursor then none else some next

/-- `runEscrowIndexerCycle` (`escrowIndexer.js:384-412`). The rows written before a throw
stay, so the state is returned in both cases. -/
def runEscrowIndexerCycle (s : IndexerState) (c : Cycle) :
    IndexerState × Except String Summary :=
  match succeeds c.loadError, c.fetched with
  | .error m, _ => (s, .error m)
  | .ok _, .error m => (s, .error m)
  | .ok _, .ok batch =>
    let cursor := s.horizonCursor
    let done := batch.persistAll checksum s.tables
    let summary : Summary := {
      processed := done.processed
      skipped := done.skipped
      cursorBefore := cursor
      cursorAfter := (truthy batch.nextCursor).or (truthy cursor) }
    match batch.cursorToSave cursor with
    | none => (⟨done.tables, cursor⟩, .ok summary)
    | some next =>
      match succeeds c.saveError with
      | .error m => (⟨done.tables, cursor⟩, .error m)
      | .ok _ => (⟨done.tables, some next⟩, .ok summary)

def IndexerState.step (s : IndexerState) (c : Cycle) : IndexerState :=
  (runEscrowIndexerCycle checksum s c).1

/- The batch whose cursor the cycle saves when it starts at the cursor given. -/
def Cycle.saves (c : Cycle) (cursor : Option String) : Option Batch :=
  match c.loadError, c.fetched, c.saveError with
  | none, .ok batch, none => if (batch.cursorToSave cursor).isSome then some batch else none
  | _, _, _ => none

/- The event the attempt commits: `normalizeEvent` accepts it, the columns take it and the
transaction does not fail. -/
def Attempt.commits (a : Attempt) : Option EscrowEvent :=
  match a.failure with
  | none => a.toDelivery.event checksum
  | some _ => none

def accepted (a : Attempt) (e : EscrowEvent) : Prop :=
  normalizeEvent checksum a.observed a.raw = .ok e

/-! ### What a batch leaves in the log -/

variable {checksum}

theorem persist_of_commits {t : EscrowTables} {a : Attempt} {e : EscrowEvent}
    (h : a.commits checksum = some e) :
    a.persist checksum t = .ok (t.step checksum a.toDelivery) := by
  unfold Attempt.commits at h
  cases hf : a.failure with
  | some m =>
    simp only [hf] at h
    cases h
  | none =>
    simp only [hf] at h
    obtain ⟨t', -, hp⟩ := persist_of_some (t := t) h
    simp only [Attempt.persist, EscrowTables.step, hp, hf, succeeds, bind, Except.bind]

theorem persist_of_not_commits {t : EscrowTables} {a : Attempt} (h : a.commits checksum = none) :
    ∃ m, a.persist checksum t = .error m := by
  unfold Attempt.commits at h
  cases hp : persistEscrowEvent checksum t a.toDelivery with
  | error m => exact ⟨m, by simp only [Attempt.persist, hp, bind, Except.bind]⟩
  | ok r =>
    cases hf : a.failure with
    | some m => exact ⟨m, by simp only [Attempt.persist, hp, hf, succeeds, bind, Except.bind]⟩
    | none =>
      simp only [hf] at h
      obtain ⟨m, hm⟩ := persist_of_none (t := t) h
      rw [hm] at hp
      cases hp

theorem persistNext_has (p : Progress) (a : Attempt) (x : String) :
    (p.persistNext checksum a).tables.events.has x = true ↔
      p.tables.events.has x = true ∨ ∃ e, a.commits checksum = some e ∧ e.eventId = x := by
  unfold Progress.persistNext
  cases hc : a.commits checksum with
  | none =>
    obtain ⟨m, hm⟩ := persist_of_not_commits (t := p.tables) hc
    simp [hm]
  | some e =>
    have he : a.toDelivery.event checksum = some e := by
      unfold Attempt.commits at hc
      split at hc
      · exact hc
      · cases hc
    rw [persist_of_commits hc]
    simp [step_has he]

/- The log after a batch: what was there and what the batch committed. -/
theorem run_persistNext_has (p : Progress) (as : List Attempt) (x : String) :
    (run (Progress.persistNext checksum) p as).tables.events.has x = true ↔
      p.tables.events.has x = true ∨
        ∃ a ∈ as, ∃ e, a.commits checksum = some e ∧ e.eventId = x := by
  induction as generalizing p with
  | nil => simp [run]
  | cons a as ih =>
    rw [run_cons, ih, persistNext_has, or_assoc]
    simp

/-! ### What a cycle does -/

theorem step_tables_of_saves {s : IndexerState} {c : Cycle} {b : Batch}
    (h : c.saves s.horizonCursor = some b) :
    (s.step checksum c).tables = (b.persistAll checksum s.tables).tables := by
  unfold Cycle.saves at h
  split at h
  · rename_i batch hload hfetch hsave
    split at h
    · rename_i hsome
      cases h
      obtain ⟨next, hnext⟩ := Option.isSome_iff_exists.mp hsome
      simp only [IndexerState.step, runEscrowIndexerCycle, hload, hfetch, hsave, hnext, succeeds]
    · cases h
  · cases h

theorem step_tables (checksum : String → Option Bool) (s : IndexerState) (c : Cycle) :
    (s.step checksum c).tables = s.tables ∨
    ∃ b : Batch, (s.step checksum c).tables = (b.persistAll checksum s.tables).tables := by
  unfold IndexerState.step runEscrowIndexerCycle
  cases hload : c.loadError with
  | some m => exact .inl rfl
  | none =>
    cases hfetch : c.fetched with
    | error m => exact .inl rfl
    | ok b =>
      refine .inr ⟨b, ?_⟩
      cases hnext : b.cursorToSave s.horizonCursor with
      | none => simp only [succeeds, hnext]
      | some next => cases hsave : c.saveError <;> simp only [succeeds, hnext]

/- A cycle, saved or not, failed or not, takes no row away. -/
theorem step_keeps_events (s : IndexerState) (c : Cycle) (x : String)
    (h : s.tables.events.has x = true) : (s.step checksum c).tables.events.has x = true := by
  rcases step_tables checksum s c with heq | ⟨b, heq⟩
  · rw [heq]
    exact h
  · rw [heq]
    exact (run_persistNext_has _ b.events x).mpr (.inl h)

theorem run_keeps_events (s : IndexerState) (cs : List Cycle) (x : String)
    (h : s.tables.events.has x = true) :
    (run (IndexerState.step checksum) s cs).tables.events.has x = true := by
  refine run_keeps (IndexerState.step checksum) (fun u => u.tables.events.has x = true) ?_ s cs h
  intro u c hu
  exact step_keeps_events u c x hu

end Model

/- Nothing is lost: once a cycle of the run has saved its cursor, each event of its batch
that `normalizeEvent` accepts is in the log, then and in every later state. -/
def SavedStored (checksum : String → Option Bool) (s : IndexerState) (cs : List Cycle) : Prop :=
  ∀ pre c mid post batch, cs = pre ++ c :: (mid ++ post) →
    c.saves (run (IndexerState.step checksum) s pre).horizonCursor = some batch →
    ∀ a ∈ batch.events, ∀ e, accepted checksum a e →
      (run (IndexerState.step checksum) s (pre ++ c :: mid)).tables.events.has e.eventId = true

/- In a cycle that saves its cursor, each accepted event was in the log before, or some
delivery of it in the batch does not fail. -/
def SavedCommitted (checksum : String → Option Bool) (s : IndexerState) (cs : List Cycle) : Prop :=
  ∀ pre c post batch, cs = pre ++ c :: post →
    c.saves (run (IndexerState.step checksum) s pre).horizonCursor = some batch →
    ∀ a ∈ batch.events, ∀ e, accepted checksum a e →
      (run (IndexerState.step checksum) s pre).tables.events.has e.eventId = true ∨
      ∃ a' ∈ batch.events, ∃ e', a'.commits checksum = some e' ∧ e'.eventId = e.eventId

/-- In every run of cycles, the saved cursors leave no accepted event behind exactly when no
saving cycle has an accepted event that is new and whose every transaction fails. -/
theorem savedStored_iff (checksum : String → Option Bool) (s : IndexerState) (cs : List Cycle) :
    SavedStored checksum s cs ↔ SavedCommitted checksum s cs := by
  have hafter : ∀ pre c batch,
      c.saves (run (IndexerState.step checksum) s pre).horizonCursor = some batch → ∀ x,
      ((run (IndexerState.step checksum) s (pre ++ [c])).tables.events.has x = true ↔
        (run (IndexerState.step checksum) s pre).tables.events.has x = true ∨
        ∃ a' ∈ batch.events, ∃ e', a'.commits checksum = some e' ∧ e'.eventId = x) := by
    intro pre c batch hsaves x
    rw [run_append]
    show (IndexerState.step checksum _ c).tables.events.has x = true ↔ _
    rw [step_tables_of_saves hsaves]
    exact run_persistNext_has _ batch.events x
  constructor
  · intro h pre c post batch hcs hsaves a ha e he
    have hnow := h pre c [] post batch (by simpa using hcs) hsaves a ha e he
    exact (hafter pre c batch hsaves e.eventId).mp hnow
  · intro h pre c mid post batch hcs hsaves a ha e he
    have hnow := (hafter pre c batch hsaves e.eventId).mpr
      (h pre c (mid ++ post) batch hcs hsaves a ha e he)
    rw [show pre ++ c :: mid = (pre ++ [c]) ++ mid by simp, run_append]
    exact run_keeps_events _ mid _ hnow

/- One valid event whose transaction the database gives up. -/
def lossyCycle : Cycle where
  loadError := none
  fetched := .ok ⟨[⟨sampleDelivery 1, some "Connection terminated unexpectedly"⟩], some "7"⟩
  saveError := none

theorem savedStored_fails : ¬ SavedStored (fun _ => none) ⟨.empty, none⟩ [lossyCycle] := by
  intro h
  have hlost := h [] lossyCycle [] [] _ rfl rfl _ (List.mem_singleton_self _)
    _ (by unfold accepted; rfl)
  exact absurd hlost (by decide)

end Liquifact.Jobs
