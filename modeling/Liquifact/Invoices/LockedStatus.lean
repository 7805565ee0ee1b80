import Liquifact.Invoices.InvoiceService

/-!
# Locked invoices under interleaving

`updateInvoice` and `deleteInvoice` read the status in one statement and write in a second
one whose `WHERE` names the invoice and the tenant, not the status. A run interleaves the
statements of any such calls with other writers that set the status of a row.

`writes` records, statement by statement, the status each row was given; a call in its
second half remembers the statuses it could read and how many statements had written then.
-/

namespace Liquifact.Invoices
open Liquifact.Lib

/-- The calls that are checked against the locked statuses. -/
inductive Modifier where
  | update (id : String) (updates : List (String × JsValue)) (tenantId : String)
  | delete (id tenantId : String)

namespace Modifier

def id : Modifier → String
  | .update id _ _ => id
  | .delete id _ => id

def tenantId : Modifier → String
  | .update _ _ tenantId => tenantId
  | .delete _ tenantId => tenantId

def participle : Modifier → String
  | .update _ _ _ => "modified"
  | .delete _ _ => "deleted"

def entries : Modifier → List (String × JsValue)
  | .update _ updates _ => patched updates
  | .delete _ _ => []

def stamp : Modifier → Column
  | .update _ _ _ => .updatedAt
  | .delete _ _ => .deletedAt

def addresses (m : Modifier) (r : Row) : Bool := owned m.tenantId m.id r

end Modifier

inductive ModifyPhase where
  | called
  | read (seen : ℕ → SqlValue) (since : ℕ)
  | written
  | finished (answer : Answer)

structure Contended (π : Type) (schema : Schema) where
  table : InvoiceTable schema
  phase : π → ModifyPhase
  writes : List (ℕ → Option SqlValue)

/-- The next statement of a call, or a statement by which another writer sets the status of
the rows it selects. -/
inductive ContendedAct (π : Type) where
  | advance (p : π) (env : Env)
  | setStatus (selects : Row → Bool) (status : SqlValue)

def statusOf (rows : List Row) (i : ℕ) : SqlValue := ((rows[i]?).map fun r => r .status).getD .null

/- The status an `UPDATE` gives to row `i`, if it gives it one. -/
def wrote (rows : List Row) (selects : Row → Bool) (set : List (Column × SqlValue)) (i : ℕ) :
    Option SqlValue :=
  (rows[i]?).bind fun r => if selects r then assigned set .status else none

/- The status the last of these statements gave the row. -/
def lastWritten (writes : List (ℕ → Option SqlValue)) (i : ℕ) : Option SqlValue :=
  writes.foldl (fun last w => (w i).or last) none

theorem statusOf_updateWhere (rows : List Row) (selects : Row → Bool)
    (set : List (Column × SqlValue)) (i : ℕ) :
    statusOf (updateWhere selects (fun r => r.set set) rows) i =
      (wrote rows selects set i).getD (statusOf rows i) := by
  unfold statusOf wrote updateWhere
  rw [List.getElem?_map]
  cases rows[i]? with
  | none => rfl
  | some r =>
    simp only [Option.map_some, Option.getD_some, Option.bind_some]
    split
    · rfl
    · rfl

theorem lastWritten_append (writes : List (ℕ → Option SqlValue)) (w : ℕ → Option SqlValue) (i : ℕ) :
    lastWritten (writes ++ [w]) i = (w i).or (lastWritten writes i) := by
  unfold lastWritten
  rw [List.foldl_append]
  rfl

section Model
variable {π : Type} [DecidableEq π] {schema : Schema} (calls : π → Modifier)

def setStatus (t : InvoiceTable schema) (selects : Row → Bool) (status : SqlValue) :
    InvoiceTable schema where
  rows := updateWhere selects (fun r => r.set [(.status, status)]) t.rows
  holds := by
    unfold Schema.Holds
    rw [updateWhere_map_column rfl, updateWhere_map_column rfl]
    exact t.holds

namespace Contended

def start (t : InvoiceTable schema) : Contended π schema := ⟨t, fun _ => .called, []⟩

def enter (s : Contended π schema) (p : π) (ph : ModifyPhase) : Contended π schema :=
  { s with phase := Function.update s.phase p ph }

def lookup (s : Contended π schema) (p : π) : Contended π schema :=
  match existingInvoice s.table (calls p).id (calls p).tenantId (calls p).participle with
  | .error e => s.enter p (.finished (.error e))
  | .ok none => s.enter p (.finished (.ok (.row none)))
  | .ok (some _) => s.enter p (.read (statusOf s.table.rows) s.writes.length)

def write (s : Contended π schema) (p : π) (env : Env) : Contended π schema :=
  match schema.written (calls p).entries (calls p).stamp env.now with
  | .error e => s.enter p (.finished (.error (.db e)))
  | .ok set =>
    match writeInvoice s.table (calls p).id (calls p).tenantId set with
    | .error e => s.enter p (.finished (.error (.db e)))
    | .ok t' =>
      { table := t'
        phase := Function.update s.phase p (if env.returnsRows then
          .finished (.ok (.row (writtenRow s.table t' (calls p).id (calls p).tenantId set env)))
          else .written)
        writes := s.writes ++ [wrote s.table.rows (calls p).addresses set] }

def refetch (s : Contended π schema) (p : π) : Contended π schema :=
  s.enter p (.finished (.ok (.row (s.table.rows.find? (calls p).addresses))))

def step (s : Contended π schema) (a : ContendedAct π) : Contended π schema :=
  match a with
  | .setStatus selects status =>
    { table := setStatus s.table selects status
      phase := s.phase
      writes := s.writes ++ [wrote s.table.rows selects [(.status, status)]] }
  | .advance p env =>
    match s.phase p with
    | .called => s.lookup calls p
    | .read _ _ => s.write calls p env
    | .written => s.refetch calls p
    | .finished _ => s

/- The call stands before its `UPDATE`, and the database accepts it. -/
def TakesEffect (s : Contended π schema) (p : π) (env : Env) : Prop :=
  ∃ set t', schema.written (calls p).entries (calls p).stamp env.now = .ok set ∧
    writeInvoice s.table (calls p).id (calls p).tenantId set = .ok t'

/-- No row that the `UPDATE` changes is locked at that moment. -/
def Frozen (s : Contended π schema) (a : ContendedAct π) : Prop :=
  ∀ p env seen since, a = .advance p env → s.phase p = .read seen since →
    s.TakesEffect calls p env →
    ∀ r ∈ s.table.rows, (calls p).addresses r = true → lockedStatus (r .status) = none

/- The writes since a call's read lead from what it saw to what there is. -/
def Traced (s : Contended π schema) : Prop :=
  ∀ p seen since, s.phase p = .read seen since → since ≤ s.writes.length ∧
    ∀ i, statusOf s.table.rows i = (lastWritten (s.writes.drop since) i).getD (seen i)

end Contended

end Model

section Traces
variable {π : Type} {schema : Schema} {calls : π → Modifier} {s : Contended π schema}

/- An `UPDATE` and its record; calls that are in their second half stay so. -/
theorem Contended.Traced.statement (h : s.Traced) {t : InvoiceTable schema} {selects : Row → Bool}
    {set : List (Column × SqlValue)} {phase : π → ModifyPhase}
    (ht : t.rows = updateWhere selects (fun r => r.set set) s.table.rows)
    (hphase : ∀ q seen since, phase q = .read seen since → s.phase q = .read seen since) :
    Contended.Traced ⟨t, phase, s.writes ++ [wrote s.table.rows selects set]⟩ := by
  intro q seen since hq
  obtain ⟨hle, htrace⟩ := h q seen since (hphase q seen since hq)
  refine ⟨by simpa using Nat.le_succ_of_le hle, fun i => ?_⟩
  show statusOf t.rows i = _
  rw [ht, statusOf_updateWhere, htrace i, List.drop_append_of_le_length hle, lastWritten_append]
  cases wrote s.table.rows selects set i with
  | none => rfl
  | some v => rfl

variable [DecidableEq π]

theorem Contended.Traced.enter (h : s.Traced) (p : π) {ph : ModifyPhase}
    (hph : ∀ seen since, ph = .read seen since →
      seen = statusOf s.table.rows ∧ since = s.writes.length) : (s.enter p ph).Traced := by
  intro q seen since hphase
  unfold Contended.enter at hphase ⊢
  by_cases hqp : q = p
  · subst hqp
    obtain ⟨rfl, rfl⟩ := hph seen since (by simpa using hphase)
    refine ⟨le_rfl, fun i => ?_⟩
    rw [List.drop_length]
    rfl
  · exact h q seen since (by simpa [Function.update_of_ne hqp] using hphase)

theorem Contended.Traced.step (h : s.Traced) (a : ContendedAct π) : (s.step calls a).Traced := by
  unfold Contended.step
  cases a with
  | setStatus selects status => exact h.statement rfl (fun _ _ _ hq => hq)
  | advance p env =>
    dsimp only
    cases hphase : s.phase p with
    | called =>
      dsimp only [Contended.lookup]
      split
      · exact h.enter p (by rintro _ _ ⟨⟩)
      · exact h.enter p (by rintro _ _ ⟨⟩)
      · refine h.enter p ?_
        rintro _ _ ⟨⟩
        exact ⟨rfl, rfl⟩
    | read seen since =>
      dsimp only [Contended.write]
      split
      · exact h.enter p (by rintro _ _ ⟨⟩)
      · split
        · exact h.enter p (by rintro _ _ ⟨⟩)
        · rename_i set hset t' hwrite
          refine h.statement (commit_ok hwrite) ?_
          intro q seen' since' hq
          by_cases hqp : q = p
          · subst hqp
            rw [Function.update_self] at hq
            split at hq
            · cases hq
            · cases hq
          · rwa [Function.update_of_ne hqp] at hq
    | written => exact h.enter p (by rintro _ _ ⟨⟩)
    | finished answer => exact h

end Traces

end Liquifact.Invoices
