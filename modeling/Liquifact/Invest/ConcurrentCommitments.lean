import Liquifact.Invest.InvestorCommitment

/-!
# Calls of `persistCommitment` that overlap

`persistCommitment` (152-195 of `src/services/investorCommitment.js`) is two statements, the
lookup of the idempotency key and the insertion, with nothing that holds the two together
but the unique index of the migration: an insertion under a stored key is refused. The
index is on the stored value, so that a `NULL` key never collides and an empty one does.

A run interleaves the statements of any calls; the identifier the database draws for a row
comes with the action.
-/

namespace Liquifact.Invest
open Liquifact.Lib

/- `VARCHAR` widths of the migration. -/
def Commitment.fits (c : Commitment) : Bool :=
  c.invoiceId.length ≤ 64 && c.investorAddress.length ≤ 60 && c.escrowAddress.length ≤ 60 &&
    c.amountStroops.length ≤ 30 && (c.txHash.getD "").length ≤ 64 &&
    (c.ledger.getD "").length ≤ 20 && (c.idempotencyKey.getD "").length ≤ 64

structure CommitmentTable where
  rows : List CommitmentRow
  unique : (rows.filterMap fun row => row.idempotencyKey).Nodup

inductive PersistError where
  | invalid (e : CommitmentValidationError)
  | valueTooLong
  | duplicateKey

namespace CommitmentTable

def keys (t : CommitmentTable) : List String := t.rows.filterMap fun row => row.idempotencyKey

theorem nodup_keys_append {rows : List CommitmentRow} {row : CommitmentRow}
    (h : (rows.filterMap fun row => row.idempotencyKey).Nodup)
    (hnew : ∀ key ∈ row.idempotencyKey, key ∉ rows.filterMap fun row => row.idempotencyKey) :
    ((rows ++ [row]).filterMap fun row => row.idempotencyKey).Nodup := by
  rw [List.filterMap_append]
  cases hkey : row.idempotencyKey with
  | none => simpa [hkey] using h
  | some key =>
    rw [hkey] at hnew
    have hsingle : List.filterMap (fun row : CommitmentRow => row.idempotencyKey) [row] = [key] := by
      simp [hkey]
    rw [hsingle]
    refine List.nodup_append.mpr ⟨h, List.nodup_singleton _, ?_⟩
    intro a ha b hb
    rw [List.mem_singleton.mp hb]
    exact fun heq => hnew key rfl (heq ▸ ha)

def insert (t : CommitmentTable) (uuid : String) (c : Commitment) :
    Except PersistError (CommitmentRow × CommitmentTable) :=
  if ¬ c.fits then .error .valueTooLong
  else if hnew : ∀ key ∈ c.idempotencyKey, key ∉ t.keys then
    .ok (⟨c, uuid⟩, ⟨t.rows ++ [⟨c, uuid⟩], nodup_keys_append t.unique hnew⟩)
  else .error .duplicateKey

end CommitmentTable

def validateCommitment (strKey : StrKey) (c : Commitment) : Except CommitmentValidationError Unit := do
  validateAmountStroops (.string c.amountStroops)
  validateAddress strKey c.investorAddress

inductive PersistPhase where
  | called
  | looked
  | returned (row : CommitmentRow)
  | failed (e : PersistError)

def persistLookup (strKey : StrKey) (t : CommitmentTable) (c : Commitment) : PersistPhase :=
  match validateCommitment strKey c with
  | .error e => .failed (.invalid e)
  | .ok () =>
    match existingCommitment t.rows c.idempotencyKey with
    | some row => .returned row
    | none => .looked

def persistInsert (t : CommitmentTable) (uuid : String) (c : Commitment) :
    PersistPhase × CommitmentTable :=
  match t.insert uuid c with
  | .error e => (.failed e, t)
  | .ok (row, t') => (.returned row, t')

/-- The next statement of a call: the lookup, then the insertion. -/
def persistStep (strKey : StrKey) (t : CommitmentTable) (uuid : String) (c : Commitment) :
    PersistPhase → PersistPhase × CommitmentTable
  | .called => (persistLookup strKey t c, t)
  | .looked => persistInsert t uuid c
  | .returned row => (.returned row, t)
  | .failed e => (.failed e, t)

structure Persisting (π : Type) where
  table : CommitmentTable
  phase : π → PersistPhase

section Model
variable {π : Type} [DecidableEq π] (strKey : StrKey) (calls : π → Commitment)

def Persisting.start (t : CommitmentTable) : Persisting π := ⟨t, fun _ => .called⟩

def Persisting.step (s : Persisting π) (a : π × String) : Persisting π :=
  let next := persistStep strKey s.table a.2 (calls a.1) (s.phase a.1)
  ⟨next.2, Function.update s.phase a.1 next.1⟩

end Model

theorem CommitmentTable.insert_ok {t t' : CommitmentTable} {uuid : String} {c : Commitment}
    {row : CommitmentRow} (h : t.insert uuid c = .ok (row, t')) :
    row = ⟨c, uuid⟩ ∧ t'.rows = t.rows ++ [⟨c, uuid⟩] := by
  unfold CommitmentTable.insert at h
  split_ifs at h
  cases h
  exact ⟨rfl, rfl⟩

theorem persistLookup_valid {strKey : StrKey} {t : CommitmentTable} {c : Commitment}
    (hvalid : validateCommitment strKey c = .ok ()) :
    persistLookup strKey t c =
      (existingCommitment t.rows c.idempotencyKey).elim .looked .returned := by
  unfold persistLookup
  rw [hvalid]
  dsimp only
  cases existingCommitment t.rows c.idempotencyKey with
  | none => rfl
  | some row => rfl

/-- A call whose two statements are not interrupted and that returns is `persistCommitment`. -/
theorem persistCommitment_of_alone {strKey : StrKey} {t t' : CommitmentTable} {uuid : String}
    {c : Commitment} {row : CommitmentRow}
    (h : persistStep strKey (persistStep strKey t uuid c .called).2 uuid c
      (persistStep strKey t uuid c .called).1 = (.returned row, t')) :
    persistCommitment strKey t.rows uuid c = .ok (row, t'.rows) := by
  have hvalidate : persistCommitment strKey t.rows uuid c =
      (validateCommitment strKey c >>= fun _ =>
        match existingCommitment t.rows c.idempotencyKey with
        | some row => .ok (row, t.rows)
        | none => .ok (⟨c, uuid⟩, t.rows ++ [⟨c, uuid⟩])) := by
    unfold persistCommitment validateCommitment
    exact (bind_assoc _ _ _).symm
  rw [hvalidate]
  change persistStep strKey t uuid c (persistLookup strKey t c) = _ at h
  cases hvalid : validateCommitment strKey c with
  | error e =>
    unfold persistLookup at h
    rw [hvalid] at h
    cases h
  | ok _ =>
    rw [persistLookup_valid hvalid] at h
    cases hexisting : existingCommitment t.rows c.idempotencyKey with
    | some found =>
      rw [hexisting] at h
      cases h
      rfl
    | none =>
      rw [hexisting] at h
      change persistInsert t uuid c = _ at h
      unfold persistInsert at h
      cases hinsert : t.insert uuid c with
      | error e =>
        rw [hinsert] at h
        cases h
      | ok inserted =>
        rw [hinsert] at h
        cases h
        obtain ⟨hrow, hrows⟩ := CommitmentTable.insert_ok hinsert
        rw [hrows, hrow]
        rfl

/-! ### One row for one key -/

def CommitmentRow.SameRequest (row : CommitmentRow) (c : Commitment) : Prop :=
  row.invoiceId = c.invoiceId ∧ row.investorAddress = c.investorAddress ∧
    row.amountStroops = c.amountStroops

def CommitmentTable.under (t : CommitmentTable) (c : Commitment) : List CommitmentRow :=
  t.rows.filter fun row => row.idempotencyKey = c.idempotencyKey

section Idempotency
variable {π : Type} [DecidableEq π] {strKey : StrKey} {calls : π → Commitment}

/-- No call has failed, and a call that has returned has the one row stored under its key,
which records its invoice, investor and amount. -/
structure Persisting.Idempotent (calls : π → Commitment) (s : Persisting π) : Prop where
  succeeds : ∀ p e, s.phase p ≠ .failed e
  oneRow : ∀ p row, s.phase p = .returned row →
    s.table.under (calls p) = [row] ∧ row.SameRequest (calls p)

/-- A row the lookup finds records the request of the call, and a key that was absent at the
lookup is absent at the insertion. -/
def Persisting.Unraced (calls : π → Commitment) (s : Persisting π) (a : π × String) : Prop :=
  match s.phase a.1 with
  | .called => ∀ row, existingCommitment s.table.rows (calls a.1).idempotencyKey = some row →
    row.SameRequest (calls a.1)
  | .looked => ∀ row ∈ s.table.rows, row.idempotencyKey ≠ (calls a.1).idempotencyKey
  | _ => True

def Commitment.Valid (strKey : StrKey) (c : Commitment) : Prop :=
  validateCommitment strKey c = .ok () ∧ c.fits = true ∧ c.idempotencyKey ≠ none

/- The unique index: one row under a key. -/
theorem CommitmentTable.under_eq_singleton {t : CommitmentTable} {c : Commitment}
    {row : CommitmentRow} (hrow : row ∈ t.rows) (hkey : row.idempotencyKey = c.idempotencyKey)
    (hsome : c.idempotencyKey ≠ none) : t.under c = [row] := by
  obtain ⟨key, hc⟩ := Option.ne_none_iff_exists'.mp hsome
  unfold CommitmentTable.under
  rw [hc] at hkey ⊢
  exact filter_eq_singleton_of_unique (fun row => row.idempotencyKey) t.unique hrow hkey

theorem mem_of_existingCommitment {rows : List CommitmentRow} {key : Option String}
    {row : CommitmentRow} (h : existingCommitment rows key = some row) :
    row ∈ rows ∧ row.idempotencyKey = key := by
  unfold existingCommitment at h
  split at h
  · rename_i k hk
    have hkey : key = some k := by
      unfold truthy at hk
      split at hk
      · cases hk
      · exact hk
    rw [hkey]
    exact ⟨List.mem_of_find?_eq_some h, by simpa using List.find?_some h⟩
  · cases h

theorem mem_keys_iff {t : CommitmentTable} {key : String} :
    key ∈ t.keys ↔ ∃ row ∈ t.rows, row.idempotencyKey = some key := by
  unfold CommitmentTable.keys
  exact List.mem_filterMap

/- An insertion is accepted exactly when its key is new. -/
theorem CommitmentTable.insert_cases {t : CommitmentTable} {c : Commitment} (uuid : String)
    (hfits : c.fits = true) (hsome : c.idempotencyKey ≠ none) :
    ((∀ row ∈ t.rows, row.idempotencyKey ≠ c.idempotencyKey) ∧
      ∃ t', t.insert uuid c = .ok (⟨c, uuid⟩, t') ∧ t'.rows = t.rows ++ [⟨c, uuid⟩]) ∨
    ((∃ row ∈ t.rows, row.idempotencyKey = c.idempotencyKey) ∧
      t.insert uuid c = .error .duplicateKey) := by
  obtain ⟨key, hkey⟩ := Option.ne_none_iff_exists'.mp hsome
  unfold CommitmentTable.insert
  rw [if_neg (by simp [hfits])]
  split
  · rename_i hnew
    refine .inl ⟨?_, _, rfl, rfl⟩
    intro row hrow hsame
    rw [hkey] at hsame
    exact hnew key hkey (mem_keys_iff.mpr ⟨row, hrow, hsame⟩)
  · rename_i hold
    push Not at hold
    obtain ⟨key', hkey', hmem⟩ := hold
    obtain ⟨row, hrow, hsame⟩ := mem_keys_iff.mp hmem
    exact .inr ⟨⟨row, hrow, hsame.trans hkey'.symm⟩, rfl⟩

variable {s : Persisting π}

/- A step that leaves the table alone is judged by the phase it enters. -/
theorem idempotent_enter_iff (h : s.Idempotent calls) (p : π) (ph : PersistPhase) :
    Persisting.Idempotent calls ⟨s.table, Function.update s.phase p ph⟩ ↔
      (∀ e, ph ≠ .failed e) ∧ ∀ row, ph = .returned row →
        s.table.under (calls p) = [row] ∧ row.SameRequest (calls p) := by
  constructor
  · intro hnext
    refine ⟨fun e => ?_, fun row hph => ?_⟩
    · have hp := hnext.succeeds p e
      simpa using hp
    · exact hnext.oneRow p row (by simpa using hph)
  · intro hph
    refine ⟨fun q e => ?_, fun q row hq => ?_⟩
    · by_cases hqp : q = p
      · simpa [hqp] using hph.1 e
      · simpa [Function.update_of_ne hqp] using h.succeeds q e
    · by_cases hqp : q = p
      · subst hqp
        exact hph.2 row (by simpa using hq)
      · exact h.oneRow q row (by simpa [Function.update_of_ne hqp] using hq)

/- Rows of other keys are where they were; the new key had none. -/
theorem idempotent_insert (h : s.Idempotent calls) {p : π} {t : CommitmentTable} {uuid : String}
    (hnew : ∀ row ∈ s.table.rows, row.idempotencyKey ≠ (calls p).idempotencyKey)
    (ht : t.rows = s.table.rows ++ [⟨calls p, uuid⟩]) :
    Persisting.Idempotent calls
      ⟨t, Function.update s.phase p (.returned ⟨calls p, uuid⟩)⟩ := by
  have hempty : s.table.under (calls p) = [] := by
    rw [CommitmentTable.under, List.filter_eq_nil_iff]
    exact fun row hrow hsame => hnew row hrow (of_decide_eq_true hsame)
  refine ⟨fun q e => ?_, fun q row hq => ?_⟩
  · by_cases hqp : q = p
    · simp [hqp]
    · simpa [Function.update_of_ne hqp] using h.succeeds q e
  · by_cases hqp : q = p
    · subst hqp
      simp only [Function.update_self, PersistPhase.returned.injEq] at hq
      subst hq
      refine ⟨?_, rfl, rfl, rfl⟩
      show t.rows.filter _ = _
      rw [ht, List.filter_append]
      rw [CommitmentTable.under] at hempty
      rw [hempty]
      simp
    · obtain ⟨hone, hsame⟩ := h.oneRow q row (by simpa [Function.update_of_ne hqp] using hq)
      refine ⟨?_, hsame⟩
      have hkey : (calls p).idempotencyKey ≠ (calls q).idempotencyKey := by
        intro heq
        have hmem : row ∈ s.table.under (calls q) := by
          rw [hone]
          exact List.mem_singleton_self row
        obtain ⟨hrow, hrowkey⟩ := List.mem_filter.mp hmem
        exact hnew row hrow ((of_decide_eq_true hrowkey).trans heq.symm)
      show t.rows.filter _ = _
      rw [ht, List.filter_append]
      rw [CommitmentTable.under] at hone
      rw [hone]
      simp [hkey]

theorem idempotent_step_iff (hvalid : ∀ p, (calls p).Valid strKey) (h : s.Idempotent calls)
    (a : π × String) :
    (s.step strKey calls a).Idempotent calls ↔ s.Unraced calls a := by
  obtain ⟨hvalidate, hfits, hsome⟩ := hvalid a.1
  unfold Persisting.step Persisting.Unraced
  cases hphase : s.phase a.1 with
  | called =>
    dsimp only [persistStep]
    rw [persistLookup_valid hvalidate]
    cases hexisting : existingCommitment s.table.rows (calls a.1).idempotencyKey with
    | none =>
      rw [idempotent_enter_iff h]
      simp
    | some row =>
      obtain ⟨hmem, hkey⟩ := mem_of_existingCommitment hexisting
      have hunder := CommitmentTable.under_eq_singleton hmem hkey hsome
      rw [idempotent_enter_iff h]
      simp [hunder]
  | looked =>
    dsimp only [persistStep, persistInsert]
    rcases CommitmentTable.insert_cases (t := s.table) a.2 hfits hsome with
      ⟨hnew, t, hinsert, hrows⟩ | ⟨⟨row, hrow, hsame⟩, hinsert⟩
    · rw [hinsert]
      exact ⟨fun _ => hnew, fun _ => idempotent_insert h hnew hrows⟩
    · rw [hinsert]
      refine ⟨fun hnext => ?_, fun hnew => absurd hsame (hnew row hrow)⟩
      exact absurd (Function.update_self ..) (hnext.succeeds a.1 .duplicateKey)
  | returned row =>
    dsimp only [persistStep]
    rw [idempotent_enter_iff h, iff_true]
    refine ⟨fun e => by rintro ⟨⟩, ?_⟩
    intro row' hrow'
    cases hrow'
    exact h.oneRow a.1 row hphase
  | failed e => exact absurd hphase (h.succeeds a.1 e)

end Idempotency

/-! ### Two statements end a call -/

section Progress
variable {π : Type} [DecidableEq π] (strKey : StrKey) (calls : π → Commitment)

def PersistPhase.made : PersistPhase → ℕ
  | .called => 0
  | .looked => 1
  | .returned _ => 2
  | .failed _ => 2

def statementsOf (p : π) (as : List (π × String)) : ℕ := as.countP fun a => decide (a.1 = p)

theorem persistStep_made (t : CommitmentTable) (uuid : String) (c : Commitment) (ph : PersistPhase) :
    min 2 (ph.made + 1) ≤ (persistStep strKey t uuid c ph).1.made := by
  cases ph with
  | called =>
    unfold persistStep persistLookup
    cases validateCommitment strKey c with
    | error e => simp [PersistPhase.made]
    | ok u =>
      cases existingCommitment t.rows c.idempotencyKey with
      | some row => simp [PersistPhase.made]
      | none => simp [PersistPhase.made]
  | looked =>
    unfold persistStep persistInsert
    cases t.insert uuid c with
    | error e => simp [PersistPhase.made]
    | ok inserted => simp [PersistPhase.made]
  | returned row => simp [persistStep, PersistPhase.made]
  | failed e => simp [persistStep, PersistPhase.made]

theorem step_made (s : Persisting π) (a : π × String) (p : π) :
    min 2 ((s.phase p).made + if a.1 = p then 1 else 0) ≤
      ((s.step strKey calls a).phase p).made := by
  unfold Persisting.step
  by_cases hp : a.1 = p
  · subst hp
    rw [if_pos rfl]
    simpa using persistStep_made strKey s.table a.2 (calls a.1) (s.phase a.1)
  · rw [if_neg hp]
    simp [Function.update_of_ne (Ne.symm hp)]

theorem run_made (s : Persisting π) (as : List (π × String)) (p : π) :
    min 2 ((s.phase p).made + statementsOf p as) ≤
      ((run (Persisting.step strKey calls) s as).phase p).made := by
  induction as generalizing s with
  | nil => simp [statementsOf, run]
  | cons a as ih =>
    have hstep := step_made strKey calls s a p
    have hrest := ih (s.step strKey calls a)
    have hcount : statementsOf p (a :: as) = statementsOf p as + if a.1 = p then 1 else 0 := by
      unfold statementsOf
      rw [List.countP_cons]
      simp
    rw [run_cons, hcount]
    omega

/- A call that has made both statements and has not failed has returned. -/
theorem returned_of_two {t : CommitmentTable} {as : List (π × String)}
    (h : (run (Persisting.step strKey calls) (.start t) as).Idempotent calls) {p : π}
    (hp : 2 ≤ statementsOf p as) :
    ∃ row, (run (Persisting.step strKey calls) (.start t) as).phase p = .returned row := by
  have hmade := run_made strKey calls (.start t) as p
  cases hphase : (run (Persisting.step strKey calls) (.start t) as).phase p with
  | returned row => exact ⟨row, rfl⟩
  | failed e => exact absurd hphase (h.succeeds p e)
  | called =>
    rw [hphase] at hmade
    simp only [Persisting.start, PersistPhase.made] at hmade
    omega
  | looked =>
    rw [hphase] at hmade
    simp only [Persisting.start, PersistPhase.made] at hmade
    omega

end Progress

/-- Over every interleaving of calls with valid parameters and a key, from every table: in
every state reached no call has failed, each call that has made both its statements has
returned, and each that has returned has the only row of its key, for its own request,
exactly when no insertion comes after another one of its key and every row a lookup finds
records the request of the call. -/
theorem persist_idempotent_iff {π : Type} [DecidableEq π] (strKey : StrKey)
    (calls : π → Commitment) (t : CommitmentTable) (as : List (π × String))
    (hvalid : ∀ p, (calls p).Valid strKey) :
    (∀ pre, pre <+: as →
      (run (Persisting.step strKey calls) (.start t) pre).Idempotent calls ∧
      ∀ p, 2 ≤ statementsOf p pre →
        ∃ row, (run (Persisting.step strKey calls) (.start t) pre).phase p = .returned row) ↔
    Along (Persisting.step strKey calls) (Persisting.Unraced calls) (.start t) as := by
  have hstart : (Persisting.start t : Persisting π).Idempotent calls := by
    refine ⟨fun p e => ?_, fun p row hp => ?_⟩
    · rintro ⟨⟩
    · cases hp
  have hiff := forall_prefix_iff_along (Persisting.step strKey calls) (Persisting.Unraced calls)
    (Persisting.Idempotent calls) (fun s a h => idempotent_step_iff hvalid h a) (.start t) as hstart
  constructor
  · intro h
    exact hiff.mp fun pre hpre => (h pre hpre).1
  · intro h pre hpre
    have hpre := hiff.mpr h pre hpre
    exact ⟨hpre, fun p hp => returned_of_two strKey calls hpre hp⟩

def investor : String := "GAAAAAAAAAAAAAAAAAAAAAAAAAAAAAAAAAAAAAAAAAAAAAAAAAAAAWHF"

def oneInvestor : StrKey := ⟨fun address => decide (address = investor), fun _ => false⟩

def twice : Commitment where
  invoiceId := "inv_1"
  investorAddress := investor
  escrowAddress := "CAAAAAAAAAAAAAAAAAAAAAAAAAAAAAAAAAAAAAAAAAAAAAAAAAAAD2KM"
  amountStroops := "100"
  status := .submitted
  unsignedXdr := none
  txHash := some "a1"
  ledger := some "7"
  idempotencyKey := some "k"

theorem twice_fits : twice.fits = true := by
  have hinvestor : twice.investorAddress.length = 56 := by
    rw [twice, investor, String.length_ofList]
    rfl
  have hescrow : twice.escrowAddress.length = 56 := by
    rw [twice, String.length_ofList]
    rfl
  rw [Commitment.fits, hinvestor, hescrow]
  rfl

theorem twice_valid : twice.Valid oneInvestor := by
  refine ⟨?_, twice_fits, by decide⟩
  have hamount : validateAmountStroops (.string twice.amountStroops) = .ok () :=
    validateAmountStroops_canonical ⟨100, by decide, by decide, by decide⟩
  rw [validateCommitment, hamount]
  rfl

def emptyCommitments : CommitmentTable := ⟨[], List.nodup_nil⟩

/- One call after the other: the second one finds the row. -/
theorem persist_idempotent_sequential :
    twice.Valid oneInvestor ∧ ∀ pre, pre <+: [(true, "u1"), (true, "u1"), (false, "u2")] →
      (run (Persisting.step oneInvestor fun _ => twice) (.start emptyCommitments) pre).Idempotent
        (fun _ => twice) ∧
      ∀ p, 2 ≤ statementsOf p pre → ∃ row, (run (Persisting.step oneInvestor fun _ => twice)
        (.start emptyCommitments) pre).phase p = .returned row := by
  refine ⟨twice_valid, (persist_idempotent_iff oneInvestor (fun _ => twice) emptyCommitments _
    fun _ => twice_valid).mpr ⟨?_, ?_, ?_, trivial⟩⟩
  · intro row hrow
    cases hrow
  · intro row hrow
    cases hrow
  · intro row hrow
    cases hrow
    exact ⟨rfl, rfl, rfl⟩

/- Both calls look the key up before either has stored it. -/
theorem raced_phase {strKey : StrKey} {c : Commitment} (hvalid : c.Valid strKey) :
    (run (Persisting.step strKey fun _ => c) (.start emptyCommitments)
      [(true, "u1"), (false, "u2"), (true, "u1"), (false, "u2")]).phase false =
      .failed .duplicateKey := by
  obtain ⟨hvalidate, hfits, hsome⟩ := hvalid
  obtain ⟨key, hkey⟩ := Option.ne_none_iff_exists'.mp hsome
  have hlook : persistLookup strKey emptyCommitments c = .looked := by
    rw [persistLookup_valid hvalidate]
    unfold existingCommitment
    split <;> rfl
  have hunique : ([(⟨c, "u1"⟩ : CommitmentRow)].filterMap fun row => row.idempotencyKey).Nodup := by
    simp [hkey]
  have hfirst : persistInsert emptyCommitments "u1" c = (.returned ⟨c, "u1"⟩, ⟨_, hunique⟩) := by
    have hnew : ∀ key ∈ c.idempotencyKey, key ∉ emptyCommitments.keys := fun _ _ => List.not_mem_nil
    unfold persistInsert CommitmentTable.insert
    rw [if_neg (by simp [hfits]), dif_pos hnew]
    rfl
  have hsecond : persistInsert ⟨_, hunique⟩ "u2" c = (.failed .duplicateKey, ⟨_, hunique⟩) := by
    unfold persistInsert CommitmentTable.insert
    rw [if_neg (by simp [hfits]), dif_neg (by simp [CommitmentTable.keys, hkey])]
  simp only [run, List.foldl, Persisting.step, Persisting.start, persistStep, hlook, hfirst, hsecond,
    Function.update_apply, reduceCtorEq, if_true, if_false]

theorem raced_call_fails :
    ¬ ∀ pre, pre <+: [(true, "u1"), (false, "u2"), (true, "u1"), (false, "u2")] →
      (run (Persisting.step oneInvestor fun _ => twice) (.start emptyCommitments) pre).Idempotent
        (fun _ => twice) ∧
      ∀ p, 2 ≤ statementsOf p pre → ∃ row, (run (Persisting.step oneInvestor fun _ => twice)
        (.start emptyCommitments) pre).phase p = .returned row := by
  intro h
  exact (h _ (List.prefix_refl _)).1.succeeds false .duplicateKey (raced_phase twice_valid)

end Liquifact.Invest
