import Liquifact.Lib.GroupedScan
import Liquifact.Lib.Table
import Liquifact.Lib.ToNumber
import Mathlib.Data.String.Basic

/-!
# The nightly reconciliation (`src/jobs/reconcileEscrow.js`)

`iterateInvoicesFromDb` (183-221) pages through the invoices with escrow in flight, joined to
`escrow_summaries`, by the key `invoices.id`; `performReconciliation` (329-384) compares each
with what the chain says and counts the outcomes. The table of summaries has its own primary
key; `invoice_id` is indexed there but not unique (`20240425000003_create_escrow_operations.sql`).

Identifiers are UUIDs, whose order is that of their text. Rows with the same `invoices.id`
come in an order that the database chooses anew for each query. Metrics, alerts, the log and
the row in `reconciliation_runs` are left out.
-/

namespace Liquifact.Jobs.ReconcileEscrow
open Liquifact.Lib

structure Invoice where
  id : String
  status : String
  deletedAt : Option ℤ

/- `totalFunded` is the text by which the driver gives a `DECIMAL`. -/
structure EscrowSummary where
  id : String
  invoiceId : String
  totalFunded : String

/-- The two tables, with their primary keys and the reference of the second to the first. -/
structure Tables where
  invoices : List Invoice
  summaries : List EscrowSummary
  distinct : (invoices.map Invoice.id).Nodup
  summariesDistinct : (summaries.map EscrowSummary.id).Nodup
  references : ∀ s ∈ summaries, s.invoiceId ∈ invoices.map Invoice.id

def reconcilableStatuses : List String := ["linked_escrow", "funded", "partially_funded"]

def reconcilable (r : Invoice) : Bool :=
  decide (r.status ∈ reconcilableStatuses) && r.deletedAt.isNone

/-! ### The scan -/

structure JoinedRow where
  id : String
  fundedTotal : Option String

structure Listed where
  id : String
  fundedTotal : JsNumber

def toFundedTotal (value : Option String) : JsNumber :=
  match value with
  | none => .fin 0
  | some s =>
    match stringToNumber s with
    | .fin q => .fin q
    | _ => .fin 0

def mathTrunc (q : ℚ) : ℤ := if 0 ≤ q then ⌊q⌋ else ⌈q⌉

/- `Math.min(Math.max(1, Math.trunc(Number(v) || 100)), 1000)`; `none` is undefined. -/
def pageSizeOf (v : Option Json) : ℕ :=
  match (v.map Json.toNumber).getD .nan with
  | .nan => 100
  | .posInf => 1000
  | .negInf => 1
  | .fin q => if q = 0 then 100 else (min (max 1 (mathTrunc q)) 1000).toNat

namespace Tables

def summariesOf (t : Tables) (id : String) : List EscrowSummary :=
  t.summaries.filter fun s => decide (s.invoiceId = id)

/- The rows of the left join for one invoice. -/
def joined (t : Tables) (r : Invoice) : List JoinedRow :=
  match t.summariesOf r.id with
  | [] => [⟨r.id, none⟩]
  | found => found.map fun s => ⟨r.id, some s.totalFunded⟩

end Tables

def isAfter (lastId : Option String) (id : String) : Bool :=
  match lastId with
  | none => true
  | some last => decide (last < id)

def orderById (rows : List JoinedRow) : List JoinedRow := rows.insertionSort fun a b => a.id ≤ b.id

/- One query; `order` is the database's choice among rows with the same key. -/
def query (t : Tables) (order : RowOrder JoinedRow) (pageSize : ℕ) (lastId : Option String) :
    List JoinedRow :=
  let rows := (t.invoices.filter fun r => reconcilable r && isAfter lastId r.id).flatMap t.joined
  (orderById (order.arrange rows)).take pageSize

def listed (row : JoinedRow) : Listed := ⟨row.id, toFundedTotal row.fundedTotal⟩

/-- The loop of `iterateInvoicesFromDb`, one query an iteration; `none` if it has not ended
within `fuel` of them. -/
def scanFrom (t : Tables) (orders : ℕ → RowOrder JoinedRow) (pageSize : ℕ) :
    ℕ → ℕ → Option String → Option (List Listed)
  | 0, _, _ => none
  | fuel + 1, i, lastId =>
    let rows := query t (orders i) pageSize lastId
    if rows.length = 0 then some []
    else if rows.length < pageSize then some (rows.map listed)
    else match rows.getLast? with
      | none => some (rows.map listed)
      | some last =>
        (scanFrom t orders pageSize fuel (i + 1) (some last.id)).map (rows.map listed ++ ·)

def iterateInvoicesFromDb (t : Tables) (orders : ℕ → RowOrder JoinedRow) (pageSize : Option Json)
    (fuel : ℕ) : Option (List Listed) :=
  scanFrom t orders (pageSizeOf pageSize) fuel 0 none

/-! ### The outcomes -/

inductive ReconcileStatus where
  | isMatch
  | mismatch
  | error
  deriving DecidableEq

def ReconcileStatus.text : ReconcileStatus → String
  | isMatch => "match"
  | mismatch => "mismatch"
  | error => "error"

structure Result where
  invoiceId : String
  status : ReconcileStatus
  dbFundedTotal : JsNumber
  onChainAmount : Option JsNumber
  driftMagnitude : Option JsNumber
  error : Option String

/- `===` of two numbers. -/
def strictEqual (x y : JsNumber) : Bool := decide (x ≠ .nan) && decide (x = y)

/- `Math.abs(x - y)`. -/
def distance : JsNumber → JsNumber → JsNumber
  | .fin a, .fin b => roundDouble |a - b|
  | .nan, _ => .nan
  | _, .nan => .nan
  | .posInf, .posInf => .nan
  | .negInf, .negInf => .nan
  | _, _ => .posInf

/- `read` is what `readFundedAmount` gives at this call, or the message of what it throws. -/
def reconcileInvoice (read : String → Except String JsNumber) (invoice : Listed) : Result :=
  match read invoice.id with
  | .ok onChainAmount =>
    let isEqual := strictEqual onChainAmount invoice.fundedTotal
    { invoiceId := invoice.id
      status := if isEqual then .isMatch else .mismatch
      dbFundedTotal := invoice.fundedTotal
      onChainAmount := some onChainAmount
      driftMagnitude := some (if isEqual then .fin 0 else distance invoice.fundedTotal onChainAmount)
      error := none }
  | .error message =>
    { invoiceId := invoice.id
      status := .error
      dbFundedTotal := invoice.fundedTotal
      onChainAmount := none
      driftMagnitude := none
      error := some message }

structure Summary where
  total : ℕ
  matching : ℕ
  mismatches : ℕ
  errors : ℕ
  results : List Result

def summarize (results : List Result) : Summary where
  total := results.length
  matching := results.countP fun r => decide (r.status = .isMatch)
  mismatches := results.countP fun r => decide (r.status = .mismatch)
  errors := results.countP fun r => decide (r.status = .error)
  results := results

def performReconciliation (t : Tables) (orders : ℕ → RowOrder JoinedRow) (pageSize : Option Json)
    (reads : ℕ → String → Except String JsNumber) (fuel : ℕ) : Option Summary :=
  (iterateInvoicesFromDb t orders pageSize fuel).map fun invoices =>
    summarize (invoices.mapIdx fun i invoice => reconcileInvoice (reads i) invoice)

/-! ### Once each -/

/- The reconcilable invoices in the order of their identifiers. -/
def Tables.reconcilableIds (t : Tables) : List String :=
  ((t.invoices.filter reconcilable).map Invoice.id).insertionSort (· ≤ ·)

/-- The scan ends and yields every reconcilable invoice once, in order, and the totals of the
reconciliation add up to their number. -/
structure CoversOnce (t : Tables) (orders : ℕ → RowOrder JoinedRow) (pageSize : Option Json)
    (reads : ℕ → String → Except String JsNumber) : Prop where
  yields : ∃ fuel invoices, iterateInvoicesFromDb t orders pageSize fuel = some invoices ∧
    invoices.map Listed.id = t.reconcilableIds
  totals : ∃ fuel s, performReconciliation t orders pageSize reads fuel = some s ∧
    s.total = s.matching + s.mismatches + s.errors ∧ s.total = t.reconcilableIds.length

/-- An invoice with two or more summaries is, counted in the order of the identifiers, the
last of a page. -/
def SummariesAtPageEnds (t : Tables) (pageSize : ℕ) : Prop :=
  ∀ i id, t.reconcilableIds[i]? = some id → 2 ≤ (t.summariesOf id).length → pageSize ∣ i + 1

/-! ### The keys of a page -/

section Keys
variable {t : Tables}

def Tables.rowCount (t : Tables) (id : String) : ℕ := max 1 (t.summariesOf id).length

theorem pageSizeOf_pos (v : Option Json) : 0 < pageSizeOf v := by
  unfold pageSizeOf
  split
  · decide
  · decide
  · decide
  · split <;> omega

theorem reconcilableIds_sorted (t : Tables) : t.reconcilableIds.Pairwise (· < ·) := by
  have hle : t.reconcilableIds.Pairwise (· ≤ ·) := List.pairwise_insertionSort _ _
  have hne : t.reconcilableIds.Nodup :=
    (List.perm_insertionSort _ _).nodup_iff.mpr (t.distinct.sublist (List.filter_sublist.map _))
  exact (hle.and hne).imp fun h => lt_of_le_of_ne h.1 h.2

theorem joined_ids (r : Invoice) :
    (t.joined r).map JoinedRow.id = List.replicate (t.rowCount r.id) r.id := by
  unfold Tables.joined Tables.rowCount
  cases t.summariesOf r.id with
  | nil => rfl
  | cons s rest =>
    have hpos : 1 ≤ (s :: rest).length := by simp
    rw [List.map_map, Nat.max_eq_right hpos, ← List.map_const']
    rfl

/- The keys of the selected rows, before they are arranged. -/
theorem flatMap_joined_ids (p : String → Bool) :
    ((t.invoices.filter fun r => reconcilable r && p r.id).flatMap t.joined).map JoinedRow.id =
      spreadKeys t.rowCount (((t.invoices.filter reconcilable).map Invoice.id).filter p) := by
  rw [List.map_flatMap, spreadKeys, List.filter_map, List.flatMap_map, List.filter_filter]
  simp only [joined_ids, Function.comp_apply, Bool.and_comm]

theorem arranged_perm (order : RowOrder JoinedRow) (rows : List JoinedRow) :
    ((orderById (order.arrange rows)).map JoinedRow.id).Perm (rows.map JoinedRow.id) :=
  ((List.perm_insertionSort _ _).trans (order.perm rows)).map JoinedRow.id

theorem orderById_sorted (rows : List JoinedRow) :
    ((orderById rows).map JoinedRow.id).Pairwise (· ≤ ·) := by
  have htotal : Std.Total fun a b : JoinedRow => a.id ≤ b.id := ⟨fun _ _ => le_total _ _⟩
  have htrans : IsTrans JoinedRow fun a b => a.id ≤ b.id := ⟨fun _ _ _ => le_trans⟩
  exact List.pairwise_map.mpr (List.pairwise_insertionSort _ rows)

/- What the keys of a page are does not depend on the database's choice. -/
theorem query_ids (order : RowOrder JoinedRow) (pageSize : ℕ) (lastId : Option String) :
    (query t order pageSize lastId).map JoinedRow.id =
      (spreadKeys t.rowCount (t.reconcilableIds.filter (isAfter lastId))).take pageSize := by
  unfold query
  rw [List.map_take]
  congr 1
  have hrows := arranged_perm order
    ((t.invoices.filter fun r => reconcilable r && isAfter lastId r.id).flatMap t.joined)
  rw [flatMap_joined_ids] at hrows
  have hkeys : (((t.invoices.filter reconcilable).map Invoice.id).filter (isAfter lastId)).Perm
      (t.reconcilableIds.filter (isAfter lastId)) := (List.perm_insertionSort _ _).symm.filter _
  refine List.Perm.eq_of_pairwise' (orderById_sorted _) ?_ (hrows.trans (hkeys.flatMap_right _))
  exact spreadKeys_sorted ((reconcilableIds_sorted t).sublist List.filter_sublist)

/-! ### The loop is a scan over keys -/

theorem filter_isAfter {lastId : Option String} {last : String} (h : isAfter lastId last = true) :
    (t.reconcilableIds.filter (isAfter lastId)).filter (fun k => decide (last < k)) =
      t.reconcilableIds.filter (isAfter (some last)) := by
  rw [List.filter_filter]
  refine List.filter_congr fun id _ => ?_
  cases lastId with
  | none => simp [isAfter]
  | some a =>
    simp only [isAfter, decide_eq_true_eq] at h ⊢
    by_cases hlast : last < id
    · simp [hlast, h.trans hlast]
    · simp [hlast]

theorem scanFrom_ids {orders : ℕ → RowOrder JoinedRow} {pageSize : ℕ} (hpos : 0 < pageSize)
    (fuel i : ℕ) (lastId : Option String) :
    (scanFrom t orders pageSize fuel i lastId).map (List.map Listed.id) =
      groupedScan t.rowCount pageSize fuel (t.reconcilableIds.filter (isAfter lastId)) := by
  induction fuel generalizing i lastId with
  | zero => rfl
  | succ fuel ih =>
    have hids := query_ids (t := t) (orders i) pageSize lastId
    have hlisted : ∀ rows : List JoinedRow, (rows.map listed).map Listed.id =
        rows.map JoinedRow.id := fun rows => by rw [List.map_map]; rfl
    have hlength := congrArg List.length hids
    rw [List.length_map] at hlength
    rw [scanFrom, groupedScan, ← hids]
    simp only [List.length_map]
    by_cases hnone : (query t (orders i) pageSize lastId).length = 0
    · rw [if_pos hnone, if_pos (by omega), List.length_eq_zero_iff.mp hnone]
      rfl
    · rw [if_neg hnone]
      by_cases hshort : (query t (orders i) pageSize lastId).length < pageSize
      · rw [if_pos hshort, if_pos hshort, Option.map_some, hlisted]
      · rw [if_neg hshort, if_neg hshort, List.getLast?_map]
        cases hlast : (query t (orders i) pageSize lastId).getLast? with
        | none => simp [hlisted]
        | some last =>
          have hmem : last.id ∈ (query t (orders i) pageSize lastId).map JoinedRow.id :=
            List.mem_map_of_mem (List.mem_of_getLast? hlast)
          rw [hids] at hmem
          obtain ⟨k, hk, hrep⟩ := List.mem_flatMap.mp (List.mem_of_mem_take hmem)
          have hafter : isAfter lastId last.id = true := by
            rw [List.eq_of_mem_replicate hrep]
            exact (List.mem_filter.mp hk).2
          simp only [Option.map_some]
          rw [filter_isAfter hafter, ← ih (i + 1) (some last.id), Option.map_map, Option.map_map]
          refine Option.map_congr fun rest _ => ?_
          simp [hlisted]

end Keys

/-! ### The outcomes add up -/

theorem status_cases (results : List Result) : results.length =
    results.countP (fun r => decide (r.status = .isMatch)) +
      results.countP (fun r => decide (r.status = .mismatch)) +
      results.countP (fun r => decide (r.status = .error)) := by
  induction results with
  | nil => rfl
  | cons r results ih =>
    simp only [List.length_cons, List.countP_cons, ih]
    cases r.status <;> simp <;> omega

theorem performReconciliation_total {t : Tables} {orders : ℕ → RowOrder JoinedRow}
    {pageSize : Option Json} (reads : ℕ → String → Except String JsNumber) {fuel : ℕ}
    {invoices : List Listed} (h : iterateInvoicesFromDb t orders pageSize fuel = some invoices) :
    ∃ s, performReconciliation t orders pageSize reads fuel = some s ∧
      s.total = s.matching + s.mismatches + s.errors ∧ s.total = invoices.length := by
  rw [performReconciliation, h]
  refine ⟨_, rfl, status_cases _, ?_⟩
  simp [summarize]

/-! ### The claim -/

section Covers
variable {t : Tables} {orders : ℕ → RowOrder JoinedRow} {pageSize : Option Json}

theorem iterate_ids (t : Tables) (orders : ℕ → RowOrder JoinedRow) (pageSize : Option Json)
    (fuel : ℕ) : (iterateInvoicesFromDb t orders pageSize fuel).map (List.map Listed.id) =
      groupedScan t.rowCount (pageSizeOf pageSize) fuel t.reconcilableIds := by
  rw [iterateInvoicesFromDb, scanFrom_ids (pageSizeOf_pos pageSize)]
  congr 1
  exact List.filter_eq_self.mpr fun _ _ => rfl

theorem iterate_ends (t : Tables) (orders : ℕ → RowOrder JoinedRow) (pageSize : Option Json) :
    ∃ fuel invoices, iterateInvoicesFromDb t orders pageSize fuel = some invoices := by
  obtain ⟨out, hout⟩ : ∃ out, groupedScan t.rowCount (pageSizeOf pageSize)
      (t.reconcilableIds.length + 1) t.reconcilableIds = some out :=
    groupedScan_ends (pageSizeOf_pos pageSize) (reconcilableIds_sorted t) (Nat.lt_succ_self _)
  rw [← iterate_ids t orders pageSize] at hout
  obtain ⟨invoices, hinvoices, -⟩ := Option.map_eq_some_iff.mp hout
  exact ⟨_, invoices, hinvoices⟩

theorem yields_iff {fuel : ℕ} {invoices : List Listed}
    (h : iterateInvoicesFromDb t orders pageSize fuel = some invoices) :
    invoices.map Listed.id = t.reconcilableIds ↔ SummariesAtPageEnds t (pageSizeOf pageSize) := by
  have hscan := iterate_ids t orders pageSize fuel
  rw [h, Option.map_some] at hscan
  rw [groupedScan_eq_iff (pageSizeOf_pos pageSize) (reconcilableIds_sorted t)
    (fun id _ => Nat.le_max_left 1 _) hscan.symm]
  refine forall₂_congr fun i id => imp_congr_right fun _ => imp_congr_left ?_
  change 2 ≤ max 1 (t.summariesOf id).length ↔ 2 ≤ (t.summariesOf id).length
  omega

/-- For every content of the tables, every page size and every order the database chooses,
each reconcilable invoice is covered once exactly when those with several summaries stand at
the ends of pages. -/
theorem covers_once_iff (t : Tables) (orders : ℕ → RowOrder JoinedRow) (pageSize : Option Json)
    (reads : ℕ → String → Except String JsNumber) :
    CoversOnce t orders pageSize reads ↔ SummariesAtPageEnds t (pageSizeOf pageSize) := by
  constructor
  · rintro ⟨⟨fuel, invoices, hscan, hids⟩, -⟩
    exact (yields_iff hscan).mp hids
  · intro hends
    obtain ⟨fuel, invoices, hscan⟩ := iterate_ends t orders pageSize
    have hids := (yields_iff hscan).mpr hends
    obtain ⟨s, hs, hsum, htotal⟩ := performReconciliation_total reads hscan
    refine ⟨⟨fuel, invoices, hscan, hids⟩, fuel, s, hs, hsum, ?_⟩
    rw [htotal, ← hids, List.length_map]

end Covers

/- One invoice with two summaries. -/
def sampleTables : Tables where
  invoices := [⟨"a", "funded", none⟩]
  summaries := [⟨"s1", "a", "10.00"⟩, ⟨"s2", "a", "20.00"⟩]
  distinct := by decide
  summariesDistinct := by decide
  references := by decide

theorem two_summaries_covered_twice : ¬ ∀ (t : Tables) (orders : ℕ → RowOrder JoinedRow)
    (pageSize : Option Json) (reads : ℕ → String → Except String JsNumber),
    CoversOnce t orders pageSize reads := by
  intro h
  obtain ⟨fuel, invoices, hscan, hids⟩ :=
    (h sampleTables (fun _ => ⟨id, fun _ => .refl _⟩) none fun _ _ => .ok (.fin 0)).yields
  have hends := (yields_iff hscan).mp hids
  exact absurd (hends 0 "a" (by decide) (by decide)) (by decide)

end Liquifact.Jobs.ReconcileEscrow
