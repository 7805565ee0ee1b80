import Liquifact.Lib.Table
import Liquifact.Lib.ToNumber
import Mathlib.Data.List.Sort

/-!
# Purging expired idempotency keys (`jobs/idempotencyPurge.js`)

A run deletes batch after batch of the rows that expired first. Each batch is one
statement, with its own `NOW()`, which takes rows of one expiry time in any order. `id` is
the primary key of `idempotency_keys`; its other columns play no part here.
-/

namespace Liquifact.Jobs
open Liquifact.Lib

structure KeyRow where
  id : String
  expiresAt : ℤ
  deriving DecidableEq

structure KeyTable where
  rows : List KeyRow
  distinct : (rows.map KeyRow.id).Nodup

def DEFAULT_BATCH_SIZE : ℕ := 1000

def DEFAULT_MAX_BATCHES : ℕ := 100

/- A setting of the environment: a number from 1 on is capped, anything else is replaced. -/
def boundedSetting (raw : Option String) (fallback cap : ℕ) : ℕ :=
  match raw.map fun s => parseInt s.toList with
  | some (.fin parsed) => if parsed < 1 then fallback else min ⌊parsed⌋.toNat cap
  | _ => fallback

def getBatchSize (raw : Option String) : ℕ := boundedSetting raw DEFAULT_BATCH_SIZE 10000

def getMaxBatches (raw : Option String) : ℕ := boundedSetting raw DEFAULT_MAX_BATCHES 1000

theorem boundedSetting_bounds (raw : Option String) {fallback cap : ℕ} (hpos : 1 ≤ fallback)
    (hle : fallback ≤ cap) :
    1 ≤ boundedSetting raw fallback cap ∧ boundedSetting raw fallback cap ≤ cap := by
  unfold boundedSetting
  split
  · rename_i parsed _
    by_cases hsmall : parsed < 1
    · rw [if_pos hsmall]
      exact ⟨hpos, hle⟩
    · have hfloor : 1 ≤ ⌊parsed⌋ := Int.le_floor.mpr (by simpa using hsmall)
      rw [if_neg hsmall]
      omega
  · exact ⟨hpos, hle⟩

def isExpired (now : ℤ) (r : KeyRow) : Bool := decide (r.expiresAt < now)

def orderByExpiry (rows : List KeyRow) : List KeyRow :=
  rows.insertionSort fun a b => a.expiresAt ≤ b.expiresAt

/-- The moment of a statement, and the order in which it comes upon the rows. -/
structure Statement where
  now : ℤ
  order : RowOrder KeyRow

/- The subquery. -/
def Statement.select (st : Statement) (batchSize : ℕ) (t : KeyTable) : List String :=
  ((orderByExpiry (st.order.arrange (t.rows.filter (isExpired st.now)))).take batchSize).map
    KeyRow.id

def KeyTable.delete (t : KeyTable) (ids : List String) : KeyTable where
  rows := t.rows.filter fun r => r.id ∉ ids
  distinct := t.distinct.sublist (List.filter_sublist.map _)

/- The number of deleted rows, with the table that is left. -/
def deleteExpiredBatch (st : Statement) (batchSize : ℕ) (t : KeyTable) : ℕ × KeyTable :=
  let ids := st.select batchSize t
  ((t.rows.filter fun r => r.id ∈ ids).length, t.delete ids)

structure PurgeState where
  totalDeleted : ℕ
  batchCount : ℕ
  table : KeyTable

/- The loop, with `remaining` the batches up to `maxBatches`. -/
def purgeFrom (statements : ℕ → Statement) (batchSize : ℕ) : ℕ → PurgeState → PurgeState
  | 0, s => s
  | remaining + 1, s =>
    let (deleted, table) := deleteExpiredBatch (statements s.batchCount) batchSize s.table
    if deleted = 0 then { s with table := table }
    else
      let s' : PurgeState := ⟨s.totalDeleted + deleted, s.batchCount + 1, table⟩
      if deleted < batchSize then s' else purgeFrom statements batchSize remaining s'

structure PurgeSummary where
  success : Bool
  totalDeleted : ℕ
  batchCount : ℕ
  maxBatchesReached : Bool

/- The summary, and the table after the run. -/
def purgeExpiredKeys (batchSize maxBatches : ℕ) (statements : ℕ → Statement) (t : KeyTable) :
    PurgeSummary × KeyTable :=
  let s := purgeFrom statements batchSize maxBatches ⟨0, 0, t⟩
  (⟨true, s.totalDeleted, s.batchCount, decide (maxBatches ≤ s.batchCount)⟩, s.table)

/-! ### One batch -/

def expiredCount (now : ℤ) (t : KeyTable) : ℕ := (t.rows.filter (isExpired now)).length

/-- `t'` is `t` without `n` of its expired rows, and those left expired no earlier. -/
structure Purged (now : ℤ) (n : ℕ) (t t' : KeyTable) : Prop where
  kept : t'.rows.Sublist t.rows
  count : t'.rows.length + n = t.rows.length
  expired : ∀ r ∈ t.rows, r ∉ t'.rows → isExpired now r = true
  earliest : ∀ r ∈ t.rows, r ∉ t'.rows → ∀ later ∈ t'.rows, isExpired now later = true →
    r.expiresAt ≤ later.expiresAt

section Batch

variable (st : Statement) (batchSize : ℕ) (t : KeyTable)

def Statement.expiredRows : List KeyRow :=
  orderByExpiry (st.order.arrange (t.rows.filter (isExpired st.now)))

theorem Statement.expiredRows_perm :
    (st.expiredRows t).Perm (t.rows.filter (isExpired st.now)) :=
  (List.perm_insertionSort _ _).trans (st.order.perm _)

theorem Statement.expiredRows_sorted :
    (st.expiredRows t).Pairwise fun a b => a.expiresAt ≤ b.expiresAt := by
  have : Std.Total (fun a b : KeyRow => a.expiresAt ≤ b.expiresAt) := ⟨fun a b => le_total _ _⟩
  have : IsTrans KeyRow (fun a b => a.expiresAt ≤ b.expiresAt) := ⟨fun _ _ _ => le_trans⟩
  exact List.pairwise_insertionSort _ _

theorem Statement.mem_expiredRows {r : KeyRow} :
    r ∈ st.expiredRows t ↔ r ∈ t.rows ∧ isExpired st.now r = true :=
  (st.expiredRows_perm t).mem_iff.trans List.mem_filter

theorem KeyTable.nodup : t.rows.Nodup := t.distinct.of_map

/- A row is deleted when it is among the first of the expired ones. -/
theorem Statement.id_mem_select {r : KeyRow} (hr : r ∈ t.rows) :
    r.id ∈ st.select batchSize t ↔ r ∈ (st.expiredRows t).take batchSize := by
  constructor
  · intro h
    obtain ⟨chosen, hchosen, hid⟩ := List.mem_map.mp h
    have hmem := ((st.mem_expiredRows t).mp (List.mem_of_mem_take hchosen)).1
    rwa [← List.inj_on_of_nodup_map t.distinct hmem hr hid]
  · intro h
    exact List.mem_map_of_mem h

theorem length_take_expiredRows :
    ((st.expiredRows t).take batchSize).length = min (expiredCount st.now t) batchSize := by
  rw [List.length_take, (st.expiredRows_perm t).length_eq, expiredCount, min_comm]

theorem deleteExpiredBatch_count :
    (deleteExpiredBatch st batchSize t).1 = min (expiredCount st.now t) batchSize := by
  have hchosen : (t.rows.filter fun r => r.id ∈ st.select batchSize t).Perm
      ((st.expiredRows t).take batchSize) := by
    have hnodup : (st.expiredRows t).Nodup :=
      (st.expiredRows_perm t).nodup_iff.mpr (t.nodup.filter _)
    refine (List.perm_ext_iff_of_nodup (t.nodup.filter _)
      (hnodup.sublist (List.take_sublist _ _))).mpr fun r => ?_
    rw [List.mem_filter, decide_eq_true_iff]
    constructor
    · rintro ⟨hr, hid⟩
      exact (st.id_mem_select batchSize t hr).mp hid
    · intro h
      have hr := ((st.mem_expiredRows t).mp (List.mem_of_mem_take h)).1
      exact ⟨hr, (st.id_mem_select batchSize t hr).mpr h⟩
  rw [deleteExpiredBatch, hchosen.length_eq, length_take_expiredRows]

theorem mem_deleteExpiredBatch {r : KeyRow} :
    r ∈ (deleteExpiredBatch st batchSize t).2.rows ↔
      r ∈ t.rows ∧ r ∉ (st.expiredRows t).take batchSize := by
  simp only [deleteExpiredBatch, KeyTable.delete, List.mem_filter, decide_eq_true_iff]
  refine and_congr_right fun hr => ?_
  rw [st.id_mem_select batchSize t hr]

/- What one batch does. -/
theorem deleteExpiredBatch_purged :
    Purged st.now (deleteExpiredBatch st batchSize t).1 t (deleteExpiredBatch st batchSize t).2 := by
  have hdeleted : ∀ r ∈ t.rows, r ∉ (deleteExpiredBatch st batchSize t).2.rows →
      r ∈ (st.expiredRows t).take batchSize := by
    intro r hr hgone
    by_contra hnot
    exact hgone ((mem_deleteExpiredBatch st batchSize t).mpr ⟨hr, hnot⟩)
  constructor
  · exact List.filter_sublist
  · simp only [deleteExpiredBatch, KeyTable.delete]
    have hsplit := List.length_eq_length_filter_add (l := t.rows)
      (fun r => decide (r.id ∈ st.select batchSize t))
    simp only [decide_not] at hsplit ⊢
    omega
  · intro r hr hgone
    exact ((st.mem_expiredRows t).mp (List.mem_of_mem_take (hdeleted r hr hgone))).2
  · intro r hr hgone later hlater hexpired
    obtain ⟨hmem, hnot⟩ := (mem_deleteExpiredBatch st batchSize t).mp hlater
    have hrow := (st.mem_expiredRows t).mpr ⟨hmem, hexpired⟩
    have hsorted := st.expiredRows_sorted t
    rw [← List.take_append_drop batchSize (st.expiredRows t)] at hrow hsorted
    exact (List.pairwise_append.mp hsorted).2.2 r (hdeleted r hr hgone) later
      ((List.mem_append.mp hrow).resolve_left hnot)

end Batch

/-! ### The run -/

theorem Purged.refl (now : ℤ) (t : KeyTable) : Purged now 0 t t where
  kept := List.Sublist.refl _
  count := rfl
  expired _ hr hgone := absurd hr hgone
  earliest _ hr hgone := absurd hr hgone

theorem Purged.trans {now : ℤ} {n m : ℕ} {t t' t'' : KeyTable} (h : Purged now n t t')
    (h' : Purged now m t' t'') : Purged now (n + m) t t'' where
  kept := h'.kept.trans h.kept
  count := by
    have hcount := h.count
    have hcount' := h'.count
    omega
  expired := by
    intro r hr hgone
    by_cases hmid : r ∈ t'.rows
    · exact h'.expired r hmid hgone
    · exact h.expired r hr hmid
  earliest := by
    intro r hr hgone later hlater hexpired
    by_cases hmid : r ∈ t'.rows
    · exact h'.earliest r hmid hgone later hlater hexpired
    · exact h.earliest r hr hmid later (h'.kept.subset hlater) hexpired

theorem filter_unexpired_eq {now : ℤ} {n : ℕ} {t t' : KeyTable} (h : Purged now n t t') :
    t'.rows.filter (fun r => !isExpired now r) = t.rows.filter fun r => !isExpired now r := by
  have hsub := h.kept.filter fun r => !isExpired now r
  refine hsub.eq_of_length_le ?_
  refine (t.nodup.filter _).subperm ?_ |>.length_le
  intro r hr
  obtain ⟨hmem, hfresh⟩ := List.mem_filter.mp hr
  refine List.mem_filter.mpr ⟨?_, hfresh⟩
  by_contra hgone
  simp [h.expired r hmem hgone] at hfresh

/- Every deleted row was expired, so there are as many expired rows less. -/
theorem Purged.expiredCount_add {now : ℤ} {n : ℕ} {t t' : KeyTable} (h : Purged now n t t') :
    expiredCount now t' + n = expiredCount now t := by
  have hsplit := List.length_eq_length_filter_add (l := t.rows) (isExpired now)
  have hsplit' := List.length_eq_length_filter_add (l := t'.rows) (isExpired now)
  have hfresh := congrArg List.length (filter_unexpired_eq h)
  have hcount := h.count
  simp only [expiredCount]
  omega

/- No row expires while the run goes on. -/
def Steady (statements : ℕ → Statement) (now : ℤ) (t : KeyTable) : Prop :=
  ∀ k, ∀ r ∈ t.rows, isExpired (statements k).now r = isExpired now r

theorem Steady.expiredCount_eq {statements : ℕ → Statement} {now : ℤ} {t : KeyTable}
    (h : Steady statements now t) (k : ℕ) : expiredCount (statements k).now t = expiredCount now t := by
  rw [expiredCount, expiredCount, List.filter_congr (h k)]

theorem Steady.purged {statements : ℕ → Statement} {now : ℤ} {t t' : KeyTable}
    (h : Steady statements now t) {k n : ℕ} (hp : Purged (statements k).now n t t') :
    Purged now n t t' where
  kept := hp.kept
  count := hp.count
  expired r hr hgone := h k r hr ▸ hp.expired r hr hgone
  earliest r hr hgone later hlater hexpired :=
    hp.earliest r hr hgone later hlater ((h k later (hp.kept.subset hlater)).trans hexpired)

/- What is left to delete after a full batch, with one batch less to come. -/
theorem min_full_batch {E b n : ℕ} (hfull : b ≤ E) :
    b + min (E - b) (b * n) = min E (b * (n + 1)) := by
  rw [Nat.mul_succ]
  omega

theorem purgeFrom_purged {statements : ℕ → Statement} {now : ℤ} (batchSize remaining : ℕ)
    (s : PurgeState) (hsteady : Steady statements now s.table) :
    (purgeFrom statements batchSize remaining s).totalDeleted =
        s.totalDeleted + min (expiredCount now s.table) (batchSize * remaining) ∧
      Purged now (min (expiredCount now s.table) (batchSize * remaining)) s.table
        (purgeFrom statements batchSize remaining s).table := by
  induction remaining generalizing s with
  | zero =>
    rw [Nat.mul_zero, Nat.min_zero]
    exact ⟨rfl, Purged.refl now s.table⟩
  | succ remaining ih =>
    have hbatch := hsteady.purged
      (deleteExpiredBatch_purged (statements s.batchCount) batchSize s.table)
    have hcount := deleteExpiredBatch_count (statements s.batchCount) batchSize s.table
    rw [hsteady.expiredCount_eq] at hcount
    rw [purgeFrom]
    generalize deleteExpiredBatch (statements s.batchCount) batchSize s.table = batch at *
    obtain ⟨deleted, table⟩ := batch
    simp only at hbatch hcount ⊢
    split
    · -- Nothing is expired, or the batch size is zero.
      rename_i hnone
      have hall : min (expiredCount now s.table) (batchSize * (remaining + 1)) = 0 := by
        rw [hnone] at hcount
        rcases Nat.min_eq_zero_iff.mp hcount.symm with h | h
        · rw [h, Nat.zero_min]
        · rw [h, Nat.zero_mul, Nat.min_zero]
      rw [hnone] at hbatch
      rw [hall]
      exact ⟨rfl, hbatch⟩
    · split
      · rename_i hpartial
        have hall : min (expiredCount now s.table) (batchSize * (remaining + 1)) = deleted := by
          rw [Nat.mul_succ]
          omega
        rw [hall]
        exact ⟨rfl, hbatch⟩
      · rename_i hfull
        have hdeleted : deleted = batchSize := by omega
        subst hdeleted
        have hle : deleted ≤ expiredCount now s.table := by omega
        have hleft : expiredCount now table = expiredCount now s.table - deleted := by
          have hadd := hbatch.expiredCount_add
          omega
        have hrest := ih ⟨s.totalDeleted + deleted, s.batchCount + 1, table⟩
          (fun k r hr => hsteady k r (hbatch.kept.subset hr))
        simp only [hleft] at hrest
        rw [← min_full_batch hle, hrest.1, Nat.add_assoc]
        exact ⟨rfl, hbatch.trans hrest.2⟩

/-- A run deletes as many of the expired rows as the batches hold, the earliest first, deletes no
other row, and reports their number. -/
theorem purgeExpiredKeys_exact (batchSize maxBatches : ℕ) (statements : ℕ → Statement)
    (t : KeyTable) (hsteady : Steady statements (statements 0).now t) :
    (purgeExpiredKeys batchSize maxBatches statements t).1.totalDeleted =
        min (expiredCount (statements 0).now t) (batchSize * maxBatches) ∧
      Purged (statements 0).now (min (expiredCount (statements 0).now t) (batchSize * maxBatches)) t
        (purgeExpiredKeys batchSize maxBatches statements t).2 := by
  have hrun := purgeFrom_purged batchSize maxBatches ⟨0, 0, t⟩ hsteady
  rwa [Nat.zero_add] at hrun

def arrival : RowOrder KeyRow := ⟨id, fun _ => List.Perm.refl _⟩

def sampleKeys : KeyTable where
  rows := [⟨"k1", 30⟩, ⟨"k2", 10⟩, ⟨"k3", 90⟩, ⟨"k4", 20⟩]
  distinct := by decide

/- Three rows are expired at 50; two batches of one delete the two that expired first. -/
theorem purgeExpiredKeys_sample :
    (purgeExpiredKeys 1 2 (fun _ => ⟨50, arrival⟩) sampleKeys).1.totalDeleted = 2 ∧
      Purged 50 2 sampleKeys (purgeExpiredKeys 1 2 (fun _ => ⟨50, arrival⟩) sampleKeys).2 :=
  purgeExpiredKeys_exact 1 2 (fun _ => ⟨50, arrival⟩) sampleKeys fun _ _ _ => rfl

end Liquifact.Jobs
