import Liquifact.Invest.FundInvoice

/-!
# Submissions and their records

The handler submits first and looks the idempotency key up afterwards: a request that
repeats investor, invoice and amount is submitted again, and the row of the first
submission is returned. Over a sequence of requests the table is a register that keeps the
first commitment of each key.
-/

namespace Liquifact.Invest
open Liquifact.Lib

section Sequence
variable (ctx : FundContext)

/- The table after a sequence of requests, from an empty one. -/
def commitmentsAfter (reqs : List FundRequest) : List CommitmentRow :=
  run (fun table req => (fundInvoice ctx table req).2) [] reqs

/- The commitments of the submissions that succeeded, in order. -/
def submissions (reqs : List FundRequest) : List Commitment :=
  reqs.filterMap fun req => (submissionOf ctx req).toOption

/-- Each submission with a transaction hash has a row that carries it, and there are as
many rows as such submissions. -/
def EveryRecorded (reqs : List FundRequest) : Prop :=
  (∀ c ∈ submissions ctx reqs, ∀ hash, c.txHash = some hash →
    ∃ row ∈ commitmentsAfter ctx reqs, row.txHash = some hash) ∧
  (commitmentsAfter ctx reqs).length =
    ((submissions ctx reqs).filter fun c => c.txHash.isSome).length

/- Amounts that the commitment store accepts. -/
def ValidAmounts (reqs : List FundRequest) : Prop :=
  ∀ req ∈ reqs, ∀ c, submissionOf ctx req = .ok c → CanonicalAmount (amountText req)

def rowKey (row : CommitmentRow) : Option String := row.idempotencyKey

def offeredRow (req : FundRequest) : Option CommitmentRow :=
  (submissionOf ctx req).toOption.map fun c => ⟨c, req.uuid⟩

variable {ctx}

theorem HexDigest.text_ne_empty (d : HexDigest) : d.text ≠ "" := by
  intro h
  have hlen := d.length
  rw [h] at hlen
  cases hlen

theorem existingCommitment_digest (table : List CommitmentRow) (d : HexDigest) :
    existingCommitment table (some d.text) =
      table.find? fun row => row.idempotencyKey = some d.text := by
  have htruthy : truthy (some d.text) = some d.text := by
    unfold truthy
    split
    · rename_i h
      exact absurd (Option.some.inj h) d.text_ne_empty
    · rfl
  rw [existingCommitment, htruthy]

theorem fundInvoice_of_error {req : FundRequest} {ending : FundEnd} (table : List CommitmentRow)
    (h : submissionOf ctx req = .error ending) : (fundInvoice ctx table req).2 = table := by
  simp only [fundInvoice, h]

/- A submission with a valid amount is registered under its key. -/
theorem fundInvoice_of_ok {req : FundRequest} {c : Commitment} (table : List CommitmentRow)
    (h : submissionOf ctx req = .ok c) (hamount : CanonicalAmount (amountText req)) :
    (fundInvoice ctx table req).2 = register rowKey table ⟨c, req.uuid⟩ := by
  have hsubmitted := submissionOf_ok h
  have hvalid : validateAmountStroops (.string c.amountStroops) = .ok () := by
    rw [hsubmitted.amount]
    exact (validateAmountStroops_ok_iff _).mpr hamount
  have hpersist := persistCommitment_of_valid hvalid hsubmitted.address table req.uuid
  obtain ⟨escrow, result, -, hc⟩ := hsubmitted.returned
  have hkey : c.idempotencyKey = some (ctx.sha256
      (investorText req ++ ":" ++ invoiceText req ++ ":" ++ amountText req)).text := by
    rw [hc]
    rfl
  rw [hkey, existingCommitment_digest, ← hkey] at hpersist
  simp only [fundInvoice, h, hpersist]
  unfold register
  cases hfind : table.find? fun row => decide (row.idempotencyKey = c.idempotencyKey) with
  | some row =>
    have hrow := List.find?_some hfind
    have hmem : rowKey ⟨c, req.uuid⟩ ∈ table.map rowKey := by
      refine List.mem_map.mpr ⟨row, List.mem_of_find?_eq_some hfind, ?_⟩
      exact of_decide_eq_true hrow
    rw [if_pos hmem]
  | none =>
    have hnew : rowKey ⟨c, req.uuid⟩ ∉ table.map rowKey := by
      intro hmem
      obtain ⟨row, hrow, heq⟩ := List.mem_map.mp hmem
      exact List.find?_eq_none.mp hfind row hrow (decide_eq_true heq)
    rw [if_neg hnew]

theorem commitmentsAfter_eq {reqs : List FundRequest} (hvalid : ValidAmounts ctx reqs)
    (table : List CommitmentRow) :
    run (fun table req => (fundInvoice ctx table req).2) table reqs =
      run (register rowKey) table (reqs.filterMap (offeredRow ctx)) := by
  induction reqs generalizing table with
  | nil => rfl
  | cons req reqs ih =>
    have hrest : ValidAmounts ctx reqs := fun r hr => hvalid r (List.mem_cons_of_mem _ hr)
    rw [run_cons, ih hrest, List.filterMap_cons]
    cases h : submissionOf ctx req with
    | error ending =>
      have hnone : offeredRow ctx req = none := by
        rw [offeredRow, h]
        rfl
      rw [hnone, fundInvoice_of_error table h]
    | ok c =>
      have hsome : offeredRow ctx req = some ⟨c, req.uuid⟩ := by
        rw [offeredRow, h]
        rfl
      rw [hsome, run_cons, fundInvoice_of_ok table h (hvalid req (List.mem_cons_self ..) c h)]

theorem offered_commitments (reqs : List FundRequest) :
    (reqs.filterMap (offeredRow ctx)).map CommitmentRow.toCommitment = submissions ctx reqs := by
  rw [List.map_filterMap, submissions]
  congr 1
  funext req
  rw [offeredRow, Option.map_map]
  exact Option.map_id'

theorem offered_keys (reqs : List FundRequest) :
    (reqs.filterMap (offeredRow ctx)).map rowKey =
      (submissions ctx reqs).map Commitment.idempotencyKey := by
  rw [← offered_commitments, List.map_map]
  rfl

theorem filter_txHash (hmode : signingMode ctx.env = "custodial") (reqs : List FundRequest) :
    (submissions ctx reqs).filter (fun c => c.txHash.isSome) = submissions ctx reqs := by
  refine List.filter_eq_self.mpr fun c hc => ?_
  obtain ⟨req, -, hreq⟩ := List.mem_filterMap.mp hc
  have hok : submissionOf ctx req = .ok c := by
    cases h : submissionOf ctx req with
    | error ending =>
      rw [h] at hreq
      cases hreq
    | ok c' =>
      rw [h] at hreq
      cases hreq
      rfl
  obtain ⟨escrow, result, hsubmit, rfl⟩ := (submissionOf_ok hok).returned
  obtain ⟨hash, hhash⟩ := custodial_txHash hmode hsubmit
  exact Option.isSome_iff_exists.mpr ⟨hash, hhash⟩

theorem count_recorded_iff (hmode : signingMode ctx.env = "custodial") {reqs : List FundRequest}
    (hvalid : ValidAmounts ctx reqs) :
    (commitmentsAfter ctx reqs).length =
        ((submissions ctx reqs).filter fun c => c.txHash.isSome).length ↔
      ((submissions ctx reqs).map Commitment.idempotencyKey).Nodup := by
  have hlength : (submissions ctx reqs).length = (reqs.filterMap (offeredRow ctx)).length := by
    rw [← offered_commitments, List.length_map]
  rw [filter_txHash hmode, hlength, ← offered_keys, ← length_run_register_iff,
    ← commitmentsAfter_eq hvalid []]
  rfl

/-- In custodial mode and with valid amounts, every submission is recorded once exactly
when no two of them derive the same idempotency key. -/
theorem everyRecorded_iff (hmode : signingMode ctx.env = "custodial") {reqs : List FundRequest}
    (hvalid : ValidAmounts ctx reqs) :
    EveryRecorded ctx reqs ↔ ((submissions ctx reqs).map Commitment.idempotencyKey).Nodup := by
  have hcount := count_recorded_iff hmode hvalid
  refine ⟨fun h => hcount.mp h.2, fun hnodup => ⟨?_, hcount.mpr hnodup⟩⟩
  intro c hc hash hhash
  have htable : commitmentsAfter ctx reqs = reqs.filterMap (offeredRow ctx) := by
    rw [← offered_keys] at hnodup
    rw [commitmentsAfter, commitmentsAfter_eq hvalid]
    exact run_register_of_nodup rowKey hnodup (fun _ _ h => by cases h)
  rw [← offered_commitments] at hc
  obtain ⟨row, hrow, rfl⟩ := List.mem_map.mp hc
  exact ⟨row, htable ▸ hrow, hhash⟩

end Sequence

theorem validAmounts_hundred {reqs : List FundRequest}
    (h : ∀ req ∈ reqs, amountText req = "100") : ValidAmounts sampleContext reqs := by
  intro req hreq c _
  rw [h req hreq]
  exact ⟨100, by decide, by decide, rfl⟩

theorem everyRecorded_single :
    EveryRecorded sampleContext [sampleRequest (.str "100") "a1" "row-1"] := by
  have hvalid : ValidAmounts sampleContext [sampleRequest (.str "100") "a1" "row-1"] :=
    validAmounts_hundred fun req hreq => by
      rw [List.mem_singleton.mp hreq]
      rfl
  refine (everyRecorded_iff sample_mode hvalid).mpr ?_
  have hone : submissions sampleContext [sampleRequest (.str "100") "a1" "row-1"] =
      [sampleCommitment (.str "100") "a1" "row-1"] := by
    simp only [submissions, List.filterMap_cons, hundred_submission, Except.toOption,
      List.filterMap_nil]
  rw [hone]
  exact List.nodup_singleton _

/- The same investor funds the same invoice with the same amount twice. -/
def repeatedRequests : List FundRequest :=
  [sampleRequest (.str "100") "a1" "row-1", sampleRequest (.str "100") "b2" "row-2"]

theorem repeated_submission_unrecorded : ¬ EveryRecorded sampleContext repeatedRequests := by
  intro hrecorded
  have hvalid : ValidAmounts sampleContext repeatedRequests :=
    validAmounts_hundred fun req hreq => by
      simp only [repeatedRequests, List.mem_cons, List.not_mem_nil, or_false] at hreq
      rcases hreq with rfl | rfl <;> rfl
  have htwo : submissions sampleContext repeatedRequests =
      [sampleCommitment (.str "100") "a1" "row-1", sampleCommitment (.str "100") "b2" "row-2"] := by
    simp only [submissions, repeatedRequests, List.filterMap_cons, hundred_submission,
      Except.toOption, List.filterMap_nil]
  have hnodup := (count_recorded_iff sample_mode hvalid).mp hrecorded.2
  rw [htwo] at hnodup
  exact (List.nodup_cons.mp hnodup).1 (List.mem_singleton.mpr rfl)

end Liquifact.Invest
