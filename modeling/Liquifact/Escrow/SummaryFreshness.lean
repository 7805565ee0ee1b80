import Liquifact.Escrow.EscrowRead
import Liquifact.Lib.JsonText

/-!
# At which ledger a cached summary was recorded

`getSummary` (`src/cache/redis.js`, 199-237) refuses an entry whose ledger lies more than
`ledgerGapThreshold` away from the ledger its caller passes. `getEscrowStateWithProjection`
(`src/services/escrowRead.js`, 679-740) asks the cache before it reads the projection and passes
none: the cache wins on a hit, however old the entry is.
-/

namespace Liquifact.Escrow
open Liquifact.Lib

/- What the client holds for an identifier, where it is an entry `getSummary` can read. -/
def storedEntry (cache : SummaryCache) (invoiceId : String) : Option Json :=
  if isValidInvoiceId invoiceId then
    match cache.get ("escrow:summary:" ++ invoiceId) with
    | .ok (some raw) =>
      match Json.parse raw with
      | some .null => none
      | entry => entry
    | _ => none
  else none

def recordedLedger (entry : Json) : Option ℚ := finiteNumber (entry.member "cachedLedger")

def projectedLedger : ProjectionRead → Option ℚ
  | .ok (some row) =>
    match (OrdMap.lookupL "latest_ledger_sequence" row).map Json.toNumber with
    | some (.fin q) => some q
    | _ => none
  | _ => none

theorem getSummary_eq (cache : SummaryCache) (id : String) (current : Option ℚ) :
    (storedEntry cache id = none ∧ ∃ reason, getSummary cache id current = .miss reason) ∨
      ∃ entry, storedEntry cache id = some entry ∧ getSummary cache id current =
        if ledgerGap cache.ledgerGapThreshold current (recordedLedger entry) then .miss "ledger_gap"
        else .hit (entry.member "summary") := by
  unfold getSummary storedEntry
  by_cases hvalid : isValidInvoiceId id = true
  · rw [if_pos hvalid, hvalid, Bool.not_true, if_neg (by decide)]
    cases hget : cache.get ("escrow:summary:" ++ id) with
    | error err => exact Or.inl ⟨rfl, _, rfl⟩
    | ok found =>
      cases found with
      | none => exact Or.inl ⟨rfl, _, rfl⟩
      | some raw =>
        dsimp only
        cases hparse : Json.parse raw with
        | none =>
          exact Or.inl ⟨rfl, _, rfl⟩
        | some entry =>
          cases entry with
          | null => exact Or.inl ⟨rfl, _, rfl⟩
          | bool b => exact Or.inr ⟨_, rfl, rfl⟩
          | num x => exact Or.inr ⟨_, rfl, rfl⟩
          | str text => exact Or.inr ⟨_, rfl, rfl⟩
          | arr items => exact Or.inr ⟨_, rfl, rfl⟩
          | obj members => exact Or.inr ⟨_, rfl, rfl⟩
  · rw [if_neg hvalid, Bool.eq_false_of_not_eq_true hvalid, Bool.not_false, if_pos rfl]
    exact Or.inl ⟨rfl, _, rfl⟩

theorem getSummary_of_stored {cache : SummaryCache} {id : String} {entry : Json}
    (h : storedEntry cache id = some entry) : getSummary cache id none = .hit (entry.member "summary") := by
  rcases getSummary_eq cache id none with ⟨hnone, -⟩ | ⟨found, hfound, hsummary⟩
  · rw [h] at hnone
    cases hnone
  · rw [h] at hfound
    cases hfound
    exact hsummary

theorem cachedReading_of_stored {cache : SummaryCache} {id : String} {entry : Json}
    (h : storedEntry cache id = some entry) :
    cachedReading (some cache) id = .hit (entry.member "summary") := getSummary_of_stored h

theorem stored_of_hit {cache : SummaryCache} {id : String} {current : Option ℚ} {value : Option Json}
    (h : getSummary cache id current = .hit value) :
    ∃ entry, storedEntry cache id = some entry ∧ value = entry.member "summary" ∧
      ledgerGap cache.ledgerGapThreshold current (recordedLedger entry) = false := by
  rcases getSummary_eq cache id current with ⟨-, reason, hmiss⟩ | ⟨entry, hentry, hsummary⟩
  · rw [h] at hmiss
    cases hmiss
  · rw [h] at hsummary
    split at hsummary
    · cases hsummary
    · next hgap =>
      cases hsummary
      exact ⟨entry, hentry, rfl, Bool.eq_false_of_not_eq_true hgap⟩

/-- A state from the summary cache is the summary of whatever entry is stored for the invoice,
whatever the projection holds. What `getSummary` returns to a caller that passes the current
ledger was, where the entry records a ledger, recorded within the threshold of it. -/
theorem cached_summary_rule (soroban : Soroban) (cache : SummaryCache) :
    (∀ s entry, storedEntry cache (trim s) = some entry → ∀ projection again,
      getEscrowStateWithProjection soroban (some cache) projection again (.string s) =
        .ok ⟨entry.member "summary", none, none⟩) ∧
    ∀ id current value, getSummary cache id (some current) = .hit value →
      ∃ entry, storedEntry cache id = some entry ∧ value = entry.member "summary" ∧
        ∀ q, recordedLedger entry = some q →
          JsNumber.lt cache.ledgerGapThreshold (.fin |current - q|) = false := by
  constructor
  · intro s entry hentry projection again
    have hhit := cachedReading_of_stored hentry
    simp only [getEscrowStateWithProjection, hhit]
  · intro id current value hhit
    obtain ⟨entry, hentry, hvalue, hgap⟩ := stored_of_hit hhit
    refine ⟨entry, hentry, hvalue, ?_⟩
    intro q hq
    rw [hq] at hgap
    exact hgap

/-! ### An entry from a hundred ledgers ago -/

def pendingEntry : Json :=
  .obj [("summary", .obj [("status", .str "pending")]), ("cachedLedger", .num (.fin 100))]

def pendingCache : SummaryCache := ⟨.fin 3, fun _ => .ok (some pendingEntry.stringify)⟩

theorem pendingCache_stored : storedEntry pendingCache "inv_1" = some pendingEntry := by
  have hplain : pendingEntry.Plain := by
    simp only [pendingEntry, Json.Plain, PlainMembers, and_true, true_and]
    exact ⟨⟨by decide, 100, rfl, by decide⟩, by decide⟩
  have hvalid : isValidInvoiceId "inv_1" = true := by decide
  rw [storedEntry, if_pos hvalid]
  simp only [pendingCache, Json.parse_stringify _ hplain]
  rfl

theorem pendingCache_served : storedEntry pendingCache (trim "inv_1") = some pendingEntry := by
  have htrim : trim "inv_1" = "inv_1" := by decide
  rw [htrim]
  exact pendingCache_stored

theorem cached_summary_rule_pending :
    (∃ r, getEscrowStateWithProjection directSoroban (some pendingCache) (.ok none) (.ok none)
      (.string "inv_1") = .ok r ∧ r.state = some (.obj [("status", .str "pending")])) ∧
    ∃ value, getSummary pendingCache "inv_1" (some 102) = .hit value ∧
      ∃ entry, storedEntry pendingCache "inv_1" = some entry ∧ value = entry.member "summary" ∧
        ∀ q, recordedLedger entry = some q → JsNumber.lt (.fin 3) (.fin |102 - q|) = false := by
  have hgap : ledgerGap pendingCache.ledgerGapThreshold (some 102) (recordedLedger pendingEntry) = false := by
    decide +kernel
  have hhit : getSummary pendingCache "inv_1" (some 102) = .hit (pendingEntry.member "summary") := by
    rcases getSummary_eq pendingCache "inv_1" (some 102) with ⟨hnone, -⟩ | ⟨entry, hentry, hsummary⟩
    · rw [pendingCache_stored] at hnone
      cases hnone
    · rw [pendingCache_stored] at hentry
      cases hentry
      rw [hsummary, hgap, if_neg (by decide)]
  obtain ⟨hserved, hrule⟩ := cached_summary_rule directSoroban pendingCache
  have hread := hserved "inv_1" pendingEntry pendingCache_served (.ok none) (.ok none)
  have hfresh := hrule "inv_1" 102 _ hhit
  exact ⟨⟨_, hread, rfl⟩, _, hhit, hfresh⟩

def fundedLater : Members :=
  [("latest_event_type", .str "funded"), ("latest_ledger_sequence", .num (.fin 200))]

theorem stale_summary_served :
    ¬ ∀ (soroban : Soroban) (cache : SummaryCache) (projection again : ProjectionRead) (s : String)
      (value : Option Json), cachedReading (some cache) (trim s) = .hit value →
      getEscrowStateWithProjection soroban (some cache) projection again (.string s) =
        .ok ⟨value, none, none⟩ → ∀ p, projectedLedger projection = some p →
      ∃ entry q, storedEntry cache (trim s) = some entry ∧ recordedLedger entry = some q ∧
        JsNumber.le (.fin (p - q)) cache.ledgerGapThreshold = true := by
  intro h
  have hhit := cachedReading_of_stored pendingCache_served
  have hserved : getEscrowStateWithProjection directSoroban (some pendingCache) (.ok (some fundedLater))
      (.ok none) (.string "inv_1") = .ok ⟨pendingEntry.member "summary", none, none⟩ := by
    simp only [getEscrowStateWithProjection, hhit]
  have hledger : projectedLedger (.ok (some fundedLater)) = some 200 := rfl
  obtain ⟨entry, q, hentry, hq, hfresh⟩ :=
    h directSoroban pendingCache _ _ "inv_1" _ hhit hserved 200 hledger
  have hpending : entry = pendingEntry := Option.some.inj (hentry.symm.trans pendingCache_served)
  have hrecorded : recordedLedger pendingEntry = some 100 := rfl
  rw [hpending, hrecorded, Option.some.injEq] at hq
  rw [← hq] at hfresh
  have hgap : JsNumber.le (.fin (200 - 100)) (.fin 3) = false := by decide +kernel
  exact absurd (hfresh.symm.trans hgap) (by decide)

end Liquifact.Escrow
