import Liquifact.Jobs.EscrowIndexer
import Liquifact.Lib.Latest
import Liquifact.Lib.Run
import Mathlib.Data.Prod.Lex

/-!
# The projection shows the latest event

`shouldReplaceProjection` is the strict order of (ledger sequence, paging token), so
each projection row is a register that keeps the greatest event of its invoice. The
tables after any deliveries are compared with that abstract register.
-/

namespace Liquifact.Jobs
open Liquifact.Lib

/-- The order of events: ledger sequence, then the code units of the paging token. -/
def EscrowEvent.key (e : EscrowEvent) : ℕ ×ₗ List ℕ := toLex (e.ledgerSequence, utf16 e.pagingToken)

theorem numberOrZero_readLedger (asText : Bool) (n : ℕ) :
    numberOrZero (readLedger asText n) = .fin n := by
  cases asText <;> rfl

theorem orNull_getD (s : String) : (orNull s).getD "" = s := by
  unfold orNull
  split
  · rename_i hs
    rw [hs]
    rfl
  · rfl

def Projection.key (row : Projection) : ℕ ×ₗ List ℕ :=
  toLex (row.latestLedgerSequence, utf16 (row.latestPagingToken.getD ""))

theorem projectionOf_key (e : EscrowEvent) : (projectionOf e).key = e.key := by
  rw [Projection.key, projectionOf, orNull_getD]
  rfl

theorem shouldReplaceProjection_some (asText : Bool) (row : Projection) (e : EscrowEvent) :
    shouldReplaceProjection asText (some row) e = true ↔ row.key < e.key := by
  have hlt : ∀ m n : ℕ, JsNumber.lt (.fin m) (.ofNat n) = true ↔ m < n := by
    intro m n
    simp [JsNumber.ofNat]
  have hgt : ∀ m n : ℕ, JsNumber.lt (.ofNat m) (.fin n) = true ↔ m < n := by
    intro m n
    simp [JsNumber.ofNat]
  simp only [shouldReplaceProjection, numberOrZero_readLedger, Projection.key, EscrowEvent.key,
    Prod.Lex.toLex_lt_toLex]
  -- the two ledger tests decide unless the sequences are equal; then the tokens do
  rcases lt_trichotomy row.latestLedgerSequence e.ledgerSequence with h | h | h
  · rw [if_pos ((hlt _ _).mpr h)]
    simp [h]
  · rw [if_neg (by rw [hlt]; omega), if_neg (by rw [hgt]; omega)]
    simp [jsLt, h]
  · rw [if_neg (by rw [hlt]; omega), if_pos ((hgt _ _).mpr h)]
    simp [h.not_gt, h.ne']

theorem shouldReplaceProjection_iff (asText : Bool) (c e : EscrowEvent) :
    shouldReplaceProjection asText (some (projectionOf c)) e = true ↔ c.key < e.key := by
  rw [shouldReplaceProjection_some, projectionOf_key]

section Deliveries
variable (checksum : String → Option Bool)

/- The event a delivery persists, if it is well-formed and the columns take it. -/
def Delivery.event (d : Delivery) : Option EscrowEvent :=
  match normalizeEvent checksum d.observed d.raw with
  | .error _ => none
  | .ok e => if e.ledgerSequence < 2 ^ 63 then some e else none

def EscrowTables.step (t : EscrowTables) (d : Delivery) : EscrowTables :=
  match persistEscrowEvent checksum t d with
  | .error _ => t
  | .ok r => r.2

def EscrowTables.empty : EscrowTables := ⟨.empty, .empty⟩

def deliver (ds : List Delivery) : EscrowTables := run (EscrowTables.step checksum) .empty ds

def persisted (ds : List Delivery) : List EscrowEvent := ds.filterMap (Delivery.event checksum)

structure Stored (t : EscrowTables) (d : Delivery) (e : EscrowEvent) (t' : EscrowTables) : Prop where
  known : t.events.has e.eventId = true → t'.events = t.events
  stored : ∀ x, t.events.has x = true ∨ x = e.eventId → t'.events.has x = true
  replaced : shouldReplaceProjection d.asText
      ((t.projection.get e.invoiceId).map ProjectionRow.toProjection) e = true →
    t'.projection = t.projection.set e.invoiceId ⟨projectionOf e, d.written⟩
  retained : shouldReplaceProjection d.asText
      ((t.projection.get e.invoiceId).map ProjectionRow.toProjection) e = false →
    t'.projection = t.projection

variable {checksum}

theorem persist_of_none {t : EscrowTables} {d : Delivery} (h : d.event checksum = none) :
    ∃ m, persistEscrowEvent checksum t d = .error m := by
  cases hp : persistEscrowEvent checksum t d with
  | error m => exact ⟨m, rfl⟩
  | ok r =>
    obtain ⟨e, he, hrest⟩ := bind_ok hp
    obtain ⟨t', hu, -⟩ := bind_ok hrest
    obtain ⟨_, hfits, -⟩ := bind_ok hu
    have hlt := require_ok hfits
    simp only [Delivery.event, he, if_pos hlt, reduceCtorEq] at h

theorem step_of_none {t : EscrowTables} {d : Delivery} (h : d.event checksum = none) :
    t.step checksum d = t := by
  obtain ⟨m, hm⟩ := persist_of_none (t := t) h
  rw [EscrowTables.step, hm]

theorem event_eq_some {d : Delivery} {e : EscrowEvent} (h : d.event checksum = some e) :
    normalizeEvent checksum d.observed d.raw = .ok e ∧ e.ledgerSequence < 2 ^ 63 := by
  unfold Delivery.event at h
  cases hn : normalizeEvent checksum d.observed d.raw with
  | error m =>
    simp only [hn] at h
    cases h
  | ok e' =>
    simp only [hn] at h
    split at h
    · rename_i hfits
      cases h
      exact ⟨rfl, hfits⟩
    · cases h

/- The two writes of an accepted event, with the row test between them. -/
theorem persist_of_some {t : EscrowTables} {d : Delivery} {e : EscrowEvent}
    (h : d.event checksum = some e) : ∃ t', upsertEvent t e d.written = .ok t' ∧
      persistEscrowEvent checksum t d = .ok (e, if shouldReplaceProjection d.asText
        ((t'.projection.get e.invoiceId).map ProjectionRow.toProjection) e
        then upsertProjection t' e d.written else t') := by
  obtain ⟨hn, hfits⟩ := event_eq_some h
  have hu : ∃ t', upsertEvent t e d.written = .ok t' := by
    unfold upsertEvent
    rw [show require (e.ledgerSequence < 2 ^ 63) "value is out of range for type bigint" =
      .ok () from if_pos hfits]
    exact ⟨_, rfl⟩
  obtain ⟨t', hu⟩ := hu
  refine ⟨t', hu, ?_⟩
  simp only [persistEscrowEvent, hn, hu, bind, Except.bind]

theorem step_of_ok {t : EscrowTables} {d : Delivery} {r : EscrowEvent × EscrowTables}
    (h : persistEscrowEvent checksum t d = .ok r) : t.step checksum d = r.2 := by
  rw [EscrowTables.step, h]

theorem upsertEvent_ok {t t' : EscrowTables} {e : EscrowEvent} {now : ℕ}
    (h : upsertEvent t e now = .ok t') : t'.projection = t.projection ∧
      (t.events.has e.eventId = true → t'.events = t.events) ∧
      ∀ x, t.events.has x = true ∨ x = e.eventId → t'.events.has x = true := by
  obtain ⟨_, -, hrest⟩ := bind_ok h
  split at hrest
  · rename_i hhas
    cases hrest
    refine ⟨rfl, fun _ => rfl, ?_⟩
    rintro x (hx | rfl)
    · exact hx
    · exact hhas
  · rename_i hhas
    cases hrest
    refine ⟨rfl, fun hc => absurd hc hhas, ?_⟩
    intro x hx
    simp only [OrdMap.has, OrdMap.get_set]
    split
    · rfl
    · rename_i hne
      exact hx.resolve_right fun he => hne he.symm

theorem step_of_some {t : EscrowTables} {d : Delivery} {e : EscrowEvent}
    (h : d.event checksum = some e) : Stored t d e (t.step checksum d) := by
  obtain ⟨t', hu, hp⟩ := persist_of_some (t := t) h
  obtain ⟨hproj, hknown, hstored⟩ := upsertEvent_ok hu
  rw [hproj] at hp
  rw [step_of_ok hp]
  refine ⟨?_, ?_, ?_, ?_⟩
  · intro hhas
    split
    · exact hknown hhas
    · exact hknown hhas
  · intro x hx
    split
    · exact hstored x hx
    · exact hstored x hx
  · intro hrep
    simp only [if_pos hrep, upsertProjection, hproj]
  · intro hret
    simp only [hret, Bool.false_eq_true, if_false, hproj]

def eventRowOf (e : EscrowEvent) (now : ℕ) : EventRow where
  eventId := e.eventId
  invoiceId := e.invoiceId
  eventType := e.eventType
  ledgerSequence := e.ledgerSequence
  pagingToken := orNull e.pagingToken
  contractId := e.contractId
  txHash := e.txHash
  eventBody := e.eventBody
  observedAt := e.observedAt
  createdAt := now

theorem step_events {t : EscrowTables} {d : Delivery} {e : EscrowEvent}
    (h : d.event checksum = some e) :
    (t.step checksum d).events = if t.events.has e.eventId then t.events
      else t.events.set e.eventId (eventRowOf e d.written) := by
  obtain ⟨t', hu, hp⟩ := persist_of_some (t := t) h
  obtain ⟨_, -, hrest⟩ := bind_ok hu
  have hevents : t'.events = if t.events.has e.eventId then t.events
      else t.events.set e.eventId (eventRowOf e d.written) := by
    cases hrest
    split
    · rfl
    · rfl
  rw [step_of_ok hp, ← hevents]
  split
  · rfl
  · rfl

theorem step_has {t : EscrowTables} {d : Delivery} {e : EscrowEvent}
    (h : d.event checksum = some e) (x : String) :
    (t.step checksum d).events.has x = true ↔ t.events.has x = true ∨ e.eventId = x := by
  rw [step_events h]
  split
  · rename_i hhas
    refine ⟨.inl, ?_⟩
    rintro (hx | rfl)
    · exact hx
    · exact hhas
  · rw [OrdMap.has, OrdMap.get_set]
    split
    · rename_i hx
      simp [hx]
    · rename_i hx
      simp [OrdMap.has, hx]

/-! ### The tables against the register -/

def ofInvoice (inv : String) (es : List EscrowEvent) : List EscrowEvent :=
  es.filter fun e => e.invoiceId = inv

/- Each projection row shows the register of its invoice, and every persisted event has
its row. -/
structure Shows (t : EscrowTables) (es : List EscrowEvent) : Prop where
  projection : ∀ inv, (t.projection.get inv).map ProjectionRow.toProjection =
    (latest EscrowEvent.key (ofInvoice inv es)).map projectionOf
  events : ∀ e ∈ es, t.events.has e.eventId = true

theorem ofInvoice_append (inv : String) (es : List EscrowEvent) (e : EscrowEvent) :
    ofInvoice inv (es ++ [e]) = if e.invoiceId = inv then ofInvoice inv es ++ [e]
      else ofInvoice inv es := by
  unfold ofInvoice
  rw [List.filter_append]
  split
  · rename_i he
    simp [he]
  · rename_i he
    simp [he]

theorem shows_empty : Shows .empty [] :=
  ⟨fun _ => rfl, fun _ he => absurd he List.not_mem_nil⟩

/- The test of the code is the test of the register. -/
theorem Shows.keep {t : EscrowTables} {es : List EscrowEvent} (h : Shows t es) (e : EscrowEvent)
    (asText : Bool) :
    keepGreatest EscrowEvent.key (latest EscrowEvent.key (ofInvoice e.invoiceId es)) e =
      if shouldReplaceProjection asText
        ((t.projection.get e.invoiceId).map ProjectionRow.toProjection) e then some e
      else latest EscrowEvent.key (ofInvoice e.invoiceId es) := by
  rw [h.projection]
  cases hc : latest EscrowEvent.key (ofInvoice e.invoiceId es) with
  | none => rfl
  | some c =>
    simp only [Option.map_some, keepGreatest, shouldReplaceProjection_iff]

theorem Shows.step {t : EscrowTables} {es : List EscrowEvent} {d : Delivery} {e : EscrowEvent}
    (h : Shows t es) (he : d.event checksum = some e) :
    Shows (t.step checksum d) (es ++ [e]) := by
  have hst := step_of_some (t := t) he
  refine ⟨?_, ?_⟩
  · intro inv
    have hkeep := h.keep e d.asText
    rw [ofInvoice_append]
    cases hrep : shouldReplaceProjection d.asText
        ((t.projection.get e.invoiceId).map ProjectionRow.toProjection) e with
    | true =>
      rw [hrep, if_pos rfl] at hkeep
      rw [hst.replaced hrep, OrdMap.get_set]
      split
      · rename_i hinv
        rw [← hinv, latest_append, hkeep]
        rfl
      · exact h.projection inv
    | false =>
      rw [hrep, if_neg (by simp)] at hkeep
      rw [hst.retained hrep]
      split
      · rename_i hinv
        rw [← hinv, latest_append, hkeep]
        exact h.projection e.invoiceId
      · exact h.projection inv
  · intro e' hmem
    rcases List.mem_append.mp hmem with hmem | hmem
    · exact hst.stored _ (.inl (h.events e' hmem))
    · rw [List.mem_singleton.mp hmem]
      exact hst.stored _ (.inr rfl)

variable (checksum) in
theorem shows_deliver (ds : List Delivery) : Shows (deliver checksum ds) (persisted checksum ds) := by
  induction ds using List.reverseRecOn with
  | nil => exact shows_empty
  | append_singleton ds d ih =>
    have hrun : deliver checksum (ds ++ [d]) = (deliver checksum ds).step checksum d := by
      rw [deliver, run_append]
      rfl
    have hlist : persisted checksum (ds ++ [d]) =
        persisted checksum ds ++ (d.event checksum).toList := by
      rw [persisted, List.filterMap_append]
      cases he : d.event checksum <;> simp [persisted, he]
    rw [hrun, hlist]
    cases he : d.event checksum with
    | none =>
      rw [step_of_none he, Option.toList_none, List.append_nil]
      exact ih
    | some e =>
      rw [Option.toList_some]
      exact ih.step he

theorem Shows.redeliver {t : EscrowTables} {es : List EscrowEvent} {d : Delivery}
    (h : Shows t es)
    (hd : ∀ e', d.event checksum = some e' → ∃ e ∈ es, e' = { e with observedAt := e'.observedAt }) :
    t.step checksum d = t := by
  cases he : d.event checksum with
  | none => exact step_of_none he
  | some e' =>
    obtain ⟨e, hmem, heq⟩ := hd e' he
    have hid : e'.eventId = e.eventId := by rw [heq]
    have hinv : e'.invoiceId = e.invoiceId := by rw [heq]
    have hkey : e'.key = e.key := by rw [heq]; rfl
    have hst := step_of_some (t := t) he
    have hevents : (t.step checksum d).events = t.events :=
      hst.known (by rw [hid]; exact h.events e hmem)
    have hseen : e ∈ ofInvoice e'.invoiceId es := by
      rw [ofInvoice, List.mem_filter]
      exact ⟨hmem, by simp [hinv]⟩
    have hproj : (t.step checksum d).projection = t.projection := by
      apply hst.retained
      rw [h.projection]
      cases hc : latest EscrowEvent.key (ofInvoice e'.invoiceId es) with
      | none =>
        rw [(latest_eq_none _).mp hc] at hseen
        cases hseen
      | some c =>
        have hle : e.key ≤ c.key := (isLatest_of_latest _ hc).2 e hseen
        rw [Bool.eq_false_iff, Option.map_some, Ne, shouldReplaceProjection_iff, hkey]
        exact not_lt.mpr hle
    calc t.step checksum d = ⟨(t.step checksum d).events, (t.step checksum d).projection⟩ := rfl
      _ = t := by rw [hevents, hproj]

theorem Shows.redeliver_run {t : EscrowTables} {es : List EscrowEvent} (h : Shows t es)
    (ds : List Delivery)
    (hds : ∀ d ∈ ds, ∀ e', d.event checksum = some e' →
      ∃ e ∈ es, e' = { e with observedAt := e'.observedAt }) :
    run (EscrowTables.step checksum) t ds = t := by
  induction ds with
  | nil => rfl
  | cons d ds ih =>
    rw [run_cons, h.redeliver (hds d (List.mem_cons_self ..))]
    exact ih fun d' hd' => hds d' (List.mem_cons_of_mem _ hd')

theorem key_inj {e e' : EscrowEvent} (h : e.key = e'.key) :
    e.ledgerSequence = e'.ledgerSequence ∧ e.pagingToken = e'.pagingToken := by
  obtain ⟨hledger, htoken⟩ := Prod.mk.inj h
  exact ⟨hledger, utf16_injective htoken⟩

theorem ledger_le_of_key_le {e e' : EscrowEvent} (h : e.key ≤ e'.key) :
    e.ledgerSequence ≤ e'.ledgerSequence := by
  rcases Prod.Lex.toLex_le_toLex.mp h with hlt | ⟨heq, -⟩
  · exact hlt.le
  · exact heq.le

theorem Shows.row {t : EscrowTables} {es : List EscrowEvent} {inv : String} {row : ProjectionRow}
    (h : Shows t es) (hrow : t.projection.get inv = some row) :
    ∃ e, row.toProjection = projectionOf e ∧ IsLatest EscrowEvent.key (ofInvoice inv es) e := by
  have hproj := h.projection inv
  rw [hrow, Option.map_some] at hproj
  obtain ⟨e, he, hshow⟩ := Option.map_eq_some_iff.mp hproj.symm
  exact ⟨e, hshow.symm, isLatest_of_latest _ he⟩

theorem Shows.row_isSome {t : EscrowTables} {es : List EscrowEvent} {inv : String}
    (h : Shows t es) : (t.projection.get inv).isSome ↔ ofInvoice inv es ≠ [] := by
  have hproj := congrArg Option.isSome (h.projection inv)
  rw [Option.isSome_map, Option.isSome_map] at hproj
  rw [hproj, Ne, ← latest_eq_none EscrowEvent.key, Option.isSome_iff_ne_none]

end Deliveries

/-- After any deliveries each invoice's projection shows its greatest event; with distinct
order keys only the set of events matters; the ledger sequence shown never decreases; and
deliveries of known events change nothing. -/
theorem projection_latest (checksum : String → Option Bool) (ds : List Delivery) :
    (∀ inv, (∃ e ∈ persisted checksum ds, e.invoiceId = inv) →
      ∃ row e, (deliver checksum ds).projection.get inv = some row ∧
        row.toProjection = projectionOf e ∧ e ∈ persisted checksum ds ∧ e.invoiceId = inv ∧
        ∀ e' ∈ persisted checksum ds, e'.invoiceId = inv → e'.key ≤ e.key) ∧
    (∀ ds', (∀ e, e ∈ persisted checksum ds ↔ e ∈ persisted checksum ds') →
      (∀ e ∈ persisted checksum ds, ∀ e' ∈ persisted checksum ds, e.invoiceId = e'.invoiceId →
        e.ledgerSequence = e'.ledgerSequence → e.pagingToken = e'.pagingToken → e = e') →
      ∀ inv, ((deliver checksum ds).projection.get inv).map ProjectionRow.toProjection =
        ((deliver checksum ds').projection.get inv).map ProjectionRow.toProjection) ∧
    (∀ ds' inv row, (deliver checksum ds).projection.get inv = some row →
      ∃ row', (deliver checksum (ds ++ ds')).projection.get inv = some row' ∧
        row.latestLedgerSequence ≤ row'.latestLedgerSequence) ∧
    ∀ ds', (∀ d ∈ ds', ∀ e', d.event checksum = some e' →
        ∃ e ∈ persisted checksum ds, e' = { e with observedAt := e'.observedAt }) →
      deliver checksum (ds ++ ds') = deliver checksum ds := by
  have hs := shows_deliver checksum ds
  have hmem : ∀ inv e, e ∈ ofInvoice inv (persisted checksum ds) ↔
      e ∈ persisted checksum ds ∧ e.invoiceId = inv := by
    intro inv e
    simp [ofInvoice]
  refine ⟨?_, ?_, ?_, ?_⟩
  · rintro inv ⟨e₀, he₀, hinv₀⟩
    have hne : ofInvoice inv (persisted checksum ds) ≠ [] :=
      List.ne_nil_of_mem ((hmem inv e₀).mpr ⟨he₀, hinv₀⟩)
    obtain ⟨row, hrow⟩ := Option.isSome_iff_exists.mp (hs.row_isSome.mpr hne)
    obtain ⟨e, hshow, he, hmax⟩ := hs.row hrow
    obtain ⟨hein, heinv⟩ := (hmem inv e).mp he
    exact ⟨row, e, hrow, hshow, hein, heinv, fun e' he' hinv' =>
      hmax e' ((hmem inv e').mpr ⟨he', hinv'⟩)⟩
  · intro ds' hsame hdistinct inv
    rw [hs.projection, (shows_deliver checksum ds').projection]
    congr 1
    apply latest_eq_of_mem_iff EscrowEvent.key
    · intro e
      simp [ofInvoice, hsame e]
    · intro e he e' he' hkey
      obtain ⟨hin, hinv⟩ := (hmem inv e).mp he
      obtain ⟨hin', hinv'⟩ := (hmem inv e').mp he'
      obtain ⟨hledger, htoken⟩ := key_inj hkey
      exact hdistinct e hin e' hin' (hinv.trans hinv'.symm) hledger htoken
  · intro ds' inv row hrow
    have hs' := shows_deliver checksum (ds ++ ds')
    obtain ⟨e, hshow, he, -⟩ := hs.row hrow
    have he' : e ∈ ofInvoice inv (persisted checksum (ds ++ ds')) := by
      obtain ⟨hin, hinv⟩ := (hmem inv e).mp he
      rw [ofInvoice, persisted, List.filterMap_append, List.mem_filter]
      exact ⟨List.mem_append_left _ hin, by simp [hinv]⟩
    obtain ⟨row', hrow'⟩ := Option.isSome_iff_exists.mp
      (hs'.row_isSome.mpr (List.ne_nil_of_mem he'))
    obtain ⟨c, hshow', -, hmax⟩ := hs'.row hrow'
    refine ⟨row', hrow', ?_⟩
    rw [hshow, hshow']
    exact ledger_le_of_key_le (hmax e he')
  · intro ds' hds'
    rw [deliver, run_append]
    exact hs.redeliver_run ds' hds'

def sampleDelivery (n : ℕ) : Delivery where
  raw := some {
    invoiceId := some "inv-1"
    eventId := some (String.ofList (List.replicate n 'e'))
    eventType := some "funded"
    pagingToken := some "7"
    ledgerSequence := .ofNat n
    contractId := none
    txHash := none
    eventBody := none
    observedAt := some "2026-01-01T00:00:00.000Z" }
  observed := "2026-01-01T00:00:00.000Z"
  written := n
  asText := true

theorem projection_latest_sample :
    ((deliver (fun _ => none) [sampleDelivery 2, sampleDelivery 1]).projection.get "inv-1").map
        (fun row => (row.latestEventId, row.latestLedgerSequence)) = some ("ee", 2) ∧
      deliver (fun _ => none) ([sampleDelivery 2, sampleDelivery 1] ++ [sampleDelivery 1]) =
        deliver (fun _ => none) [sampleDelivery 2, sampleDelivery 1] := by
  refine ⟨by decide, ?_⟩
  refine (projection_latest (fun _ => none) [sampleDelivery 2, sampleDelivery 1]).2.2.2 _ ?_
  intro d hd e' he'
  rw [List.mem_singleton.mp hd] at he'
  refine ⟨e', ?_, rfl⟩
  exact List.mem_filterMap.mpr ⟨sampleDelivery 1, by simp, he'⟩

end Liquifact.Jobs
