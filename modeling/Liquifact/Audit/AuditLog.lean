import Liquifact.Audit.Redaction
import Liquifact.Lib.Numerals
import Liquifact.Lib.OffsetPages

/-!
# Reading the audit log (`src/services/auditLog.js`, `src/services/auditLogStore.js`)

`getAuditLogs` (auditLog.js 181-217) filters, sorts, limits and skips in SQL and drops the rows
of other tenants from the page it was given; `countAuditLogs` (245-248) counts such a page and
`exportInvoiceAuditLogs` (326-336) writes one. `streamAuditEvents` (auditLogStore.js 190-210)
has the tenant in its query.

A row has its columns as the driver shows them, null, a number or a text, and the time that SQL
sorts by. `appendAuditEvent` is the only writer, so its metadata is an object or an array.
-/

namespace Liquifact.Audit
open Liquifact.Lib

inductive Column where
  | null
  | number (x : JsNumber)
  | text (s : String)
  deriving DecidableEq

/- What `normalizeMetadata` leaves of the metadata of an event. -/
structure Metadata where
  value : Json
  container : isScalar value = false

def storedMetadata (metadata : Option Json) : Metadata :=
  ⟨normalizeMetadata metadata, normalizeMetadata_container metadata⟩

structure AuditRow where
  id : Column
  createdAt : Column
  actorId : Column
  action : Column
  targetType : Column
  targetId : Column
  statusCode : Column
  ipAddress : Column
  userAgent : Column
  metadata : Metadata
  time : ℤ

/- `audit_log_events` with its primary key, no two rows of one time. -/
structure AuditTable where
  rows : List AuditRow
  keys : (rows.map AuditRow.id).Nodup
  times : (rows.map AuditRow.time).Nodup

structure AuditLog where
  id : Column
  timestamp : Column
  actor : Column
  action : Column
  resourceType : Column
  resourceId : Column
  changesBefore : Json
  changesAfter : Json
  statusCode : Column
  ipAddress : Column
  userAgent : Column
  metadata : Json

/- `{ ...metadata }`. -/
def copyOf : Json → Json
  | .obj ms => .obj ms
  | .arr items => .obj (items.zipIdx.map fun (v, i) => (Nat.repr i, v))
  | _ => .obj []

def mapDbRowToAuditLog (row : AuditRow) : AuditLog where
  id := row.id
  timestamp := row.createdAt
  actor := row.actorId
  action := row.action
  resourceType := row.targetType
  resourceId := row.targetId
  changesBefore := (jsOr (row.metadata.value.member "before") none).getD .null
  changesAfter := (jsOr (row.metadata.value.member "after") none).getD .null
  statusCode := row.statusCode
  ipAddress := row.ipAddress
  userAgent := row.userAgent
  metadata := copyOf row.metadata.value

/-! ### The queries -/

structure AuditFilters where
  resourceId : Option String
  resourceType : Option String
  actor : Option String
  action : Option String

/- `if (value) { query = query.where(column, value); }`. -/
def admits (value : Option String) (column : Column) : Bool :=
  match truthy value with
  | none => true
  | some v => decide (column = .text v)

def AuditFilters.accepts (f : AuditFilters) (row : AuditRow) : Bool :=
  admits f.resourceId row.targetId && admits f.resourceType row.targetType &&
    admits f.actor row.actorId && admits f.action row.action

def newestFirst (rows : List AuditRow) : List AuditRow :=
  rows.insertionSort fun r x => x.time ≤ r.time

def MAX_PAGE_SIZE : ℕ := 100

/- `limit` is a number already; of a fraction the query builder keeps the integer part. -/
def cappedLimit : JsNumber → ℕ
  | .fin q => if 0 < q then min ⌊q⌋₊ MAX_PAGE_SIZE else 100
  | .posInf => MAX_PAGE_SIZE
  | _ => 100

def safeOffset : JsNumber → ℕ
  | .fin q => if q.den = 1 ∧ 0 ≤ q then q.num.toNat else 0
  | _ => 0

/- `metadata.tenantId === tenantId`. -/
def isTenant (tenantId : String) (metadata : Json) : Bool :=
  match metadata.member "tenantId" with
  | some (.str s) => decide (s = tenantId)
  | _ => false

def matchingRows (t : AuditTable) (f : AuditFilters) : List AuditRow :=
  newestFirst (t.rows.filter f.accepts)

def getAuditLogs (t : AuditTable) (f : AuditFilters) (tenantId : Option String)
    (limit offset : JsNumber) : List AuditLog :=
  let rows := ((matchingRows t f).drop (safeOffset offset)).take (cappedLimit limit)
  let filtered := rows.map mapDbRowToAuditLog
  match truthy tenantId with
  | none => filtered
  | some tenant => filtered.filter fun log => isTenant tenant log.metadata

def countAuditLogs (t : AuditTable) (f : AuditFilters) (tenantId : Option String) : ℕ :=
  (getAuditLogs t f tenantId .posInf (.ofNat 0)).length

def invoiceFilters (invoiceId : String) : AuditFilters := ⟨some invoiceId, some "invoice", none, none⟩

/- The logs that the export writes. -/
def exportInvoiceAuditLogs (t : AuditTable) (invoiceId : String) (limit : JsNumber)
    (tenantId : Option String) : List AuditLog :=
  getAuditLogs t (invoiceFilters invoiceId) tenantId limit (.ofNat 0)

/- `metadata->>'tenantId'`; `jsonText` shows what is no string. -/
def tenantText (jsonText : Json → String) (metadata : Json) : Option String :=
  match metadata.member "tenantId" with
  | none => none
  | some .null => none
  | some (.str s) => some s
  | some v => some (jsonText v)

def streamAuditEvents (jsonText : Json → String) (t : AuditTable)
    (targetId targetType tenantId : Option String) : List AuditRow :=
  let rows := t.rows.filter fun row => admits targetId row.targetId && admits targetType row.targetType &&
    match truthy tenantId with
    | none => true
    | some tenant => decide (tenantText jsonText row.metadata.value = some tenant)
  rows.insertionSort fun r x => r.time ≤ x.time

/-! ### The rows of a tenant -/

def belongs (tenantId : String) (row : AuditRow) : Bool := isTenant tenantId row.metadata.value

/- The tenant's matching rows, the newest first. -/
def tenantRows (t : AuditTable) (f : AuditFilters) (tenantId : String) : List AuditRow :=
  (matchingRows t f).filter (belongs tenantId)

theorem lookupL_indices (items : List Json) (n : ℕ) : OrdMap.lookupL "tenantId"
    ((items.zipIdx n).map fun (v, i) => (Nat.repr i, v)) = none := by
  induction items generalizing n with
  | nil => rfl
  | cons v items ih =>
    have hne : Nat.repr n ≠ "tenantId" := by
      intro heq
      have hdigits := (isNumeral_repr n).2
      rw [heq] at hdigits
      exact absurd (hdigits 't' (by decide)) (by decide)
    rw [List.zipIdx_cons, List.map_cons, OrdMap.lookupL, if_neg hne]
    exact ih (n + 1)

theorem isTenant_copyOf (tenantId : String) (metadata : Json) :
    isTenant tenantId (copyOf metadata) = isTenant tenantId metadata := by
  cases metadata with
  | arr items => simp only [isTenant, copyOf, Json.member, lookupL_indices]
  | _ => rfl

section Pages
variable {t : AuditTable} {f : AuditFilters} {tenantId : String}

theorem matchingRows_perm (t : AuditTable) (f : AuditFilters) :
    (matchingRows t f).Perm (t.rows.filter f.accepts) := List.perm_insertionSort _ _

theorem matchingRows_keys (t : AuditTable) (f : AuditFilters) :
    ((matchingRows t f).map AuditRow.id).Nodup :=
  ((matchingRows_perm t f).map AuditRow.id).nodup_iff.mpr
    (t.keys.sublist (List.filter_sublist.map _))

theorem matchingRows_nodup (t : AuditTable) (f : AuditFilters) : (matchingRows t f).Nodup :=
  (matchingRows_keys t f).of_map

/- Rows of one table that show the same log are the same row. -/
theorem eq_of_mapDbRow {r x : AuditRow} (hr : r ∈ matchingRows t f) (hx : x ∈ matchingRows t f)
    (h : mapDbRowToAuditLog r = mapDbRowToAuditLog x) : r = x :=
  List.inj_on_of_nodup_map (matchingRows_keys t f) hr hx (congrArg AuditLog.id h)

theorem getAuditLogs_eq (htenant : tenantId ≠ "") (limit offset : JsNumber) :
    getAuditLogs t f (some tenantId) limit offset =
      (((matchingRows t f).drop (safeOffset offset)).take (cappedLimit limit)
        |>.filter (belongs tenantId)).map mapDbRowToAuditLog := by
  unfold getAuditLogs
  simp only [truthy_of_ne htenant, List.filter_map]
  congr 1
  refine List.filter_congr fun r _ => ?_
  exact isTenant_copyOf tenantId r.metadata.value

theorem cappedLimit_ofNat {n : ℕ} (hn : n ≤ 100) :
    cappedLimit (.ofNat n) = if n = 0 then 100 else n := by
  unfold cappedLimit JsNumber.ofNat MAX_PAGE_SIZE
  by_cases h0 : n = 0
  · subst h0
    rfl
  · have hpos : (0 : ℚ) < (n : ℚ) := by exact_mod_cast Nat.pos_of_ne_zero h0
    rw [if_neg h0]
    simp only [if_pos hpos, Nat.floor_natCast]
    omega

theorem safeOffset_ofNat (n : ℕ) : safeOffset (.ofNat n) = n := by
  unfold safeOffset JsNumber.ofNat
  simp

/-! ### When the page, the count and the export are exact -/

/- The matching rows that SQL gives for a limit and an offset. -/
def pageRows (t : AuditTable) (f : AuditFilters) (limit offset : ℕ) : List AuditRow :=
  ((matchingRows t f).drop offset).take (if limit = 0 then 100 else limit)

/- The page of SQL has as many of the tenant's rows as the tenant's page has, and if it has
any, all rows skipped are the tenant's. -/
def PageHolds (t : AuditTable) (f : AuditFilters) (tenantId : String) (limit offset : ℕ) : Prop :=
  (pageRows t f limit offset).countP (belongs tenantId) =
      min limit ((matchingRows t f).countP (belongs tenantId) - offset) ∧
    ((pageRows t f limit offset).countP (belongs tenantId) = 0 ∨
      ((matchingRows t f).take offset).countP (belongs tenantId) = offset)

/- No row of the tenant comes after the first `size` matching rows. -/
def AllWithin (t : AuditTable) (f : AuditFilters) (tenantId : String) (size : ℕ) : Prop :=
  ∀ r ∈ (matchingRows t f).drop size, belongs tenantId r = false

theorem mem_matchingRows_of_page {limit offset : ℕ} {r : AuditRow}
    (h : r ∈ ((matchingRows t f).drop offset).take limit) : r ∈ matchingRows t f :=
  List.mem_of_mem_drop (List.mem_of_mem_take h)

theorem eq_of_map_mapDbRow {as bs : List AuditRow} (has : ∀ r ∈ as, r ∈ matchingRows t f)
    (hbs : ∀ r ∈ bs, r ∈ matchingRows t f)
    (h : as.map mapDbRowToAuditLog = bs.map mapDbRowToAuditLog) : as = bs := by
  induction as generalizing bs with
  | nil => exact (List.map_eq_nil_iff.mp h.symm).symm
  | cons a as ih =>
    cases bs with
    | nil => cases h
    | cons b bs =>
      rw [List.map_cons, List.map_cons, List.cons.injEq] at h
      have hab := eq_of_mapDbRow (has a (List.mem_cons_self ..)) (hbs b (List.mem_cons_self ..)) h.1
      rw [hab, ih (fun r hr => has r (List.mem_cons_of_mem a hr))
        (fun r hr => hbs r (List.mem_cons_of_mem b hr)) h.2]

theorem page_exact_iff (htenant : tenantId ≠ "") {limit offset : ℕ} (hlimit : limit ≤ 100) :
    getAuditLogs t f (some tenantId) (.ofNat limit) (.ofNat offset) =
        (((tenantRows t f tenantId).drop offset).take limit).map mapDbRowToAuditLog ↔
      PageHolds t f tenantId limit offset := by
  rw [getAuditLogs_eq htenant, safeOffset_ofNat, cappedLimit_ofNat hlimit]
  refine Iff.trans ?_ (filter_page_iff (matchingRows_nodup t f) offset limit _)
  constructor
  · intro h
    refine eq_of_map_mapDbRow (t := t) (f := f) ?_ ?_ h
    · exact fun r hr => mem_matchingRows_of_page (List.mem_filter.mp hr).1
    · exact fun r hr => (List.mem_filter.mp (List.mem_of_mem_drop (List.mem_of_mem_take hr))).1
  · intro h
    rw [h]
    rfl

theorem count_exact_iff (htenant : tenantId ≠ "") :
    countAuditLogs t f (some tenantId) = (tenantRows t f tenantId).length ↔
      AllWithin t f tenantId 100 := by
  have hsplit := congrArg (List.countP (belongs tenantId)) (List.take_append_drop 100 (matchingRows t f))
  rw [List.countP_append] at hsplit
  have hcount : countAuditLogs t f (some tenantId) =
      ((matchingRows t f).take 100).countP (belongs tenantId) := by
    rw [countAuditLogs, getAuditLogs_eq htenant, safeOffset_ofNat, List.length_map,
      List.countP_eq_length_filter]
    rfl
  rw [hcount, tenantRows, ← List.countP_eq_length_filter]
  unfold AllWithin
  simp only [← Bool.not_eq_true, ← List.countP_eq_zero]
  omega

theorem export_exact_iff (htenant : tenantId ≠ "") (invoiceId : String) (limit : JsNumber) :
    (∀ r ∈ tenantRows t (invoiceFilters invoiceId) tenantId, mapDbRowToAuditLog r ∈
        exportInvoiceAuditLogs t invoiceId limit (some tenantId)) ↔
      AllWithin t (invoiceFilters invoiceId) tenantId (cappedLimit limit) := by
  have hmem : ∀ r ∈ matchingRows t (invoiceFilters invoiceId),
      (mapDbRowToAuditLog r ∈ exportInvoiceAuditLogs t invoiceId limit (some tenantId) ↔
        r ∈ (matchingRows t (invoiceFilters invoiceId)).take (cappedLimit limit) ∧
          belongs tenantId r = true) := by
    intro r hr
    rw [exportInvoiceAuditLogs, getAuditLogs_eq htenant, safeOffset_ofNat, List.drop_zero,
      List.mem_map]
    constructor
    · rintro ⟨x, hx, hxr⟩
      obtain ⟨htake, hbelongs⟩ := List.mem_filter.mp hx
      rw [← eq_of_mapDbRow (List.mem_of_mem_take htake) hr hxr]
      exact ⟨htake, hbelongs⟩
    · intro hx
      exact ⟨r, List.mem_filter.mpr hx, rfl⟩
  have hsplit := List.take_append_drop (cappedLimit limit) (matchingRows t (invoiceFilters invoiceId))
  constructor
  · intro h r hr
    rw [← Bool.not_eq_true]
    intro hbelongs
    have hmatch : r ∈ matchingRows t (invoiceFilters invoiceId) := List.mem_of_mem_drop hr
    have htake := ((hmem r hmatch).mp (h r (List.mem_filter.mpr ⟨hmatch, hbelongs⟩))).1
    have hnodup := matchingRows_nodup t (invoiceFilters invoiceId)
    rw [← hsplit] at hnodup
    exact (List.nodup_append.mp hnodup).2.2 r htake r hr rfl
  · intro h r hr
    obtain ⟨hmatch, hbelongs⟩ := List.mem_filter.mp hr
    refine (hmem r hmatch).mpr ⟨?_, hbelongs⟩
    rw [← hsplit, List.mem_append] at hmatch
    refine hmatch.resolve_right fun hdrop => ?_
    rw [h r hdrop] at hbelongs
    cases hbelongs

/- The stream has every row of the tenant that matches, and the rows of no other. -/
theorem mem_streamAuditEvents_iff (htenant : tenantId ≠ "") (jsonText : Json → String)
    (targetId targetType : Option String) (r : AuditRow) :
    r ∈ streamAuditEvents jsonText t targetId targetType (some tenantId) ↔
      r ∈ t.rows ∧ admits targetId r.targetId = true ∧ admits targetType r.targetType = true ∧
        tenantText jsonText r.metadata.value = some tenantId := by
  unfold streamAuditEvents
  simp only [truthy_of_ne htenant, List.mem_insertionSort, List.mem_filter, Bool.and_eq_true, decide_eq_true_eq,
    and_assoc]

theorem tenantText_of_belongs (jsonText : Json → String) {r : AuditRow}
    (h : belongs tenantId r = true) : tenantText jsonText r.metadata.value = some tenantId := by
  unfold belongs isTenant at h
  unfold tenantText
  split at h
  · next s hs =>
    rw [hs]
    simpa using h
  · cases h

theorem stream_contains (htenant : tenantId ≠ "") (jsonText : Json → String) (invoiceId : String) :
    ∀ r ∈ tenantRows t (invoiceFilters invoiceId) tenantId,
      r ∈ streamAuditEvents jsonText t (some invoiceId) (some "invoice") (some tenantId) := by
  intro r hr
  obtain ⟨hmatch, hbelongs⟩ := List.mem_filter.mp hr
  have hrow := List.mem_filter.mp ((matchingRows_perm t _).mem_iff.mp hmatch)
  simp only [AuditFilters.accepts, invoiceFilters, Bool.and_eq_true] at hrow
  exact (mem_streamAuditEvents_iff htenant jsonText _ _ r).mpr
    ⟨hrow.1, hrow.2.1.1.1, hrow.2.1.1.2, tenantText_of_belongs jsonText hbelongs⟩

/-- The page is the tenant's page if and only if SQL's page has as many of the tenant's rows
and, if any, skips no other row; the count is the number of the tenant's rows if and only if
all are among the first 100 matching rows; the export has them all if and only if they are
among as many as its limit. The stream always has them. -/
theorem audit_log_exact_iff (t : AuditTable) (f : AuditFilters) (htenant : tenantId ≠ "")
    {limit offset : ℕ} (hlimit : limit ≤ 100) :
    (getAuditLogs t f (some tenantId) (.ofNat limit) (.ofNat offset) =
        (((tenantRows t f tenantId).drop offset).take limit).map mapDbRowToAuditLog ↔
      PageHolds t f tenantId limit offset) ∧
    (countAuditLogs t f (some tenantId) = (tenantRows t f tenantId).length ↔
      AllWithin t f tenantId 100) ∧
    (∀ invoiceId exportLimit, (∀ r ∈ tenantRows t (invoiceFilters invoiceId) tenantId,
        mapDbRowToAuditLog r ∈ exportInvoiceAuditLogs t invoiceId exportLimit (some tenantId)) ↔
      AllWithin t (invoiceFilters invoiceId) tenantId (cappedLimit exportLimit)) ∧
    ∀ jsonText invoiceId, ∀ r ∈ tenantRows t (invoiceFilters invoiceId) tenantId,
      r ∈ streamAuditEvents jsonText t (some invoiceId) (some "invoice") (some tenantId) :=
  ⟨page_exact_iff htenant hlimit, count_exact_iff htenant, export_exact_iff htenant,
    stream_contains htenant⟩

end Pages

def sampleEvent (id : ℕ) (tenantId : String) : AuditRow where
  id := .number (.ofNat id)
  createdAt := .null
  actorId := .text "user-1"
  action := .text "UPDATE"
  targetType := .text "invoice"
  targetId := .text "inv-1"
  statusCode := .number (.ofNat 200)
  ipAddress := .null
  userAgent := .null
  metadata := ⟨.obj [("tenantId", .str tenantId)], rfl⟩
  time := id

def sampleEvents (other : String) : AuditTable where
  rows := [sampleEvent 1 "tenant-1", sampleEvent 2 other]
  keys := by
    simp [sampleEvent, JsNumber.ofNat]
  times := by
    simp [sampleEvent]

theorem matchingRows_sampleEvents (other : String) :
    matchingRows (sampleEvents other) (invoiceFilters "inv-1") =
      [sampleEvent 2 other, sampleEvent 1 "tenant-1"] := by
  have hall : (sampleEvents other).rows.filter (invoiceFilters "inv-1").accepts =
      [sampleEvent 1 "tenant-1", sampleEvent 2 other] := by
    have haccepts : ∀ id tenantId, (invoiceFilters "inv-1").accepts (sampleEvent id tenantId) = true := by
      intro id tenantId
      simp [AuditFilters.accepts, invoiceFilters, admits, truthy, sampleEvent]
    simp [sampleEvents, haccepts]
  rw [matchingRows, hall]
  simp [newestFirst, sampleEvent]

theorem audit_log_exact_sample :
    getAuditLogs (sampleEvents "tenant-1") (invoiceFilters "inv-1") (some "tenant-1") (.ofNat 1)
        (.ofNat 1) = [mapDbRowToAuditLog (sampleEvent 1 "tenant-1")] ∧
      countAuditLogs (sampleEvents "tenant-1") (invoiceFilters "inv-1") (some "tenant-1") = 2 := by
  have hrows := matchingRows_sampleEvents "tenant-1"
  have hown : ∀ id, belongs "tenant-1" (sampleEvent id "tenant-1") = true := fun _ => rfl
  have hexact := @audit_log_exact_iff "tenant-1" (sampleEvents "tenant-1")
    (invoiceFilters "inv-1") (by decide) 1 1 (by decide)
  have hpage := hexact.1.mpr (by
    unfold PageHolds pageRows
    rw [hrows]
    simp [hown])
  have hcount := hexact.2.1.mpr (by
    intro r hr
    rw [hrows] at hr
    simp at hr)
  rw [hpage, hcount, tenantRows, hrows]
  simp [hown]

/- Of the two rows the newer one is another tenant's: the first page of one row is empty. -/
theorem page_loses_rows : ¬ ∀ (t : AuditTable) (f : AuditFilters) (tenantId : String)
    (limit offset : ℕ), tenantId ≠ "" → limit ≤ 100 →
    getAuditLogs t f (some tenantId) (.ofNat limit) (.ofNat offset) =
      (((tenantRows t f tenantId).drop offset).take limit).map mapDbRowToAuditLog := by
  intro h
  have hpage := (page_exact_iff (by decide) (by decide)).mp
    (h (sampleEvents "tenant-2") (invoiceFilters "inv-1") "tenant-1" 1 0 (by decide) (by decide))
  have hother : belongs "tenant-1" (sampleEvent 2 "tenant-2") = false := by decide
  have hown : belongs "tenant-1" (sampleEvent 1 "tenant-1") = true := by decide
  unfold PageHolds pageRows at hpage
  rw [matchingRows_sampleEvents] at hpage
  simp [hother, hown] at hpage

end Liquifact.Audit
