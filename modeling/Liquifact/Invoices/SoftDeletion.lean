import Liquifact.Invoices.InvoiceService

/-!
# Soft deletion over sequences of calls

`deleteInvoice` stamps `deleted_at`; the listing and `getInvoiceById` leave stamped rows
out, the lookups of `updateInvoice` and `deleteInvoice` do not. A `Lifecycle` is the table
with the primary keys of the rows whose deletion has succeeded.
-/

namespace Liquifact.Invoices
open Liquifact.Lib

/- `MUTABLE_FIELDS` of `src/middleware/patchInvoice.js`. -/
def mutableFields : List String := ["amount", "customer", "notes"]

def succeeded : Answer → Bool
  | .ok (.row (some _)) => true
  | _ => false

def Call.reads : Call → Bool
  | .listInvoices _ | .getInvoices _ | .getInvoiceById _ => true
  | _ => false

structure TenantCall where
  tenantId : String
  call : Call
  env : Env

namespace TenantCall

/- The rows that an `updateInvoice` or a `deleteInvoice` is about. -/
def addresses (c : TenantCall) (r : Row) : Bool :=
  match c.call with
  | .updateInvoice id _ => owned c.tenantId id r
  | .deleteInvoice id => owned c.tenantId id r
  | _ => false

/-- The calls of the routes: a patch names mutable fields only, and a listing leaves the
deleted invoices out. -/
def Ordinary (c : TenantCall) : Prop :=
  match c.call with
  | .listInvoices opts => opts.includeDeleted = false
  | .updateInvoice _ updates => ∀ entry ∈ updates, entry.1 ∈ mutableFields
  | _ => True

end TenantCall

/- The lookup finds an invoice that is not locked, and the database takes the values. -/
def ReachesUpdate {schema : Schema} (t : InvoiceTable schema) (id tenantId participle : String)
    (entries : List (String × JsValue)) (stamp : Column) (now : ℕ) : Prop :=
  ∃ r set, existingInvoice t id tenantId participle = .ok (some r) ∧
    schema.written entries stamp now = .ok set

structure Lifecycle (schema : Schema) where
  table : InvoiceTable schema
  deleted : List SqlValue

namespace Lifecycle
variable {schema : Schema}

def answer (s : Lifecycle schema) (c : TenantCall) : Answer :=
  (serve c.tenantId s.table (c.call, c.env)).1

def after (s : Lifecycle schema) (c : TenantCall) : InvoiceTable schema :=
  (serve c.tenantId s.table (c.call, c.env)).2

def newlyDeleted (s : Lifecycle schema) (c : TenantCall) : List SqlValue :=
  match c.call with
  | .deleteInvoice id =>
    if succeeded (s.answer c) then (s.table.rows.filter (owned c.tenantId id)).map fun r => r .id
    else []
  | _ => []

def step (s : Lifecycle schema) (c : TenantCall) : Lifecycle schema where
  table := s.after c
  deleted := s.deleted ++ s.newlyDeleted c

/-- What a call does about a row that was deleted: the row stays as it is, an update or a
deletion of it does not succeed, and a listing or a lookup does not return it. -/
structure KeepsRow (s : Lifecycle schema) (c : TenantCall) (r : Row) : Prop where
  unchanged : r ∈ (s.after c).rows
  notModified : c.addresses r = true → succeeded (s.answer c) = false
  notReturned : c.call.reads = true → ∀ r' ∈ returnedRows (s.answer c), r' .id ≠ r .id

def KeepsDeleted (s : Lifecycle schema) (c : TenantCall) : Prop :=
  ∀ r ∈ s.table.rows, r .id ∈ s.deleted → s.KeepsRow c r

/-- A call that reaches its `UPDATE` is not about a deleted row. -/
def SparesDeleted (s : Lifecycle schema) (c : TenantCall) : Prop :=
  match c.call with
  | .updateInvoice id updates =>
    ReachesUpdate s.table id c.tenantId "modified" (patched updates) .updatedAt c.env.now →
      ∀ r ∈ s.table.rows, r .id ∈ s.deleted → owned c.tenantId id r = false
  | .deleteInvoice id =>
    ReachesUpdate s.table id c.tenantId "deleted" [] .deletedAt c.env.now →
      ∀ r ∈ s.table.rows, r .id ∈ s.deleted → owned c.tenantId id r = false
  | _ => True

/- The deleted rows are in the table, and stamped. -/
structure Stamped (s : Lifecycle schema) : Prop where
  present : ∀ k ∈ s.deleted, ∃ r ∈ s.table.rows, r .id = k
  stamped : ∀ r ∈ s.table.rows, r .id ∈ s.deleted → r .deletedAt ≠ .null

end Lifecycle

section Tables
variable {schema : Schema} {t : InvoiceTable schema} {tenantId id : String}

theorem row_unique {r r' : Row} (hr : r ∈ t.rows) (hr' : r' ∈ t.rows) (h : r .id = r' .id) :
    r = r' :=
  List.inj_on_of_nodup_map t.holds.1 hr hr' h

theorem deletedAt_of_listed {opts : ListOptions} {r : Row} (hopts : opts.includeDeleted = false)
    (h : listed tenantId opts r = true) : r .deletedAt = .null := by
  simp only [listed, hopts, Bool.false_or, Bool.and_eq_true] at h
  exact of_decide_eq_true h.1.2

theorem listInvoices_undeleted {opts : ListOptions} (hopts : opts.includeDeleted = false) :
    ∀ r ∈ returnedRows (listInvoices t tenantId opts), r ∈ t.rows ∧ r .deletedAt = .null := by
  unfold listInvoices
  split
  · intro r hr
    cases hr
  · intro r hr
    have hmem := List.mem_filter.mp (mem_sortByCreatedAt.mp hr)
    exact ⟨hmem.1, deletedAt_of_listed hopts hmem.2⟩

theorem getInvoices_undeleted {status : Option String} :
    ∀ r ∈ returnedRows (getInvoices t tenantId status), r ∈ t.rows ∧ r .deletedAt = .null := by
  unfold getInvoices
  split
  · intro r hr
    cases hr
  · exact listInvoices_undeleted rfl

theorem getInvoiceById_undeleted :
    ∀ r ∈ returnedRows (getInvoiceById t id tenantId), r ∈ t.rows ∧ r .deletedAt = .null := by
  unfold getInvoiceById
  split
  · intro r hr
    cases hr
  · intro r hr
    have hfind := mem_returnedRows_row.mp hr
    have hactive : active tenantId id r = true := List.find?_some hfind
    simp only [active, Bool.and_eq_true] at hactive
    exact ⟨List.mem_of_find?_eq_some hfind, of_decide_eq_true hactive.2⟩

/- The columns that a patch or a deletion leaves alone. -/
def keyColumns : List Column := [.id, .invoiceId, .tenantId]

theorem assigned_written {entries : List (String × JsValue)} {stamp c : Column} {now : ℕ}
    {set : List (Column × SqlValue)} (hset : schema.written entries stamp now = .ok set)
    (hentries : ∀ entry ∈ entries, entry.1 ∈ mutableFields) (hstamp : stamp ∉ keyColumns)
    (hc : c ∈ keyColumns) : assigned set c = none := by
  obtain ⟨set', hset', h⟩ := bind_ok hset
  cases h
  have hne : stamp ≠ c := fun h => hstamp (h ▸ hc)
  rw [assigned_append_singleton, if_neg hne, Option.or_none, assigned_of_mapM hset']
  have hnone : (entries.filter fun entry => !isUndefined entry.2).find?
      (fun entry => columnOf entry.1 = some c) = none := by
    rw [List.find?_eq_none]
    intro entry hentry hcolumn
    have hname := hentries entry (List.mem_of_mem_filter hentry)
    have hcolumn := of_decide_eq_true hcolumn
    have hall : ∀ name ∈ mutableFields, ∀ c ∈ keyColumns, columnOf name ≠ some c := by decide
    exact hall entry.1 hname c hc hcolumn
  rw [hnone]
  rfl

theorem owned_set {set : List (Column × SqlValue)} (h : ∀ c ∈ keyColumns, assigned set c = none)
    (r : Row) : owned tenantId id (r.set set) = owned tenantId id r := by
  unfold owned ofTenant Row.set
  rw [h .invoiceId (by decide), h .tenantId (by decide)]
  rfl

theorem modifyInvoice_refused {participle : String} {entries : List (String × JsValue)}
    {stamp : Column} {env : Env}
    (h : ¬ ReachesUpdate t id tenantId participle entries stamp env.now) :
    ∃ answer, modifyInvoice t id tenantId participle entries stamp env = (answer, t) ∧
      succeeded answer = false := by
  unfold modifyInvoice
  cases hexisting : existingInvoice t id tenantId participle with
  | error e => exact ⟨_, rfl, rfl⟩
  | ok found =>
    cases found with
    | none => exact ⟨_, rfl, rfl⟩
    | some r =>
      cases hwritten : schema.written entries stamp env.now with
      | error e => exact ⟨_, rfl, rfl⟩
      | ok set => exact absurd ⟨r, set, hexisting, hwritten⟩ h

theorem writtenRow_found {t' : InvoiceTable schema} {set : List (Column × SqlValue)} {r : Row}
    (env : Env) (hset : ∀ c ∈ keyColumns, assigned set c = none)
    (hfind : t.rows.find? (owned tenantId id) = some r)
    (hrows : t'.rows = updateWhere (owned tenantId id) (fun r => r.set set) t.rows) :
    succeeded (.ok (.row (writtenRow t t' id tenantId set env))) = true := by
  unfold writtenRow
  split
  · rw [hfind]
    rfl
  · have howned : owned tenantId id r = true := List.find?_some hfind
    have hmem : r.set set ∈ t'.rows := by
      rw [hrows, mem_updateWhere]
      exact ⟨r, List.mem_of_find?_eq_some hfind, by rw [if_pos howned]⟩
    cases hagain : t'.rows.find? (owned tenantId id) with
    | some r' => rfl
    | none =>
      have hnot := List.find?_eq_none.mp hagain _ hmem
      rw [owned_set hset] at hnot
      exact absurd howned hnot

/- The `UPDATE` is allowed, since it sets no column of an index, and finds its row again. -/
theorem modifyInvoice_reached {participle : String} {entries : List (String × JsValue)}
    {stamp : Column} {env : Env} (hentries : ∀ entry ∈ entries, entry.1 ∈ mutableFields)
    (hstamp : stamp ∉ keyColumns)
    (h : ReachesUpdate t id tenantId participle entries stamp env.now) :
    ∃ answer t' set, modifyInvoice t id tenantId participle entries stamp env = (answer, t') ∧
      succeeded answer = true ∧ schema.written entries stamp env.now = .ok set ∧
      t'.rows = updateWhere (owned tenantId id) (fun r => r.set set) t.rows := by
  obtain ⟨r, set, hexisting, hwritten⟩ := h
  have hset : ∀ c ∈ keyColumns, assigned set c = none :=
    fun c hc => assigned_written hwritten hentries hstamp hc
  have hallowed : Allowed tenantId t id set :=
    allowed_of_unset t (hset .id (by decide)) (hset .invoiceId (by decide))
  obtain ⟨t', hmodify, hrows⟩ := modifyInvoice_allowed hexisting hwritten hallowed
  exact ⟨_, t', set, hmodify, writtenRow_found env hset (existing_found hexisting).1 hrows,
    hwritten, hrows⟩

end Tables

namespace Lifecycle
section Steps
variable {schema : Schema} {s : Lifecycle schema} {c : TenantCall}

theorem keepsDeleted_of_reads (hs : s.Stamped)
    (haddresses : ∀ r, c.addresses r = false) (hafter : s.after c = s.table)
    (hrows : ∀ r ∈ returnedRows (s.answer c), r ∈ s.table.rows ∧ r .deletedAt = .null) :
    s.KeepsDeleted c := by
  intro r hr hdeleted
  refine ⟨?_, ?_, ?_⟩
  · rw [hafter]
    exact hr
  · intro h
    rw [haddresses r] at h
    cases h
  · intro _ r' hr' heq
    obtain ⟨hmem, hnull⟩ := hrows r' hr'
    rw [row_unique hmem hr heq] at hnull
    exact hs.stamped r hr hdeleted hnull

theorem keepsDeleted_create {tenantId : String} {data : InvoiceData} {env : Env} :
    s.KeepsDeleted ⟨tenantId, .createInvoice data, env⟩ := by
  intro r hr _
  refine ⟨?_, (fun h => by cases h), (fun h => by cases h)⟩
  simp only [after, serve, createInvoice]
  split
  · exact hr
  · split
    · exact hr
    · rename_i row t' hinsert
      have hmem : r ∈ t'.rows := by
        rw [(insertInvoice_ok hinsert).2]
        exact List.mem_append_left _ hr
      split
      · exact hmem
      · exact hmem

/- `updateInvoice` and `deleteInvoice`. -/
theorem keepsDeleted_modify_iff {id participle : String} {entries : List (String × JsValue)}
    {stamp : Column}
    (hserve : serve c.tenantId s.table (c.call, c.env) =
      modifyInvoice s.table id c.tenantId participle entries stamp c.env)
    (haddresses : ∀ r, c.addresses r = owned c.tenantId id r) (hreads : c.call.reads = false)
    (hentries : ∀ entry ∈ entries, entry.1 ∈ mutableFields) (hstamp : stamp ∉ keyColumns) :
    s.KeepsDeleted c ↔
      (ReachesUpdate s.table id c.tenantId participle entries stamp c.env.now →
        ∀ r ∈ s.table.rows, r .id ∈ s.deleted → owned c.tenantId id r = false) := by
  by_cases hreach : ReachesUpdate s.table id c.tenantId participle entries stamp c.env.now
  · obtain ⟨answer, t', set, hmodify, hsucceeded, -, hrows⟩ :=
      modifyInvoice_reached hentries hstamp hreach
    rw [← hserve] at hmodify
    constructor
    · intro hkeeps _ r hr hdeleted
      cases howned : owned c.tenantId id r with
      | false => rfl
      | true =>
        have hfailed := (hkeeps r hr hdeleted).notModified ((haddresses r).trans howned)
        rw [Lifecycle.answer, hmodify, hsucceeded] at hfailed
        cases hfailed
    · intro hspares r hr hdeleted
      have howned := hspares hreach r hr hdeleted
      refine ⟨?_, ?_, ?_⟩
      · rw [Lifecycle.after, hmodify, hrows, mem_updateWhere]
        exact ⟨r, hr, by rw [howned]; rfl⟩
      · intro h
        rw [haddresses, howned] at h
        cases h
      · intro h
        rw [hreads] at h
        cases h
  · obtain ⟨answer, hmodify, hfailed⟩ := modifyInvoice_refused hreach
    rw [← hserve] at hmodify
    refine iff_of_true ?_ fun h => absurd h hreach
    intro r hr _
    refine ⟨?_, ?_, ?_⟩
    · rw [Lifecycle.after, hmodify]
      exact hr
    · intro _
      rw [Lifecycle.answer, hmodify]
      exact hfailed
    · intro h
      rw [hreads] at h
      cases h

theorem keepsDeleted_iff (hs : s.Stamped) (hc : c.Ordinary) :
    s.KeepsDeleted c ↔ s.SparesDeleted c := by
  obtain ⟨tenantId, call, env⟩ := c
  cases call with
  | listInvoices opts =>
    exact iff_of_true (keepsDeleted_of_reads hs (fun _ => rfl) rfl (listInvoices_undeleted hc))
      trivial
  | getInvoices status =>
    exact iff_of_true (keepsDeleted_of_reads hs (fun _ => rfl) rfl getInvoices_undeleted) trivial
  | getInvoiceById id =>
    exact iff_of_true (keepsDeleted_of_reads hs (fun _ => rfl) rfl getInvoiceById_undeleted)
      trivial
  | createInvoice data => exact iff_of_true keepsDeleted_create trivial
  | updateInvoice id updates =>
    have hentries : ∀ entry ∈ patched updates, entry.1 ∈ mutableFields :=
      fun entry hentry => hc entry (List.mem_of_mem_filter hentry)
    exact keepsDeleted_modify_iff rfl (fun _ => rfl) rfl hentries (by decide)
  | deleteInvoice id =>
    refine keepsDeleted_modify_iff rfl (fun _ => rfl) rfl ?_ (by decide)
    intro entry hentry
    cases hentry

/- A row whose deletion has just succeeded. -/
theorem newlyDeleted_stamped {k : SqlValue} (hk : k ∈ s.newlyDeleted c) :
    ∃ r ∈ (s.after c).rows, r .id = k ∧ r .deletedAt ≠ .null := by
  obtain ⟨tenantId, call, env⟩ := c
  cases call with
  | deleteInvoice id =>
    by_cases hreach : ReachesUpdate s.table id tenantId "deleted" [] .deletedAt env.now
    · obtain ⟨answer, t', set, hmodify, -, hwritten, hrows⟩ :=
        modifyInvoice_reached (fun _ h => by cases h) (by decide) hreach
      simp only [newlyDeleted] at hk
      split at hk
      · obtain ⟨r, hr, rfl⟩ := List.mem_map.mp hk
        obtain ⟨hmem, howned⟩ := List.mem_filter.mp hr
        cases hwritten
        refine ⟨r.set [(.deletedAt, .timestamp env.now)], ?_, rfl, ?_⟩
        · simp only [Lifecycle.after, serve, deleteInvoice, hmodify, hrows, mem_updateWhere]
          exact ⟨r, hmem, by rw [if_pos howned]; rfl⟩
        · intro h
          cases h
      · cases hk
    · obtain ⟨answer, hmodify, hfailed⟩ := modifyInvoice_refused hreach
      simp only [newlyDeleted, Lifecycle.answer, serve, deleteInvoice, hmodify, hfailed] at hk
      cases hk
  | listInvoices opts => cases hk
  | getInvoices status => cases hk
  | getInvoiceById id => cases hk
  | createInvoice data => cases hk
  | updateInvoice id updates => cases hk

theorem step_stamped (hs : s.Stamped) (hkeeps : s.KeepsDeleted c) : (s.step c).Stamped := by
  have hrow : ∀ k ∈ (s.step c).deleted,
      ∃ r ∈ (s.step c).table.rows, r .id = k ∧ r .deletedAt ≠ .null := by
    intro k hk
    rcases List.mem_append.mp hk with hold | hnew
    · obtain ⟨r, hr, rfl⟩ := hs.present k hold
      exact ⟨r, (hkeeps r hr hold).unchanged, rfl, hs.stamped r hr hold⟩
    · exact newlyDeleted_stamped hnew
  refine ⟨?_, ?_⟩
  · intro k hk
    obtain ⟨r, hr, hid, -⟩ := hrow k hk
    exact ⟨r, hr, hid⟩
  · intro r hr hdeleted
    obtain ⟨r', hr', hid, hstamped⟩ := hrow _ hdeleted
    rw [row_unique hr hr' hid.symm]
    exact hstamped

end Steps
end Lifecycle

/-- Over every table and every sequence of calls for any tenants that patch mutable fields
only and list without the deleted invoices: the deleted rows are kept through every call
exactly when no call that reaches its `UPDATE` is about one of them. -/
theorem soft_deletion_final_iff {schema : Schema} (t : InvoiceTable schema) (cs : List TenantCall)
    (hcalls : ∀ c ∈ cs, c.Ordinary) :
    Along Lifecycle.step Lifecycle.KeepsDeleted ⟨t, []⟩ cs ↔
      Along Lifecycle.step Lifecycle.SparesDeleted ⟨t, []⟩ cs := by
  refine along_iff_along Lifecycle.step Lifecycle.Stamped (fun _ c => c.Ordinary) _ _ ?_ ?_
    ⟨t, []⟩ cs ?_ (along_of_mem Lifecycle.step _ cs hcalls)
  · intro s c hs hc
    exact Lifecycle.keepsDeleted_iff hs hc
  · intro s c hs _ hkeeps
    exact Lifecycle.step_stamped hs hkeeps
  · refine ⟨?_, ?_⟩
    · intro k hk
      cases hk
    · intro r _ hk
      cases hk

def deleteFirst (now : ℕ) : TenantCall := ⟨"tenant_a", .deleteInvoice "inv_1", ⟨now, now, 7, 2, true⟩⟩

theorem soft_deletion_final_sample :
    Along Lifecycle.step Lifecycle.KeepsDeleted ⟨pendingTable, []⟩
      [deleteFirst 10, ⟨"tenant_a", .getInvoices none, sampleEnv 3 true⟩] := by
  refine (soft_deletion_final_iff pendingTable _ ?_).mpr ⟨?_, trivial, trivial⟩
  · intro c hc
    rcases List.mem_cons.mp hc with rfl | hc
    · trivial
    · rw [List.mem_singleton.mp hc]
      trivial
  · intro _ r _ hdeleted
    cases hdeleted

/- The second deletion finds the deleted row, and writes its time again. -/
theorem second_deletion_succeeds :
    (∀ c ∈ [deleteFirst 10, deleteFirst 20], c.Ordinary) ∧
    ((run Lifecycle.step (⟨pendingTable, []⟩ : Lifecycle sampleSchema)
      [deleteFirst 10, deleteFirst 20]).table.rows.map fun r => r .deletedAt) = [.timestamp 20] ∧
    ¬ Along Lifecycle.step Lifecycle.KeepsDeleted ⟨pendingTable, []⟩
      [deleteFirst 10, deleteFirst 20] := by
  refine ⟨?_, by decide, ?_⟩
  · intro c hc
    rcases List.mem_cons.mp hc with rfl | hc
    · trivial
    · rw [List.mem_singleton.mp hc]
      trivial
  · intro h
    have hkeeps := h.2.1 _ (List.mem_singleton_self _) (List.mem_singleton_self _)
    exact absurd (hkeeps.notModified rfl) (by decide)

end Liquifact.Invoices
