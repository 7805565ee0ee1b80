import Liquifact.Invoices.TenantIsolation
import Liquifact.Invoices.V1Routes

/-!
# Interleaved requests to the invoice routes

Any number of requests, for any tenants, statement by statement. No route writes the status, so
what is locked stays as it is although no `UPDATE` checks the lock itself; and what other
tenants do is noticed by a request only where an `INSERT` meets a number or a key of theirs.
-/

namespace Liquifact.Invoices.V1
open Liquifact.Lib Liquifact.Cache
open Concurrent (Accounted Admissible Alike Private Recorded Unnoticed run_accounted run_alone)

/-! ### What the statements of a request write -/

section Writes
variable {schema : Schema} {entries : List (String × JsValue)} {stamp : Column} {now : ℕ}
  {set : List (Column × SqlValue)}

theorem assigned_of_patches (hpatches : Patches entries stamp)
    (h : schema.written entries stamp now = .ok set) {c : Column} (hamount : c ≠ .amount)
    (hcustomer : c ≠ .customer) :
    assigned set c = if stamp = c then some (.timestamp now) else none := by
  obtain ⟨set', hset', h⟩ := bind_ok h
  cases h
  have hnone : (entries.filter fun entry => !isUndefined entry.2).find?
      (fun entry => columnOf entry.1 = some c) = none := by
    refine List.find?_eq_none.mpr fun entry hentry => ?_
    rcases hpatches.1 entry (List.mem_of_mem_filter hentry) with hcolumn | hcolumn
    · simpa [hcolumn] using hamount.symm
    · simpa [hcolumn] using hcustomer.symm
  rw [assigned_append_singleton, assigned_of_mapM hset', hnone]
  rfl

/- The columns that the routes write to a row that is there. -/
def written : List Column := [.amount, .customer, .updatedAt, .deletedAt]

theorem set_of_not_written (hpatches : Patches entries stamp)
    (h : schema.written entries stamp now = .ok set) {c : Column} (hc : c ∉ written) (r : Row) :
    (r.set set) c = r c := by
  simp only [written, List.mem_cons, List.not_mem_nil, or_false, not_or] at hc
  have hstamp : stamp ≠ c := by
    rcases hpatches.2 with rfl | rfl
    · exact Ne.symm hc.2.2.1
    · exact Ne.symm hc.2.2.2
  rw [Row.set, assigned_of_patches hpatches h hc.1 hc.2.1, if_neg hstamp]
  rfl

theorem set_deletedAt (hpatches : Patches entries stamp)
    (h : schema.written entries stamp now = .ok set) {r : Row} (hr : r .deletedAt ≠ .null) :
    (r.set set) .deletedAt ≠ .null := by
  rw [Row.set, assigned_of_patches hpatches h (by decide) (by decide)]
  split
  · rintro ⟨⟩
  · exact hr

theorem ofTenant_set (hpatches : Patches entries stamp)
    (h : schema.written entries stamp now = .ok set) (tenantId : String) (r : Row) :
    ofTenant tenantId (r.set set) = ofTenant tenantId r := by
  unfold ofTenant
  rw [set_of_not_written hpatches h (by decide)]

theorem numbered_set (hpatches : Patches entries stamp)
    (h : schema.written entries stamp now = .ok set) (number : String) (r : Row) :
    Invoices.numbered number (r.set set) = Invoices.numbered number r := by
  unfold Invoices.numbered
  rw [set_of_not_written hpatches h (by decide)]

/- The `UPDATE` of a request is not refused by an index. -/
theorem writeInvoice_patches (t : InvoiceTable schema) (id tenantId : String)
    (hpatches : Patches entries stamp) (h : schema.written entries stamp now = .ok set) :
    ∃ t', writeInvoice t id tenantId set = .ok t' ∧
      t'.rows = updateWhere (owned tenantId id) (fun r => r.set set) t.rows := by
  refine writeInvoice_of_allowed (allowed_of_unset t ?_ ?_)
  · rw [assigned_of_patches hpatches h (by decide) (by decide), if_neg]
    rcases hpatches.2 with rfl | rfl <;> decide
  · rw [assigned_of_patches hpatches h (by decide) (by decide), if_neg]
    rcases hpatches.2 with rfl | rfl <;> decide

theorem owned_iff {tenantId id : String} {r : Row} :
    owned tenantId id r = true ↔ r .invoiceId = .text id ∧ r .tenantId = .text tenantId := by
  simp [owned, ofTenant]

theorem assign_of_mapM {set : List (Column × SqlValue)} (h : entries.mapM schema.assign = .ok set) :
    ∀ entry ∈ entries, ∃ a, schema.assign entry = .ok a := by
  induction entries generalizing set with
  | nil =>
    rintro entry ⟨⟩
  | cons e entries ih =>
    rw [List.mapM_cons] at h
    obtain ⟨a, ha, h⟩ := bind_ok h
    obtain ⟨rest, hrest, -⟩ := bind_ok h
    intro entry hentry
    rcases List.mem_cons.mp hentry with rfl | hentry
    · exact ⟨a, ha⟩
    · exact ih hrest entry hentry

/- The entry that gives a column its value, where it is written down. -/
theorem find_entry {before after : List (String × JsValue)} {name : String} {v : JsValue}
    {c : Column} (hentries : entries = before ++ (name, v) :: after)
    (hbefore : ∀ entry ∈ before, columnOf entry.1 ≠ some c) (hname : columnOf name = some c)
    (hv : isUndefined v = false) :
    (entries.filter fun entry => !isUndefined entry.2).find?
      (fun entry => columnOf entry.1 = some c) = some (name, v) := by
  have hnone : (before.filter fun entry => !isUndefined entry.2).find?
      (fun entry => columnOf entry.1 = some c) = none :=
    List.find?_eq_none.mpr fun entry hentry => by
      simpa using hbefore entry (List.mem_of_mem_filter hentry)
  rw [hentries, List.filter_append, List.find?_append, hnone, Option.none_or,
    List.filter_cons_of_pos (by simp [hv]), List.find?_cons_of_pos (by simp [hname])]

/- Without a status the row gets what the column stores for `'pending'`. -/
theorem status_insertedRow {tenantId : String} {data : InvoiceData} {env : Env} {row : Row}
    (hstatus : data.status = .undefined) (h : insertedRow schema tenantId data env = .ok row) :
    schema.store .status (.string "pending") = some (row .status) := by
  obtain ⟨set, hset, h⟩ := bind_ok h
  dsimp only at h
  split_ifs at h with hmissing
  cases h
  unfold Schema.assignments at hset
  have hmem : ("status", JsValue.string "pending") ∈
      (insertedEntries data tenantId env).filter fun entry => !isUndefined entry.2 := by
    refine List.mem_filter.mpr ⟨?_, rfl⟩
    simp [insertedEntries, hstatus, isUndefined]
  obtain ⟨a, ha⟩ := assign_of_mapM hset _ hmem
  obtain ⟨hcolumn, hstore⟩ := assign_ok ha
  have hassigned : assigned set .status = schema.store .status (.string "pending") := by
    have hentries : insertedEntries data tenantId env =
        [("invoice_id", .string (invoiceIdOf data env)), ("amount", data.amount),
          ("customer", data.customer)] ++ ("status", .string "pending") ::
            (insertedEntries data tenantId env).drop 4 := by
      simp only [insertedEntries, hstatus]
      rfl
    rw [assigned_of_mapM hset, find_entry hentries ?_ rfl rfl]
    · rfl
    · simp [columnOf]
  obtain ⟨c, v⟩ := a
  cases hcolumn
  rw [Row.set, hassigned, hstore, Option.getD_some]

theorem id_insertedRow {tenantId : String} {data : InvoiceData} {env : Env} {row : Row}
    (h : insertedRow schema tenantId data env = .ok row) : row .id = .number env.id := by
  obtain ⟨set, hset, h⟩ := bind_ok h
  dsimp only at h
  split_ifs at h with hmissing
  cases h
  have hassigned : assigned set .id = none := by
    unfold Schema.assignments at hset
    have hnames : ∀ name ∈ (insertedEntries data tenantId env).map Prod.fst,
        columnOf name ≠ some .id := by
      show ∀ name ∈ ["invoice_id", "amount", "customer", "status", "tenant_id", "currency",
        "due_date", "description", "metadata"], columnOf name ≠ some .id
      decide
    rw [assigned_of_mapM hset, List.find?_eq_none.mpr]
    · rfl
    · intro entry hentry
      simpa using hnames _ (List.mem_map_of_mem (List.mem_of_mem_filter hentry))
  rw [Row.set, hassigned]
  rfl

/- The indexes of a table with one more row. -/
theorem holds_append {rows : List Row} (hrows : schema.Holds rows) (row : Row) :
    schema.Holds (rows ++ [row]) ↔ (∀ r ∈ rows, r .id ≠ row .id) ∧
      (schema.uniqueInvoiceId = true → ∀ r ∈ rows, r .invoiceId ≠ row .invoiceId) := by
  unfold Schema.Holds at hrows ⊢
  simp only [List.map_append, List.map_cons, List.map_nil, List.nodup_append, List.nodup_cons,
    List.mem_map, List.mem_singleton, List.not_mem_nil, not_false_eq_true, List.nodup_nil,
    forall_exists_index, and_imp, forall_apply_eq_imp_iff₂, forall_eq, true_and]
  constructor
  · rintro ⟨⟨-, hid⟩, hunique⟩
    exact ⟨hid, fun h => (hunique h).2⟩
  · rintro ⟨hid, hunique⟩
    exact ⟨⟨hrows.1, hid⟩, fun h => ⟨hrows.2 h, hunique h⟩⟩

end Writes

/-! ### What no route changes -/

section Kept
variable {schema : Schema} {limit : JsNumber} {π : Type} (requests : π → InvoiceRequest)
  (t₀ : InvoiceTable schema)

/- The lookup of the service finds the invoice locked. -/
def Frozen (tenantId id : String) : Prop :=
  ∃ r, t₀.rows.find? (owned tenantId id) = some r ∧ lockedStatus (r .status) ≠ none

/-- What a row of the first table has become. -/
structure Kept (r r' : Row) : Prop where
  columns : ∀ c ∉ written, r' c = r c
  deleted : r .deletedAt ≠ .null → r' .deletedAt ≠ .null
  frozen : ∀ tenantId id, owned tenantId id r = true → Frozen t₀ tenantId id → r' = r

/-- A row that was not in the first table. -/
def Added (schema : Schema) (limit : JsNumber) (r : Row) : Prop :=
  schema.store .status (.string "pending") = some (r .status) ∧
    ∃ p tenantId, extractTenant limit (requests p) = some tenantId ∧ ofTenant tenantId r = true

def Descends (limit : JsNumber) (t : InvoiceTable schema) : Prop :=
  ∃ kept added, t.rows = kept ++ added ∧ List.Forall₂ (Kept t₀) t₀.rows kept ∧
    ∀ r ∈ added, Added requests schema limit r

/- An invoice that was locked was found so by every lookup. -/
def FoundLocked (record : π → Exchange) : Prop :=
  ∀ p tenantId id r, record p = some ⟨.lookup id tenantId, .ok (some r)⟩ →
    Frozen t₀ tenantId id → lockedStatus (r .status) ≠ none

variable {requests t₀} {t t' : InvoiceTable schema} {r r' : Row}

theorem Kept.refl (r : Row) : Kept t₀ r r := ⟨fun _ _ => rfl, id, fun _ _ _ _ => rfl⟩

theorem Kept.owned_eq (h : Kept t₀ r r') (tenantId id : String) :
    owned tenantId id r' = owned tenantId id r := by
  unfold owned ofTenant
  rw [h.columns .invoiceId (by decide), h.columns .tenantId (by decide)]

theorem find_kept {rows kept : List Row} (h : List.Forall₂ (Kept t₀) rows kept)
    {tenantId id : String} (hfind : rows.find? (owned tenantId id) = some r) :
    ∃ r', kept.find? (owned tenantId id) = some r' ∧ Kept t₀ r r' := by
  induction h with
  | nil => cases hfind
  | @cons a b rows kept hab _ ih =>
    rw [List.find?_cons] at hfind ⊢
    rw [hab.owned_eq]
    cases hp : owned tenantId id a with
    | true =>
      rw [hp] at hfind
      cases hfind
      exact ⟨b, rfl, hab⟩
    | false =>
      rw [hp] at hfind
      exact ih hfind

theorem Descends.find_locked (h : Descends requests t₀ limit t) {tenantId id : String}
    (hfrozen : Frozen t₀ tenantId id) :
    ∃ r, t.rows.find? (owned tenantId id) = some r ∧ lockedStatus (r .status) ≠ none := by
  obtain ⟨kept, added, hrows, hkept, -⟩ := h
  obtain ⟨r, hfind, hlocked⟩ := hfrozen
  obtain ⟨r', hfind', hr'⟩ := find_kept hkept hfind
  refine ⟨r', ?_, ?_⟩
  · rw [hrows, List.find?_append, hfind', Option.some_or]
  · rwa [hr'.columns .status (by decide)]

theorem Descends.insert (h : Descends requests t₀ limit t) {p : π} {tenantId : String}
    {data : InvoiceData} {env : Env} {row : Row}
    (htenant : extractTenant limit (requests p) = some tenantId)
    (hstatus : data.status = .undefined)
    (hinsert : insertInvoice t tenantId data env = .ok (row, t')) :
    Descends requests t₀ limit t' := by
  obtain ⟨kept, added, hrows, hkept, hadded⟩ := h
  obtain ⟨hrow, hrows'⟩ := insertInvoice_ok hinsert
  refine ⟨kept, added ++ [row], ?_, hkept, fun r hr => ?_⟩
  · rw [hrows', hrows, List.append_assoc]
  · rcases List.mem_append.mp hr with hr | hr
    · exact hadded r hr
    · obtain rfl := List.mem_singleton.mp hr
      exact ⟨status_insertedRow hstatus hrow, p, tenantId, htenant,
        decide_eq_true (insertedRow_ok hrow).1⟩

variable {entries : List (String × JsValue)} {stamp : Column} {now : ℕ}
  {set : List (Column × SqlValue)}

theorem Kept.patch (h : Kept t₀ r r') (hpatches : Patches entries stamp)
    (hset : schema.written entries stamp now = .ok set) {tenantId id : String}
    (howned : owned tenantId id r' = true) (hopen : ¬ Frozen t₀ tenantId id) :
    Kept t₀ r (r'.set set) := by
  refine ⟨fun c hc => ?_, fun hr => ?_, fun tenantId' id' howned' hfrozen => ?_⟩
  · rw [set_of_not_written hpatches hset hc, h.columns c hc]
  · exact set_deletedAt hpatches hset (h.deleted hr)
  · rw [h.owned_eq] at howned
    obtain ⟨hid, htenant⟩ := owned_iff.mp howned
    obtain ⟨hid', htenant'⟩ := owned_iff.mp howned'
    cases hid.symm.trans hid'
    cases htenant.symm.trans htenant'
    exact absurd hfrozen hopen

theorem Descends.update (h : Descends requests t₀ limit t) (hpatches : Patches entries stamp)
    (hset : schema.written entries stamp now = .ok set) {tenantId id : String}
    (hopen : ¬ Frozen t₀ tenantId id)
    (ht' : t'.rows = updateWhere (owned tenantId id) (fun r => r.set set) t.rows) :
    Descends requests t₀ limit t' := by
  obtain ⟨kept, added, hrows, hkept, hadded⟩ := h
  refine ⟨updateWhere (owned tenantId id) (fun r => r.set set) kept,
    updateWhere (owned tenantId id) (fun r => r.set set) added, ?_, ?_, fun r hr => ?_⟩
  · rw [ht', hrows]
    exact List.map_append
  · refine List.forall₂_map_right_iff.mpr (hkept.imp fun r r' hr => ?_)
    dsimp only
    split
    · next howned => exact hr.patch hpatches hset howned hopen
    · exact hr
  · obtain ⟨r', hr', rfl⟩ := mem_updateWhere.mp hr
    obtain ⟨hstatus, p, tenantId', htenant, hof⟩ := hadded r' hr'
    split
    · refine ⟨?_, p, tenantId', htenant, ?_⟩
      · rw [set_of_not_written hpatches hset (by decide)]
        exact hstatus
      · rw [ofTenant_set hpatches hset]
        exact hof
    · exact ⟨hstatus, p, tenantId', htenant, hof⟩

variable [DecidableEq π]

theorem FoundLocked.update {record : π → Exchange} (h : FoundLocked t₀ record) (p : π) {q : Query}
    {answer : Except String q.Response}
    (hlocked : ∀ tenantId id r,
      (⟨q, answer⟩ : (q : Query) × Except String q.Response) = ⟨.lookup id tenantId, .ok (some r)⟩ →
        Frozen t₀ tenantId id → lockedStatus (r .status) ≠ none) :
    FoundLocked t₀ (Function.update record p (some ⟨q, answer⟩)) := by
  intro p' tenantId id r hp'
  by_cases hp : p' = p
  · subst hp
    rw [Function.update_self] at hp'
    exact hlocked tenantId id r (Option.some.inj hp')
  · rw [Function.update_of_ne hp] at hp'
    exact h p' tenantId id r hp'

/- What a request has been told about locks, with the table as it is. -/
def Guarded (requests : π → InvoiceRequest) (t₀ : InvoiceTable schema) (limit : JsNumber)
    (record : π → Exchange) (t : InvoiceTable schema) : Prop :=
  Descends requests t₀ limit t ∧ FoundLocked t₀ record

theorem guarded_recorded : Recorded (@execute schema)
    (fun p => Entitled (extractTenant limit (requests p))) exchanged
    (Guarded requests t₀ limit) (fun _ _ _ _ => True) := by
  rintro record p ⟨env, failure⟩ t q ⟨hdescends, hfound⟩ hentitled -
  refine ⟨_, rfl, ?_⟩
  have hother : ∀ answer : Except String q.Response, (∀ tenantId id, q ≠ .lookup id tenantId) →
      FoundLocked t₀ (Function.update record p (some ⟨q, answer⟩)) := by
    intro answer hq
    refine hfound.update p fun tenantId id r heq => ?_
    exact absurd (Sigma.mk.inj heq).1 (hq tenantId id)
  cases failure with
  | some message =>
    refine ⟨hdescends, hfound.update p fun tenantId id r heq => ?_⟩
    cases heq
  | none =>
    cases q with
    | list tenantId opts => exact ⟨hdescends, hother _ (by rintro _ _ ⟨⟩)⟩
    | active id tenantId => exact ⟨hdescends, hother _ (by rintro _ _ ⟨⟩)⟩
    | numbered number => exact ⟨hdescends, hother _ (by rintro _ _ ⟨⟩)⟩
    | lookup id tenantId =>
      refine ⟨hdescends, hfound.update p fun tenantId' id' r heq hfrozen => ?_⟩
      obtain ⟨hq, hanswer⟩ := Sigma.mk.inj heq
      cases hq
      obtain ⟨r', hfind, hlocked⟩ := hdescends.find_locked hfrozen
      have hr : t.rows.find? (owned tenantId id) = some r := Except.ok.inj (eq_of_heq hanswer)
      cases hfind.symm.trans hr
      exact hlocked
    | insert tenantId data =>
      refine ⟨?_, hother _ (by rintro _ _ ⟨⟩)⟩
      simp only [execute]
      cases hinsert : insertInvoice t tenantId data env with
      | error e => exact hdescends
      | ok x => exact hdescends.insert hentitled.1 hentitled.2 hinsert
    | update id tenantId entries stamp =>
      refine ⟨?_, hother _ (by rintro _ _ ⟨⟩)⟩
      obtain ⟨-, hpatches, r, hlast, hunlocked⟩ := hentitled
      have hopen : ¬ Frozen t₀ tenantId id := fun hfrozen =>
        hfound p tenantId id r hlast hfrozen hunlocked
      simp only [execute]
      cases hset : schema.written entries stamp env.now with
      | error e => exact hdescends
      | ok set =>
        obtain ⟨t', hwrite, hrows⟩ := writeInvoice_patches t id tenantId hpatches hset
        simp only [hwrite]
        exact hdescends.update hpatches hset hopen hrows

/-- After any interleaving of requests the rows are those there were, in their order, and then
rows that were inserted as `'pending'` for tenants of requests. A row keeps every column but
the amount, the customer and the two stamps, a deletion is not taken back, and an invoice that
the lookup of the service finds locked is as it was. -/
theorem routes_keep (engine : Engine) (limit : JsNumber) (requests : π → InvoiceRequest)
    (t₀ : InvoiceTable schema) (as : List (π × StatementEnv)) :
    Descends requests t₀ limit
      (run (Concurrent.step execute) (Served.start engine limit requests t₀) as).store := by
  have hstart : (Served.start engine limit requests t₀).Accounted
      (fun p => Entitled (extractTenant limit (requests p))) exchanged
      (Guarded requests t₀ limit) := by
    refine ⟨fun _ => none, fun p => asks_respond engine limit (requests p), ?_, ?_⟩
    · refine ⟨t₀.rows, [], (List.append_nil _).symm, ?_, ?_⟩
      · exact List.forall₂_same.mpr fun r _ => Kept.refl r
      · rintro r ⟨⟩
    · rintro p tenantId id r ⟨⟩
  obtain ⟨record, -, hdescends, -⟩ := run_accounted guarded_recorded hstart as
    ((along_iff_forall _ _ _ _).mpr fun _ _ _ _ _ _ => trivial)
  exact hdescends

end Kept

/-! ### What a tenant notices of the others -/

section Alone
variable {schema : Schema} (tenantId : String)

/- Rows that the two indexes do not tell apart. -/
def SameKeys (r r' : Row) : Prop := r .id = r' .id ∧ r .invoiceId = r' .invoiceId

/- The second table lacks rows of other tenants. -/
def Lacks (t t' : InvoiceTable schema) : Prop :=
  Thinned (ofTenant tenantId) SameKeys t.rows t'.rows

/-- An `INSERT` for the tenant draws a new key, and no other tenant has its number. -/
def Unshared (t : InvoiceTable schema) (e : StatementEnv) : Query → Prop
  | .insert tenant data => tenant = tenantId →
    ∀ row, insertedRow schema tenantId data e.env = .ok row → ∀ r ∈ t.rows,
      r .id ≠ row .id ∧ (ofTenant tenantId r = false → r .invoiceId ≠ row .invoiceId)
  | _ => True

/- What a request of the tenant has inserted comes first under its number. -/
def OwnNumbers {π : Type} (own : π → Prop) (record : π → Exchange) (t : InvoiceTable schema) :
    Prop :=
  ∀ p tenant data number, own p →
    record p = some ⟨.insert tenant data, .ok (.ok (number, none))⟩ →
    ∃ r, t.rows.find? (Invoices.numbered number) = some r ∧ ofTenant tenantId r = true

variable {tenantId} {t t' t₁ : InvoiceTable schema} {row : Row}

theorem numbered_of_sameKeys {number : String} (r r' : Row) (h : SameKeys r r') :
    Invoices.numbered number r = Invoices.numbered number r' := by
  unfold Invoices.numbered
  rw [h.2]

/- Both tables take the row or both refuse it. -/
theorem holds_append_iff (h : Lacks tenantId t t')
    (hkeys : ∀ r ∈ t.rows, r .id ≠ row .id ∧
      (ofTenant tenantId r = false → r .invoiceId ≠ row .invoiceId)) :
    schema.Holds (t.rows ++ [row]) ↔ schema.Holds (t'.rows ++ [row]) := by
  have hkeys' : ∀ r ∈ t'.rows, r .id ≠ row .id ∧
      (ofTenant tenantId r = false → r .invoiceId ≠ row .invoiceId) := by
    intro r hr
    rcases h.mem_right hr with hmem | ⟨hout, r₀, hr₀, hout₀, hid, hnumber⟩
    · exact hkeys r hmem
    · rw [← hid, ← hnumber]
      exact ⟨(hkeys r₀ hr₀).1, fun _ => (hkeys r₀ hr₀).2 hout₀⟩
  have hpart : ∀ r, ofTenant tenantId r = true → (r ∈ t.rows ↔ r ∈ t'.rows) := by
    intro r hr
    have heq := h.filter_eq
    have hmem : r ∈ t.rows.filter (ofTenant tenantId) ↔ r ∈ t'.rows.filter (ofTenant tenantId) := by
      rw [heq]
    simpa [List.mem_filter, hr] using hmem
  rw [holds_append t.holds, holds_append t'.holds]
  constructor
  · rintro ⟨-, hnumbers⟩
    refine ⟨fun r hr => (hkeys' r hr).1, fun hunique r hr => ?_⟩
    cases hof : ofTenant tenantId r with
    | true => exact hnumbers hunique r ((hpart r hof).mpr hr)
    | false => exact (hkeys' r hr).2 hof
  · rintro ⟨-, hnumbers⟩
    refine ⟨fun r hr => (hkeys r hr).1, fun hunique r hr => ?_⟩
    cases hof : ofTenant tenantId r with
    | true => exact hnumbers hunique r ((hpart r hof).mp hr)
    | false => exact (hkeys r hr).2 hof

theorem insertInvoice_of_holds {data : InvoiceData} {env : Env}
    (hrow : insertedRow schema tenantId data env = .ok row)
    (h : schema.Holds (t.rows ++ [row])) :
    insertInvoice t tenantId data env = .ok (row, ⟨t.rows ++ [row], h⟩) := by
  unfold insertInvoice
  rw [bind_of hrow]
  simp only [Schema.commit, dif_pos h]
  rfl

theorem insertInvoice_of_not_holds {data : InvoiceData} {env : Env}
    (hrow : insertedRow schema tenantId data env = .ok row)
    (h : ¬ schema.Holds (t.rows ++ [row])) :
    insertInvoice t tenantId data env = .error .duplicate := by
  unfold insertInvoice
  rw [bind_of hrow]
  simp only [Schema.commit, dif_neg h]
  rfl

theorem insertInvoice_of_error {data : InvoiceData} {env : Env} {e : DbError}
    (hrow : insertedRow schema tenantId data env = .error e) :
    insertInvoice t tenantId data env = .error e := by
  unfold insertInvoice
  rw [hrow]
  rfl

/- An `INSERT` for the tenant itself. -/
theorem insert_private {data : InvoiceData} {e : StatementEnv} (h : Lacks tenantId t t')
    (hunshared : Unshared tenantId t e (.insert tenantId data)) :
    (execute e t (.insert tenantId data)).1 = (execute e t' (.insert tenantId data)).1 ∧
      Lacks tenantId (execute e t (.insert tenantId data)).2
        (execute e t' (.insert tenantId data)).2 := by
  obtain ⟨env, failure⟩ := e
  cases failure with
  | some message => exact ⟨rfl, h⟩
  | none =>
    simp only [execute]
    cases hrow : insertedRow schema tenantId data env with
    | error err =>
      simp only [insertInvoice_of_error hrow]
      exact ⟨trivial, h⟩
    | ok row =>
      have hiff := holds_append_iff h (hunshared rfl row hrow)
      by_cases hholds : schema.Holds (t.rows ++ [row])
      · simp only [insertInvoice_of_holds hrow hholds, insertInvoice_of_holds hrow (hiff.mp hholds)]
        refine ⟨trivial, h.append (.own ?_ .nil)⟩
        exact decide_eq_true (insertedRow_ok hrow).1
      · simp only [insertInvoice_of_not_holds hrow hholds,
          insertInvoice_of_not_holds hrow (mt hiff.mpr hholds)]
        exact ⟨trivial, h⟩

theorem update_private {id : String} {entries : List (String × JsValue)} {stamp : Column}
    {e : StatementEnv} (h : Lacks tenantId t t') (hpatches : Patches entries stamp) :
    (execute e t (.update id tenantId entries stamp)).1 =
        (execute e t' (.update id tenantId entries stamp)).1 ∧
      Lacks tenantId (execute e t (.update id tenantId entries stamp)).2
        (execute e t' (.update id tenantId entries stamp)).2 := by
  obtain ⟨env, failure⟩ := e
  cases failure with
  | some message => exact ⟨rfl, h⟩
  | none =>
    simp only [execute]
    cases hset : schema.written entries stamp env.now with
    | error err => exact ⟨rfl, h⟩
    | ok set =>
      obtain ⟨t₁, hwrite₁, hrows₁⟩ := writeInvoice_patches t id tenantId hpatches hset
      obtain ⟨t₂, hwrite₂, hrows₂⟩ := writeInvoice_patches t' id tenantId hpatches hset
      simp only [hwrite₁, hwrite₂]
      rw [h.find_eq ofTenant_of_owned]
      refine ⟨rfl, ?_⟩
      unfold Lacks
      rw [hrows₁, hrows₂]
      refine h.update_inside ofTenant_of_owned fun r hr => ?_
      rw [ofTenant_set hpatches hset]
      exact ofTenant_of_owned r hr

/- The `INSERT` and the `UPDATE` of another tenant. -/
theorem insert_unnoticed {tenant : String} {data : InvoiceData} {e : StatementEnv}
    (h : Lacks tenantId t t') (htenant : tenant ≠ tenantId) :
    Lacks tenantId (execute e t (.insert tenant data)).2 t' := by
  obtain ⟨env, failure⟩ := e
  cases failure with
  | some message => exact h
  | none =>
    simp only [execute]
    cases hinsert : insertInvoice t tenant data env with
    | error err => exact h
    | ok x =>
      obtain ⟨row, t₁⟩ := x
      obtain ⟨hrow, hrows⟩ := insertInvoice_ok hinsert
      unfold Lacks
      rw [hrows, ← List.append_nil t'.rows]
      refine h.append (.skip ?_ .nil)
      simp [ofTenant, (insertedRow_ok hrow).1, htenant]

theorem update_unnoticed {tenant id : String} {entries : List (String × JsValue)} {stamp : Column}
    {e : StatementEnv} (h : Lacks tenantId t t') (htenant : tenant ≠ tenantId)
    (hpatches : Patches entries stamp) :
    Lacks tenantId (execute e t (.update id tenant entries stamp)).2 t' := by
  obtain ⟨env, failure⟩ := e
  cases failure with
  | some message => exact h
  | none =>
    simp only [execute]
    cases hset : schema.written entries stamp env.now with
    | error err => exact h
    | ok set =>
      obtain ⟨t₁, hwrite, hrows⟩ := writeInvoice_patches t id tenant hpatches hset
      simp only [hwrite]
      have hout : ∀ r, owned tenant id r = true → ofTenant tenantId r = false := by
        intro r hr
        simp [ofTenant, (owned_iff.mp hr).2, htenant]
      unfold Lacks
      rw [hrows]
      refine h.update_outside hout (fun r hr => ?_) fun r r' _ hrr => ?_
      · rw [ofTenant_set hpatches hset]
        exact hout r hr
      · exact ⟨(set_of_not_written hpatches hset (by decide) r).trans hrr.1,
          (set_of_not_written hpatches hset (by decide) r).trans hrr.2⟩

/- The first row with a number stays the first, and with its tenant. -/
theorem numbered_execute {tenant : Option String} {last : Exchange} {q : Query}
    (e : StatementEnv) (hentitled : Entitled tenant last q) {number : String}
    (h : ∃ r, t.rows.find? (Invoices.numbered number) = some r ∧ ofTenant tenantId r = true) :
    ∃ r, (execute e t q).2.rows.find? (Invoices.numbered number) = some r ∧
      ofTenant tenantId r = true := by
  obtain ⟨r, hfind, hof⟩ := h
  obtain ⟨env, failure⟩ := e
  cases failure with
  | some message => exact ⟨r, hfind, hof⟩
  | none =>
    cases q with
    | list tenant opts => exact ⟨r, hfind, hof⟩
    | active id tenant => exact ⟨r, hfind, hof⟩
    | numbered number' => exact ⟨r, hfind, hof⟩
    | lookup id tenant => exact ⟨r, hfind, hof⟩
    | insert tenant data =>
      simp only [execute]
      cases hinsert : insertInvoice t tenant data env with
      | error err => exact ⟨r, hfind, hof⟩
      | ok x =>
        dsimp only
        rw [(insertInvoice_ok hinsert).2, List.find?_append, hfind]
        exact ⟨r, rfl, hof⟩
    | update id tenant entries stamp =>
      obtain ⟨-, hpatches, -⟩ := hentitled
      simp only [execute]
      cases hset : schema.written entries stamp env.now with
      | error err => exact ⟨r, hfind, hof⟩
      | ok set =>
        obtain ⟨t₁, hwrite, hrows⟩ := writeInvoice_patches t id tenant hpatches hset
        simp only [hwrite]
        have hsame : (fun r => Invoices.numbered number
            (if owned tenant id r = true then r.set set else r)) = Invoices.numbered number := by
          funext r
          split
          · exact numbered_set hpatches hset number r
          · rfl
        rw [hrows, updateWhere, List.find?_map, Function.comp_def, hsame, hfind]
        refine ⟨_, rfl, ?_⟩
        dsimp only
        split
        · rw [ofTenant_set hpatches hset]
          exact hof
        · exact hof

section Requests
variable {limit : JsNumber} {π : Type} {requests : π → InvoiceRequest}

def requestsOf (limit : JsNumber) (requests : π → InvoiceRequest) (tenantId : String) (p : π) :
    Prop :=
  extractTenant limit (requests p) = some tenantId

instance decidableRequestsOf : DecidablePred (requestsOf limit requests tenantId) :=
  fun _ => inferInstanceAs (Decidable (_ = _))

/- An own insertion comes first under its number, where nobody else has it. -/
theorem inserted_first {data : InvoiceData} {env : Env} {row : Row}
    (hunshared : Unshared tenantId t ⟨env, none⟩ (.insert tenantId data))
    (hinsert : insertInvoice t tenantId data env = .ok (row, t₁)) :
    ∃ r, t₁.rows.find? (Invoices.numbered (invoiceIdOf data env)) = some r ∧
      ofTenant tenantId r = true := by
  obtain ⟨hrow, hrows⟩ := insertInvoice_ok hinsert
  obtain ⟨htenant, hnumber⟩ := insertedRow_ok hrow
  rw [hrows, List.find?_append]
  cases hfind : t.rows.find? (Invoices.numbered (invoiceIdOf data env)) with
  | none =>
    refine ⟨row, ?_, decide_eq_true htenant⟩
    simp [Invoices.numbered, hnumber]
  | some r =>
    refine ⟨r, rfl, ?_⟩
    by_contra hof
    have hnumbered : Invoices.numbered (invoiceIdOf data env) r = true := List.find?_some hfind
    refine (hunshared rfl row hrow r (List.mem_of_find?_eq_some hfind)).2
      (Bool.eq_false_iff.mpr hof) ?_
    rw [of_decide_eq_true hnumbered, hnumber]

theorem own_private : Private (requestsOf limit requests tenantId) (Lacks tenantId)
    (@execute schema) (fun p => Entitled (extractTenant limit (requests p)))
    (OwnNumbers tenantId (requestsOf limit requests tenantId))
    (fun t _ e q => Unshared tenantId t e q) := by
  intro record p e t t' q hp hown hentitled hunshared hlacks
  have htenant : ∀ {tenant}, extractTenant limit (requests p) = some tenant → tenant = tenantId :=
    fun h => Option.some.inj (h.symm.trans hp)
  cases q with
  | list tenant opts =>
    obtain rfl := htenant hentitled
    obtain ⟨env, failure⟩ := e
    cases failure with
    | some message => exact ⟨rfl, hlacks⟩
    | none =>
      refine ⟨?_, hlacks⟩
      simp only [execute]
      rw [filter_of_part ofTenant_of_listed t.rows, filter_of_part ofTenant_of_listed t'.rows,
        hlacks.filter_eq]
  | active id tenant =>
    obtain rfl := htenant hentitled
    obtain ⟨env, failure⟩ := e
    cases failure with
    | some message => exact ⟨rfl, hlacks⟩
    | none =>
      refine ⟨?_, hlacks⟩
      simp only [execute]
      rw [hlacks.find_eq ofTenant_of_active]
  | lookup id tenant =>
    obtain rfl := htenant hentitled
    obtain ⟨env, failure⟩ := e
    cases failure with
    | some message => exact ⟨rfl, hlacks⟩
    | none =>
      refine ⟨?_, hlacks⟩
      simp only [execute]
      rw [hlacks.find_eq ofTenant_of_owned]
  | numbered number =>
    obtain ⟨tenant, data, hlast⟩ := hentitled
    obtain ⟨r, hfind, hof⟩ := hown p tenant data number hp hlast
    obtain ⟨env, failure⟩ := e
    cases failure with
    | some message => exact ⟨rfl, hlacks⟩
    | none =>
      refine ⟨?_, hlacks⟩
      simp only [execute]
      rw [hlacks.find_first (fun r r' _ h => numbered_of_sameKeys r r' h)]
      intro r' hr'
      cases hfind.symm.trans hr'
      exact hof
  | insert tenant data =>
    obtain rfl := htenant hentitled.1
    exact insert_private hlacks hunshared
  | update id tenant entries stamp =>
    obtain rfl := htenant hentitled.1
    exact update_private hlacks hentitled.2.1

theorem others_unnoticed : Unnoticed (requestsOf limit requests tenantId) (Lacks tenantId)
    (@execute schema) (fun p => Entitled (extractTenant limit (requests p)))
    (OwnNumbers tenantId (requestsOf limit requests tenantId))
    (fun t _ e q => Unshared tenantId t e q) := by
  intro record p e t t' q hp hown hentitled hunshared hlacks
  have htenant : ∀ {tenant}, extractTenant limit (requests p) = some tenant → tenant ≠ tenantId := by
    rintro tenant h rfl
    exact hp h
  have hreads : (execute e t q).2 = t → Lacks tenantId (execute e t q).2 t' := by
    intro h
    rw [h]
    exact hlacks
  cases q with
  | insert tenant data => exact insert_unnoticed hlacks (htenant hentitled.1)
  | update id tenant entries stamp =>
    exact update_unnoticed hlacks (htenant hentitled.1) hentitled.2.1
  | _ =>
    refine hreads ?_
    unfold execute
    split <;> rfl

variable [DecidableEq π]

theorem ownNumbers_recorded : Recorded (@execute schema)
    (fun p => Entitled (extractTenant limit (requests p))) exchanged
    (OwnNumbers tenantId (requestsOf limit requests tenantId))
    (fun t _ e q => Unshared tenantId t e q) := by
  intro record p e t q hown hentitled hunshared
  refine ⟨_, rfl, ?_⟩
  intro p' tenant data number hp' hrecord
  by_cases hpp : p' = p
  · subst hpp
    rw [Function.update_self] at hrecord
    obtain ⟨hq, hanswer⟩ := Sigma.mk.inj (Option.some.inj hrecord)
    subst hq
    have hanswer := eq_of_heq hanswer
    obtain ⟨htenant, -⟩ := hentitled
    obtain rfl : tenant = tenantId := Option.some.inj (htenant.symm.trans hp')
    obtain ⟨env, failure⟩ := e
    cases failure with
    | some message => cases hanswer
    | none =>
      simp only [execute] at hanswer ⊢
      cases hinsert : insertInvoice t tenant data env with
      | error err =>
        rw [hinsert] at hanswer
        cases hanswer
      | ok x =>
        obtain ⟨row, t₁⟩ := x
        rw [hinsert] at hanswer
        simp only [Except.ok.injEq, Prod.mk.injEq] at hanswer
        rw [← hanswer.1]
        exact inserted_first hunshared hinsert
  · rw [Function.update_of_ne hpp] at hrecord
    exact numbered_execute e hentitled (hown p' tenant data number hp' hrecord)

/-- In every interleaving of requests of all tenants each request of one of them is where it is
when only the statements of this tenant's requests are executed, with the same reply if it has
ended, and the rows of the tenant are the same: except that an insertion notices a number that
another tenant has. -/
theorem tenant_served_as_alone (engine : Engine) (limit : JsNumber)
    (requests : π → InvoiceRequest) (tenantId : String) (t : InvoiceTable schema)
    (as : List (π × StatementEnv))
    (h : Along (Concurrent.step execute) (Admissible fun t _ e q => Unshared tenantId t e q)
      (Served.start engine limit requests t) as) :
    let ends := run (Concurrent.step execute) (Served.start engine limit requests t)
    let own := as.filter fun a => requestsOf limit requests tenantId a.1
    (∀ p, requestsOf limit requests tenantId p → (ends as).program p = (ends own).program p) ∧
      (ends as).store.rows.filter (ofTenant tenantId) =
        (ends own).store.rows.filter (ofTenant tenantId) := by
  have hstart : (Served.start engine limit requests t).Accounted
      (fun p => Entitled (extractTenant limit (requests p))) exchanged
      (OwnNumbers tenantId (requestsOf limit requests tenantId)) := by
    refine ⟨fun _ => none, fun p => asks_respond engine limit (requests p), ?_⟩
    rintro p tenant data number - ⟨⟩
  have halike : Alike (requestsOf limit requests tenantId) (Lacks tenantId)
      (Served.start engine limit requests t) (Served.start engine limit requests t) :=
    ⟨Thinned.refl (fun _ => ⟨rfl, rfl⟩) _, fun _ _ => rfl⟩
  obtain ⟨hstore, hprogram⟩ :=
    run_alone ownNumbers_recorded own_private others_unnoticed as hstart h halike
  exact ⟨hprogram, hstore.filter_eq⟩

end Requests

end Alone

/-! ### A sample -/

/- The language on the texts of the sample. -/
def sampleEngine : Engine where
  toUpperCase s := s
  parsesDate _ := true

def sampleRequest (tenantId : String) (route : Route) : InvoiceRequest :=
  ⟨.string tenantId, .undefined, "/v1/invoices", route⟩

def newInvoice : Json :=
  .obj [("amount", .num (.fin 5)), ("dueDate", .str "2026-01-31"), ("buyer", .str "Bob Inc"),
    ("seller", .str "Alice Corp"), ("currency", .str "USD"), ("invoiceNumber", .str "inv_2")]

def sampleRequests : Bool → InvoiceRequest
  | false => sampleRequest "tenant_a" (.create (some newInvoice))
  | true => sampleRequest "tenant_b" (.list .absent)

theorem asked_create {engine : Engine} {limit : JsNumber} {req : InvoiceRequest}
    {tenantId : String} {body : Option Json} {data : List (String × JsValue)}
    (htenant : extractTenant limit req = some tenantId) (hroute : req.route = .create body)
    (hdata : parseCreate engine body = some data) (hne : tenantId ≠ "") :
    ∃ next, respond engine limit req = .ask (.insert tenantId (invoiceData data)) next := by
  simp only [respond, htenant, hroute, handle, postInvoice, hdata, createInvoice, if_neg hne]
  exact ⟨_, rfl⟩

/- Another tenant lists its invoices, then the invoice is inserted. -/
theorem tenant_served_as_alone_sample :
    let ends := run (Concurrent.step (@execute sampleSchema))
      (Served.start sampleEngine (.fin 128) sampleRequests pendingTable)
    (ends [(true, ⟨sampleEnv 0 true, none⟩), (false, ⟨sampleEnv 2 true, none⟩)]).program false =
      (ends [(false, ⟨sampleEnv 2 true, none⟩)]).program false := by
  have hown := tenant_served_as_alone sampleEngine (.fin 128) sampleRequests "tenant_a"
    pendingTable [(true, ⟨sampleEnv 0 true, none⟩), (false, ⟨sampleEnv 2 true, none⟩)] ?_
  · exact hown.1 false (by decide)
  obtain ⟨data, hdata⟩ : ∃ data, parseCreate sampleEngine (some newInvoice) = some data :=
    Option.isSome_iff_exists.mp (by decide)
  have htenant : extractTenant (.fin 128) (sampleRequests false) = some "tenant_a" := by decide
  obtain ⟨next, hnext⟩ := asked_create htenant rfl hdata (by decide)
  refine ⟨?_, ?_, trivial⟩
  · intro q hq
    cases hq
    trivial
  · intro q hq
    obtain rfl : Query.insert "tenant_a" (invoiceData data) = q :=
      Option.some.inj ((Concurrent.asked_ask hnext).symm.trans hq)
    intro _ row hrow r hr
    obtain rfl := List.mem_singleton.mp hr
    refine ⟨?_, fun hof => absurd hof (by decide)⟩
    rw [id_insertedRow hrow]
    decide


end Liquifact.Invoices.V1
