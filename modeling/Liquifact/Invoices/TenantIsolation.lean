import Liquifact.Invoices.InvoiceService

/-!
# What one tenant can see of the others

Two runs of the same calls for tenant `A`, with the same environment, over two tables that
agree on the rows of `A`. A call is isolated when both runs return the same, return rows of
`A` only, leave the rows of `A` equal and leave the rows of the other tenants as they were.

Every query of the service carries the tenant but the refetch of `createInvoice`, which
relies on the unique index. `updateInvoice` writes whatever columns it is given, also the
ones that identify the row: a new `tenant_id` moves the row to another tenant, and a new
`invoice_id` is refused or not by an index over the invoices of all tenants.
-/

namespace Liquifact.Invoices
open Liquifact.Lib

section Isolation
variable {schema : Schema} (tenantId : String)

def part (t : InvoiceTable schema) : List Row := t.rows.filter (ofTenant tenantId)

def others (t : InvoiceTable schema) : List Row := t.rows.filter fun r => !ofTenant tenantId r

def serveBoth (s : InvoiceTable schema × InvoiceTable schema) (c : Call × Env) :
    InvoiceTable schema × InvoiceTable schema :=
  ((serve tenantId s.1 c).2, (serve tenantId s.2 c).2)

structure Isolates (s : InvoiceTable schema × InvoiceTable schema) (c : Call × Env) : Prop where
  sameAnswer : (serve tenantId s.1 c).1 = (serve tenantId s.2 c).1
  ownRows : ∀ r ∈ returnedRows (serve tenantId s.1 c).1, ofTenant tenantId r = true
  samePart : part tenantId (serve tenantId s.1 c).2 = part tenantId (serve tenantId s.2 c).2
  othersKept : others tenantId (serve tenantId s.1 c).2 = others tenantId s.1
  othersKept' : others tenantId (serve tenantId s.2 c).2 = others tenantId s.2

def InsertsSucceed (s : InvoiceTable schema × InvoiceTable schema) (c : Call × Env) : Prop :=
  ∀ data, c.1 = .createInvoice data → tenantId ≠ "" →
    (∃ x, insertInvoice s.1 tenantId data c.2 = .ok x) ∧
      ∃ x, insertInvoice s.2 tenantId data c.2 = .ok x

/- The first row with the number, where `createInvoice` would find it, is of the tenant. -/
def NumberOwn (t : InvoiceTable schema) (number : String) : Prop :=
  ∀ r, t.rows.find? (numbered number) = some r → ofTenant tenantId r = true

def StaysWith (set : List (Column × SqlValue)) : Prop :=
  ∀ v, assigned set .tenantId = some v → v = .text tenantId

/-- A refetch finds no row of another tenant; an update that reaches its `UPDATE` is allowed
by the indexes in both tables or in neither, and leaves its row with the tenant. -/
def Confined (s : InvoiceTable schema × InvoiceTable schema) (c : Call × Env) : Prop :=
  match c.1 with
  | .createInvoice data => tenantId ≠ "" → c.2.returnsRows = false →
    NumberOwn tenantId s.1 (invoiceIdOf data c.2) ∧ NumberOwn tenantId s.2 (invoiceIdOf data c.2)
  | .updateInvoice id updates =>
    ∀ r set, existingInvoice s.1 id tenantId "modified" = .ok (some r) →
      schema.written (patched updates) .updatedAt c.2.now = .ok set →
      (Allowed tenantId s.1 id set ↔ Allowed tenantId s.2 id set) ∧
        (Allowed tenantId s.1 id set → StaysWith tenantId set)
  | _ => True

end Isolation

section Queries
variable {schema : Schema} {tenantId : String} {t t' : InvoiceTable schema}

theorem ofTenant_of_owned {id : String} (r : Row) (h : owned tenantId id r = true) :
    ofTenant tenantId r = true := by
  unfold owned at h
  exact (Bool.and_eq_true _ _ ▸ h).2

theorem find_owned_eq (h : part tenantId t = part tenantId t') (id : String) :
    t.rows.find? (owned tenantId id) = t'.rows.find? (owned tenantId id) := by
  rw [find_of_part ofTenant_of_owned t.rows, find_of_part ofTenant_of_owned t'.rows]
  exact congrArg _ h

theorem existingInvoice_eq (h : part tenantId t = part tenantId t') (id participle : String) :
    existingInvoice t id tenantId participle = existingInvoice t' id tenantId participle := by
  unfold existingInvoice
  rw [find_owned_eq h]

theorem ofTenant_of_listed {opts : ListOptions} (r : Row) (h : listed tenantId opts r = true) :
    ofTenant tenantId r = true := by
  simp only [listed, Bool.and_eq_true] at h
  exact h.1.1

theorem ofTenant_of_active {id : String} (r : Row) (h : active tenantId id r = true) :
    ofTenant tenantId r = true := by
  simp only [active, Bool.and_eq_true] at h
  exact ofTenant_of_owned r h.1

theorem listInvoices_eq (h : part tenantId t = part tenantId t') (opts : ListOptions) :
    listInvoices t tenantId opts = listInvoices t' tenantId opts := by
  unfold listInvoices
  rw [filter_of_part ofTenant_of_listed t.rows, filter_of_part ofTenant_of_listed t'.rows]
  unfold part at h
  rw [h]

theorem listInvoices_own (opts : ListOptions) :
    ∀ r ∈ returnedRows (listInvoices t tenantId opts), ofTenant tenantId r = true := by
  unfold listInvoices
  split
  · intro r hr
    cases hr
  · intro r hr
    exact ofTenant_of_listed r (List.mem_filter.mp (mem_sortByCreatedAt.mp hr)).2

theorem getInvoiceById_eq (h : part tenantId t = part tenantId t') (id : String) :
    getInvoiceById t id tenantId = getInvoiceById t' id tenantId := by
  unfold getInvoiceById
  rw [find_of_part ofTenant_of_active t.rows, find_of_part ofTenant_of_active t'.rows]
  unfold part at h
  rw [h]

theorem own_of_find {p : Row → Bool} (hp : ∀ r, p r = true → ofTenant tenantId r = true)
    (rs : List Row) : ∀ r ∈ returnedRows (.ok (.row (rs.find? p))), ofTenant tenantId r = true := by
  intro r hr
  exact hp r (List.find?_some (mem_returnedRows_row.mp hr))

theorem getInvoiceById_own (id : String) :
    ∀ r ∈ returnedRows (getInvoiceById t id tenantId), ofTenant tenantId r = true := by
  unfold getInvoiceById
  split
  · intro r hr
    cases hr
  · exact own_of_find ofTenant_of_active t.rows

/- A call that only reads. -/
theorem isolates_of_reads {s : InvoiceTable schema × InvoiceTable schema} {c : Call × Env}
    {read : InvoiceTable schema → Answer} (hserve : ∀ t, serve tenantId t c = (read t, t))
    (hagree : part tenantId s.1 = part tenantId s.2) (heq : read s.1 = read s.2)
    (hown : ∀ r ∈ returnedRows (read s.1), ofTenant tenantId r = true) :
    Isolates tenantId s c := by
  refine ⟨?_, ?_, ?_, ?_, ?_⟩ <;> simp only [hserve]
  · exact heq
  · exact hown
  · exact hagree

end Queries

section Inserts
variable {schema : Schema} {tenantId : String} {s : InvoiceTable schema × InvoiceTable schema}

theorem part_append {t t' : InvoiceTable schema} {row : Row} (h : t'.rows = t.rows ++ [row])
    (hrow : ofTenant tenantId row = true) :
    part tenantId t' = part tenantId t ++ [row] ∧ others tenantId t' = others tenantId t := by
  unfold part others
  rw [h, List.filter_append, List.filter_append]
  simp [hrow]

theorem find_append_numbered {t t' : InvoiceTable schema} {row : Row} {number : String}
    (h : t'.rows = t.rows ++ [row]) (hrow : row .invoiceId = .text number) :
    t'.rows.find? (numbered number) = (t.rows.find? (numbered number)).or (some row) := by
  rw [h, List.find?_append]
  simp [numbered, hrow]

/- What `createInvoice` refetches is its own row, or an earlier one of the tenant. -/
theorem refetch_own_iff {t t' : InvoiceTable schema} {row : Row} {number : String}
    (h : t'.rows = t.rows ++ [row]) (hnumber : row .invoiceId = .text number)
    (htenant : ofTenant tenantId row = true) :
    (∀ r, t'.rows.find? (numbered number) = some r → ofTenant tenantId r = true) ↔
      NumberOwn tenantId t number := by
  rw [find_append_numbered h hnumber, NumberOwn]
  cases t.rows.find? (numbered number) with
  | none =>
    rw [Option.none_or]
    constructor
    · intro _ r hr
      cases hr
    · intro _ r hr
      cases hr
      exact htenant
  | some r => rfl

theorem isolates_of_inserted {c : Call × Env} {t₁ t₂ : InvoiceTable schema} {row : Row}
    {found₁ found₂ : Option Row} (hagree : part tenantId s.1 = part tenantId s.2)
    (hrow : ofTenant tenantId row = true)
    (h₁ : serve tenantId s.1 c = (.ok (.row found₁), t₁)) (hrows₁ : t₁.rows = s.1.rows ++ [row])
    (h₂ : serve tenantId s.2 c = (.ok (.row found₂), t₂)) (hrows₂ : t₂.rows = s.2.rows ++ [row])
    (hsame : found₁ = found₂) (hown : ∀ r, found₁ = some r → ofTenant tenantId r = true) :
    Isolates tenantId s c := by
  obtain ⟨hpart₁, hothers₁⟩ := part_append hrows₁ hrow
  obtain ⟨hpart₂, hothers₂⟩ := part_append hrows₂ hrow
  refine ⟨?_, ?_, ?_, ?_, ?_⟩ <;> simp only [h₁, h₂]
  · rw [hsame]
  · intro r hr
    exact hown r (mem_returnedRows_row.mp hr)
  · rw [hpart₁, hpart₂, hagree]
  · exact hothers₁
  · exact hothers₂

theorem isolates_create_iff {data : InvoiceData} {env : Env}
    (hagree : part tenantId s.1 = part tenantId s.2)
    (hinserts : InsertsSucceed tenantId s (.createInvoice data, env)) :
    Isolates tenantId s (.createInvoice data, env) ↔
      Confined tenantId s (.createInvoice data, env) := by
  by_cases hempty : tenantId = ""
  · have hserve : ∀ t : InvoiceTable schema, serve tenantId t (.createInvoice data, env) =
        (.error (.typeError "tenantId is required"), t) := by
      intro t
      simp [serve, createInvoice, hempty]
    refine ⟨fun _ h => absurd hempty h, fun _ => isolates_of_reads hserve hagree rfl ?_⟩
    intro r hr
    cases hr
  · obtain ⟨⟨⟨row, t₁⟩, h₁⟩, ⟨⟨row', t₂⟩, h₂⟩⟩ := hinserts data rfl hempty
    obtain ⟨hrow, hrows₁⟩ := insertInvoice_ok h₁
    obtain ⟨hrow', hrows₂⟩ := insertInvoice_ok h₂
    obtain rfl : row = row' := Except.ok.inj (hrow.symm.trans hrow')
    obtain ⟨htenant, hnumber⟩ := insertedRow_ok hrow
    have hown : ofTenant tenantId row = true := decide_eq_true htenant
    have hserve₁ := createInvoice_inserted hempty h₁
    have hserve₂ := createInvoice_inserted hempty h₂
    cases hreturns : env.returnsRows with
    | true =>
      simp only [hreturns, if_true] at hserve₁ hserve₂
      refine iff_of_true ?_ (fun _ hfalse => absurd (hreturns.symm.trans hfalse) (by decide))
      refine isolates_of_inserted hagree hown hserve₁ hrows₁ hserve₂ hrows₂ rfl ?_
      rintro r ⟨⟩
      exact hown
    | false =>
      simp only [hreturns, Bool.false_eq_true, if_false] at hserve₁ hserve₂
      constructor
      · intro h _ _
        have hanswer := h.sameAnswer
        have hrows := h.ownRows
        simp only [serve, hserve₁, hserve₂, Except.ok.injEq, Reply.row.injEq] at hanswer hrows
        refine ⟨(refetch_own_iff hrows₁ hnumber hown).mp ?_,
          (refetch_own_iff hrows₂ hnumber hown).mp ?_⟩
        · intro r hr
          exact hrows r (mem_returnedRows_row.mpr hr)
        · intro r hr
          exact hrows r (mem_returnedRows_row.mpr (hanswer.trans hr))
      · intro h
        obtain ⟨hn₁, hn₂⟩ := h hempty hreturns
        have hfirst₁ := (refetch_own_iff hrows₁ hnumber hown).mpr hn₁
        have hfirst₂ := (refetch_own_iff hrows₂ hnumber hown).mpr hn₂
        refine isolates_of_inserted hagree hown hserve₁ hrows₁ hserve₂ hrows₂ ?_ hfirst₁
        have hsame : part tenantId t₁ = part tenantId t₂ := by
          rw [(part_append hrows₁ hown).1, (part_append hrows₂ hown).1, hagree]
        rw [find_of_first t₁.rows hfirst₁, find_of_first t₂.rows hfirst₂]
        unfold part at hsame
        rw [hsame]

/- The unique index keeps the number of a new invoice from the other tenants. -/
theorem numberOwn_of_unique {t : InvoiceTable schema} {data : InvoiceData} {env : Env}
    {x : Row × InvoiceTable schema} (hunique : schema.uniqueInvoiceId = true)
    (hinsert : insertInvoice t tenantId data env = .ok x) :
    NumberOwn tenantId t (invoiceIdOf data env) := by
  obtain ⟨row, t'⟩ := x
  obtain ⟨hrow, hrows⟩ := insertInvoice_ok hinsert
  obtain ⟨-, hnumber⟩ := insertedRow_ok hrow
  intro r hr
  have hnodup := t'.holds.2 hunique
  rw [hrows, List.map_append, List.nodup_append] at hnodup
  have hmem : (r .invoiceId) ∈ t.rows.map fun r => r .invoiceId :=
    List.mem_map_of_mem (List.mem_of_find?_eq_some hr)
  have hfound : numbered (invoiceIdOf data env) r = true := List.find?_some hr
  refine absurd ?_ (hnodup.2.2 _ hmem (row .invoiceId) (by simp))
  rw [of_decide_eq_true hfound, hnumber]

end Inserts

section Updates
variable {schema : Schema} {tenantId : String} {s : InvoiceTable schema × InvoiceTable schema}
  {t t' : InvoiceTable schema} {id : String} {set : List (Column × SqlValue)}

theorem ofTenant_set {r : Row} (hr : ofTenant tenantId r = true) (h : StaysWith tenantId set) :
    ofTenant tenantId (r.set set) = true := by
  unfold ofTenant at hr ⊢
  rw [Row.set]
  cases hassigned : assigned set .tenantId with
  | none => exact hr
  | some v =>
    rw [h v hassigned]
    exact decide_eq_true rfl

theorem part_write (h : t'.rows = updateWhere (owned tenantId id) (fun r => r.set set) t.rows)
    (hstays : StaysWith tenantId set) :
    part tenantId t' = updateWhere (owned tenantId id) (fun r => r.set set) (part tenantId t) ∧
      others tenantId t' = others tenantId t := by
  have hkeep : ∀ r : Row, owned tenantId id r = true → ofTenant tenantId (r.set set) = true :=
    fun r hr => ofTenant_set (ofTenant_of_owned r hr) hstays
  unfold part others
  rw [h]
  refine ⟨filter_updateWhere_inside ofTenant_of_owned hkeep t.rows, ?_⟩
  refine filter_updateWhere_outside ?_ ?_ t.rows
  · intro r hr
    rw [ofTenant_of_owned r hr]
    rfl
  · intro r hr
    rw [hkeep r hr]
    rfl

/- A row that is given to another tenant is a new row there. -/
theorem others_write_ne {r : Row} (hfind : t.rows.find? (owned tenantId id) = some r)
    (h : t'.rows = updateWhere (owned tenantId id) (fun r => r.set set) t.rows)
    (hmoves : ¬ StaysWith tenantId set) : others tenantId t' ≠ others tenantId t := by
  intro heq
  unfold StaysWith at hmoves
  push Not at hmoves
  obtain ⟨v, hv, hne⟩ := hmoves
  have hlength := length_filter_updateWhere_gain (p := owned tenantId id)
    (q := fun r => !ofTenant tenantId r) (f := fun r => r.set set)
    (fun r hr => by simp [ofTenant_of_owned r hr])
    (fun r _ => by simp [ofTenant, Row.set, hv, hne]) t.rows
  unfold others at heq
  rw [h] at heq
  rw [heq] at hlength
  have hmem : r ∈ t.rows.filter (owned tenantId id) :=
    List.mem_filter.mpr ⟨List.mem_of_find?_eq_some hfind, List.find?_some hfind⟩
  have hpos : 0 < (t.rows.filter (owned tenantId id)).length := List.length_pos_of_mem hmem
  omega

theorem writtenRow_own (env : Env) (hstays : StaysWith tenantId set) :
    ∀ r ∈ returnedRows (.ok (.row (writtenRow t t' id tenantId set env))),
      ofTenant tenantId r = true := by
  unfold writtenRow
  split
  · intro r hr
    obtain ⟨found, hfind, rfl⟩ := Option.map_eq_some_iff.mp (mem_returnedRows_row.mp hr)
    exact ofTenant_set (ofTenant_of_owned found (List.find?_some hfind)) hstays
  · exact own_of_find ofTenant_of_owned t'.rows

theorem isolates_of_same {c : Call × Env} (answer : Answer)
    (h₁ : serve tenantId s.1 c = (answer, s.1)) (h₂ : serve tenantId s.2 c = (answer, s.2))
    (hempty : returnedRows answer = []) (hagree : part tenantId s.1 = part tenantId s.2) :
    Isolates tenantId s c := by
  refine ⟨?_, ?_, ?_, ?_, ?_⟩ <;> simp only [h₁, h₂]
  · rw [hempty]
    intro r hr
    cases hr
  · exact hagree

theorem isolates_of_written {c : Call × Env} {t₁ t₂ : InvoiceTable schema}
    (hagree : part tenantId s.1 = part tenantId s.2) (hstays : StaysWith tenantId set)
    (h₁ : serve tenantId s.1 c = (.ok (.row (writtenRow s.1 t₁ id tenantId set c.2)), t₁))
    (hrows₁ : t₁.rows = updateWhere (owned tenantId id) (fun r => r.set set) s.1.rows)
    (h₂ : serve tenantId s.2 c = (.ok (.row (writtenRow s.2 t₂ id tenantId set c.2)), t₂))
    (hrows₂ : t₂.rows = updateWhere (owned tenantId id) (fun r => r.set set) s.2.rows) :
    Isolates tenantId s c := by
  obtain ⟨hpart₁, hothers₁⟩ := part_write hrows₁ hstays
  obtain ⟨hpart₂, hothers₂⟩ := part_write hrows₂ hstays
  have hsame : part tenantId t₁ = part tenantId t₂ := by rw [hpart₁, hpart₂, hagree]
  refine ⟨?_, ?_, ?_, ?_, ?_⟩ <;> simp only [h₁, h₂]
  · unfold writtenRow
    rw [find_owned_eq hagree, find_owned_eq hsame]
  · exact writtenRow_own c.2 hstays
  · exact hsame
  · exact hothers₁
  · exact hothers₂

section Modify
variable {c : Call × Env} {participle : String} {entries : List (String × JsValue)} {stamp : Column}

theorem isolates_of_not_reached
    (hserve : ∀ t : InvoiceTable schema,
      serve tenantId t c = modifyInvoice t id tenantId participle entries stamp c.2)
    (hagree : part tenantId s.1 = part tenantId s.2)
    (h : ∀ r set, existingInvoice s.1 id tenantId participle = .ok (some r) →
      schema.written entries stamp c.2.now ≠ .ok set) : Isolates tenantId s c := by
  have hsame := existingInvoice_eq hagree id participle
  cases hexisting : existingInvoice s.1 id tenantId participle with
  | error e =>
    refine isolates_of_same (.error e) ?_ ?_ rfl hagree
    · simp only [hserve, modifyInvoice, hexisting]
    · simp only [hserve, modifyInvoice, ← hsame, hexisting]
  | ok found =>
    cases found with
    | none =>
      refine isolates_of_same (.ok (.row none)) ?_ ?_ rfl hagree
      · simp only [hserve, modifyInvoice, hexisting]
      · simp only [hserve, modifyInvoice, ← hsame, hexisting]
    | some r =>
      cases hwritten : schema.written entries stamp c.2.now with
      | error e =>
        refine isolates_of_same (.error (.db e)) ?_ ?_ rfl hagree
        · simp only [hserve, modifyInvoice, hexisting, hwritten]
        · simp only [hserve, modifyInvoice, ← hsame, hexisting, hwritten]
      | ok set => exact absurd hwritten (h r set hexisting)

/- The `UPDATE` is sent in both runs. Each of the four ways in which the indexes may answer
is decided by what the call returns, but for two that are allowed. -/
theorem isolates_reached_iff {r : Row}
    (hserve : ∀ t : InvoiceTable schema,
      serve tenantId t c = modifyInvoice t id tenantId participle entries stamp c.2)
    (hagree : part tenantId s.1 = part tenantId s.2)
    (hexisting : existingInvoice s.1 id tenantId participle = .ok (some r))
    (hwritten : schema.written entries stamp c.2.now = .ok set) :
    Isolates tenantId s c ↔ (Allowed tenantId s.1 id set ↔ Allowed tenantId s.2 id set) ∧
      (Allowed tenantId s.1 id set → StaysWith tenantId set) := by
  have hexisting' := (existingInvoice_eq hagree id participle).symm.trans hexisting
  by_cases ha : Allowed tenantId s.1 id set <;> by_cases hb : Allowed tenantId s.2 id set
  · obtain ⟨t₁, h₁, hrows₁⟩ := modifyInvoice_allowed hexisting hwritten ha
    obtain ⟨t₂, h₂, hrows₂⟩ := modifyInvoice_allowed hexisting' hwritten hb
    rw [← hserve] at h₁ h₂
    constructor
    · intro h
      refine ⟨iff_of_true ha hb, fun _ => ?_⟩
      by_contra hmoves
      have hkept := h.othersKept
      simp only [h₁] at hkept
      exact others_write_ne (existing_found hexisting).1 hrows₁ hmoves hkept
    · intro h
      exact isolates_of_written hagree (h.2 ha) h₁ hrows₁ h₂ hrows₂
  · obtain ⟨t₁, h₁, -⟩ := modifyInvoice_allowed hexisting hwritten ha
    have h₂ := modifyInvoice_not_allowed hexisting' hwritten hb
    rw [← hserve] at h₁ h₂
    refine iff_of_false (fun h => ?_) (fun h => hb (h.1.mp ha))
    have hanswer := h.sameAnswer
    simp only [h₁, h₂] at hanswer
    cases hanswer
  · have h₁ := modifyInvoice_not_allowed hexisting hwritten ha
    obtain ⟨t₂, h₂, -⟩ := modifyInvoice_allowed hexisting' hwritten hb
    rw [← hserve] at h₁ h₂
    refine iff_of_false (fun h => ?_) (fun h => ha (h.1.mpr hb))
    have hanswer := h.sameAnswer
    simp only [h₁, h₂] at hanswer
    cases hanswer
  · have h₁ := modifyInvoice_not_allowed hexisting hwritten ha
    have h₂ := modifyInvoice_not_allowed hexisting' hwritten hb
    rw [← hserve] at h₁ h₂
    exact iff_of_true (isolates_of_same _ h₁ h₂ rfl hagree)
      ⟨iff_of_false ha hb, fun h => absurd h ha⟩

/- `updateInvoice` and `deleteInvoice`, by the columns they set. -/
theorem isolates_modify_iff
    (hserve : ∀ t : InvoiceTable schema,
      serve tenantId t c = modifyInvoice t id tenantId participle entries stamp c.2)
    (hagree : part tenantId s.1 = part tenantId s.2) :
    Isolates tenantId s c ↔ ∀ r set, existingInvoice s.1 id tenantId participle = .ok (some r) →
      schema.written entries stamp c.2.now = .ok set →
      (Allowed tenantId s.1 id set ↔ Allowed tenantId s.2 id set) ∧
        (Allowed tenantId s.1 id set → StaysWith tenantId set) := by
  constructor
  · intro h r set hexisting hwritten
    exact (isolates_reached_iff hserve hagree hexisting hwritten).mp h
  · intro h
    by_cases hreached : ∃ r set, existingInvoice s.1 id tenantId participle = .ok (some r) ∧
        schema.written entries stamp c.2.now = .ok set
    · obtain ⟨r, set, hexisting, hwritten⟩ := hreached
      exact (isolates_reached_iff hserve hagree hexisting hwritten).mpr
        (h r set hexisting hwritten)
    · exact isolates_of_not_reached hserve hagree
        fun r set hexisting hwritten => hreached ⟨r, set, hexisting, hwritten⟩

end Modify

theorem isolates_delete {env : Env} (hagree : part tenantId s.1 = part tenantId s.2) :
    Isolates tenantId s (.deleteInvoice id, env) := by
  have hserve : ∀ t : InvoiceTable schema, serve tenantId t (.deleteInvoice id, env) =
      modifyInvoice t id tenantId "deleted" [] .deletedAt env := fun _ => rfl
  refine (isolates_modify_iff hserve hagree).mpr fun r set _ hwritten => ?_
  cases hwritten
  refine ⟨iff_of_true (allowed_of_unset _ rfl rfl) (allowed_of_unset _ rfl rfl), fun _ => ?_⟩
  rintro v ⟨⟩

end Updates

section Calls
variable {schema : Schema} {tenantId : String} {s : InvoiceTable schema × InvoiceTable schema}

theorem isolates_iff_confined (hagree : part tenantId s.1 = part tenantId s.2) (c : Call × Env)
    (hinserts : InsertsSucceed tenantId s c) : Isolates tenantId s c ↔ Confined tenantId s c := by
  obtain ⟨call, env⟩ := c
  cases call with
  | listInvoices opts =>
    exact iff_of_true (isolates_of_reads (fun _ => rfl) hagree (listInvoices_eq hagree opts)
      (listInvoices_own opts)) trivial
  | getInvoices status =>
    have hserve : ∀ t : InvoiceTable schema, serve tenantId t (.getInvoices status, env) =
        (listInvoices t tenantId ⟨false, status⟩, t) := by
      intro t
      simp only [serve, getInvoices]
      split
      · rename_i hempty
        simp [listInvoices, hempty]
      · rfl
    exact iff_of_true (isolates_of_reads hserve hagree (listInvoices_eq hagree _)
      (listInvoices_own _)) trivial
  | getInvoiceById id =>
    exact iff_of_true (isolates_of_reads (fun _ => rfl) hagree (getInvoiceById_eq hagree id)
      (getInvoiceById_own id)) trivial
  | createInvoice data => exact isolates_create_iff hagree hinserts
  | updateInvoice id updates => exact isolates_modify_iff (fun _ => rfl) hagree
  | deleteInvoice id => exact iff_of_true (isolates_delete hagree) trivial

end Calls

/-- Over every sequence of calls for a tenant, from every two tables that agree on its rows,
when the insertions succeed: every call is isolated from the other tenants exactly when no
refetch of `createInvoice` finds a row of another tenant first, and no update gives its row
to another tenant or is refused in one table only. -/
theorem tenant_isolation_iff {schema : Schema} (tenantId : String) (t t' : InvoiceTable schema)
    (cs : List (Call × Env)) (hagree : part tenantId t = part tenantId t')
    (hinserts : Along (serveBoth tenantId) (InsertsSucceed tenantId) (t, t') cs) :
    Along (serveBoth tenantId) (Isolates tenantId) (t, t') cs ↔
      Along (serveBoth tenantId) (Confined tenantId) (t, t') cs := by
  refine along_iff_along (serveBoth tenantId) (fun s => part tenantId s.1 = part tenantId s.2)
    (InsertsSucceed tenantId) _ _ ?_ ?_ (t, t') cs hagree hinserts
  · intro s c hs hc
    exact isolates_iff_confined hs c hc
  · intro s c _ _ hisolates
    exact hisolates.samePart

/- With another tenant and without it. -/
def mixedTable : InvoiceTable sampleSchema :=
  sampleTable [sampleRow 1 "inv_9" "tenant_b" "pending", sampleRow 2 "inv_1" "tenant_a" "pending"]
    (by decide)

def singleTable : InvoiceTable sampleSchema :=
  sampleTable [sampleRow 2 "inv_1" "tenant_a" "pending"] (by decide)

theorem tenant_isolation_sample :
    Along (serveBoth "tenant_a") (Isolates "tenant_a") (mixedTable, singleTable)
      [(.createInvoice sampleData, sampleEnv 3 false), (.getInvoices none, sampleEnv 4 true)] := by
  have hinserts : Along (serveBoth "tenant_a") (InsertsSucceed "tenant_a") (mixedTable, singleTable)
      [(.createInvoice sampleData, sampleEnv 3 false), (.getInvoices none, sampleEnv 4 true)] := by
    refine ⟨?_, ?_, trivial⟩
    · rintro data ⟨⟩ -
      exact ⟨⟨_, rfl⟩, ⟨_, rfl⟩⟩
    · rintro data ⟨⟩
  refine (tenant_isolation_iff "tenant_a" mixedTable singleTable _ rfl hinserts).mpr
    ⟨fun htenant _ => ?_, trivial, trivial⟩
  obtain ⟨⟨x, hx⟩, ⟨x', hx'⟩⟩ := hinserts.1 sampleData rfl htenant
  exact ⟨numberOwn_of_unique rfl hx, numberOwn_of_unique rfl hx'⟩

theorem moved_row_not_isolated :
    part "tenant_a" mixedTable = part "tenant_a" singleTable ∧
    Along (serveBoth "tenant_a") (InsertsSucceed "tenant_a") (mixedTable, singleTable)
      [(.updateInvoice "inv_1" [("tenant_id", .string "tenant_b")], sampleEnv 3 true)] ∧
    ¬ Along (serveBoth "tenant_a") (Isolates "tenant_a") (mixedTable, singleTable)
      [(.updateInvoice "inv_1" [("tenant_id", .string "tenant_b")], sampleEnv 3 true)] := by
  refine ⟨rfl, ⟨?_, trivial⟩, ?_⟩
  · rintro data ⟨⟩
  · intro h
    have hkept := congrArg List.length h.1.othersKept
    exact absurd hkept (by decide)

end Liquifact.Invoices
