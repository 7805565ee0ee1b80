import Liquifact.Lib.Fallible
import Liquifact.Lib.JsonText
import Liquifact.Lib.Run
import Liquifact.Lib.Table

/-!
# The invoice service (`src/services/invoiceService.js`, 113-339)

The table is that of `migrations/001_create_invoices_table.js`; a row gives each column its
value. `Schema` is what the code leaves to the database: which value a column stores for a
value of the program, or that it refuses it (a missing column, a wrong type, NULL where the
column has none), how two values of `created_at` are sorted, and whether the unique index of
`invoice_id` is there. A table of the schema has distinct primary keys and, with the index,
distinct invoice numbers; a statement that would break this is refused.

What a call does not determine itself (the clock, the random suffix, the primary key the
database draws, whether `.returning('*')` gives rows or only keys) comes with it as its `Env`.
-/

namespace Liquifact.Invoices
open Liquifact.Lib

inductive Column where
  | id
  | invoiceId
  | amount
  | customer
  | status
  | createdAt
  | updatedAt
  | deletedAt
  | tenantId
  | smeId
  | currency
  | dueDate
  | description
  | metadata
  deriving DecidableEq

def columnOf : String → Option Column
  | "id" => some .id
  | "invoice_id" => some .invoiceId
  | "amount" => some .amount
  | "customer" => some .customer
  | "status" => some .status
  | "created_at" => some .createdAt
  | "updated_at" => some .updatedAt
  | "deleted_at" => some .deletedAt
  | "tenant_id" => some .tenantId
  | "sme_id" => some .smeId
  | "currency" => some .currency
  | "due_date" => some .dueDate
  | "description" => some .description
  | "metadata" => some .metadata
  | _ => none

inductive SqlValue where
  | null
  | number (x : ℚ)
  | text (s : String)
  | timestamp (t : ℕ)
  deriving DecidableEq

abbrev Row := Column → SqlValue

inductive DbError where
  | noColumn (name : String)
  | refused (name : String)
  | missingValue
  | duplicate
  deriving DecidableEq

structure Schema where
  store : Column → JsValue → Option SqlValue
  notAfter : SqlValue → SqlValue → Bool
  uniqueInvoiceId : Bool
  store_invoiceId : ∀ s v, store .invoiceId (.string s) = some v → v = .text s
  store_tenantId : ∀ s v, store .tenantId (.string s) = some v → v = .text s

def Schema.Holds (schema : Schema) (rows : List Row) : Prop :=
  (rows.map fun r => r .id).Nodup ∧
    (schema.uniqueInvoiceId = true → (rows.map fun r => r .invoiceId).Nodup)

instance Schema.decidableHolds (schema : Schema) (rows : List Row) : Decidable (schema.Holds rows) :=
  inferInstanceAs (Decidable (_ ∧ _))

structure InvoiceTable (schema : Schema) where
  rows : List Row
  holds : schema.Holds rows

/- `INSERT` and `UPDATE` write what the indexes allow. -/
def Schema.commit (schema : Schema) (rows : List Row) : Except DbError (InvoiceTable schema) :=
  if h : schema.Holds rows then .ok ⟨rows, h⟩ else .error .duplicate

def Schema.assign (schema : Schema) (entry : String × JsValue) : Except DbError (Column × SqlValue) :=
  match columnOf entry.1 with
  | none => .error (.noColumn entry.1)
  | some c =>
    match schema.store c entry.2 with
    | none => .error (.refused entry.1)
    | some v => .ok (c, v)

def isUndefined : JsValue → Bool
  | .undefined => true
  | _ => false

/- The query builder leaves out entries that are undefined. -/
def Schema.assignments (schema : Schema) (entries : List (String × JsValue)) :
    Except DbError (List (Column × SqlValue)) :=
  (entries.filter fun entry => !isUndefined entry.2).mapM schema.assign

def assigned (set : List (Column × SqlValue)) (c : Column) : Option SqlValue :=
  (set.find? fun a => a.1 = c).map (·.2)

def Row.set (r : Row) (set : List (Column × SqlValue)) : Row :=
  fun c => (assigned set c).getD (r c)

/-! ### Errors and locked statuses -/

structure AppError where
  type : String
  title : String
  status : ℕ
  detail : String
  code : String
  deriving DecidableEq

inductive InvoiceError where
  | typeError (message : String)
  | app (e : AppError)
  | db (e : DbError)
  deriving DecidableEq

def lockedStatuses : List String := ["verified", "funded", "settled", "cancelled"]

/- `LOCKED_STATUSES.has(status)`. -/
def lockedStatus : SqlValue → Option String
  | .text s => if s ∈ lockedStatuses then some s else none
  | _ => none

def lockedError (status participle : String) : InvoiceError :=
  .app ⟨"https://liquifact.com/probs/validation-error", "Validation Error", 422,
    "Invoice in status '" ++ status ++ "' cannot be " ++ participle ++ ".", "LOCKED_STATUS"⟩

/-! ### Calls -/

structure Env where
  now : ℕ
  dateNow : ℕ
  draw : ℕ
  id : ℕ
  returnsRows : Bool

structure ListOptions where
  includeDeleted : Bool
  status : Option String

structure InvoiceData where
  amount : JsValue
  customer : JsValue
  status : JsValue
  currency : JsValue
  dueDate : JsValue
  description : JsValue
  invoiceNumber : Option String
  metadata : Option Json

inductive Call where
  | listInvoices (opts : ListOptions)
  | getInvoices (status : Option String)
  | getInvoiceById (id : String)
  | createInvoice (data : InvoiceData)
  | updateInvoice (id : String) (updates : List (String × JsValue))
  | deleteInvoice (id : String)

inductive Reply where
  | rows (rs : List Row)
  | row (r : Option Row)

abbrev Answer := Except InvoiceError Reply

def ofTenant (tenantId : String) (r : Row) : Bool := decide (r .tenantId = .text tenantId)

/- `where({ invoice_id: id, tenant_id: tenantId })`. -/
def owned (tenantId id : String) (r : Row) : Bool :=
  decide (r .invoiceId = .text id) && ofTenant tenantId r

def returnedRows : Answer → List Row
  | .ok (.rows rs) => rs
  | .ok (.row (some r)) => [r]
  | _ => []

section Service
variable {schema : Schema}

def sortByCreatedAt (schema : Schema) (rs : List Row) : List Row :=
  rs.mergeSort fun r r' => schema.notAfter (r' .createdAt) (r .createdAt)

/- The condition of the listing. -/
def listed (tenantId : String) (opts : ListOptions) (r : Row) : Bool :=
  ofTenant tenantId r && (opts.includeDeleted || decide (r .deletedAt = .null)) &&
    match truthy opts.status with
    | some status => decide (r .status = .text status)
    | none => true

def listInvoices (t : InvoiceTable schema) (tenantId : String) (opts : ListOptions) : Answer :=
  if tenantId = "" then .error (.typeError "tenantId is required")
  else .ok (.rows (sortByCreatedAt schema (t.rows.filter (listed tenantId opts))))

/- The positional form; the query-parameter form takes no tenant. -/
def getInvoices (t : InvoiceTable schema) (tenantId : String) (status : Option String) : Answer :=
  if tenantId = "" then .error (.typeError "tenantId is required")
  else listInvoices t tenantId ⟨false, status⟩

def active (tenantId id : String) (r : Row) : Bool :=
  owned tenantId id r && decide (r .deletedAt = .null)

def getInvoiceById (t : InvoiceTable schema) (id tenantId : String) : Answer :=
  if id = "" then .error (.typeError "Invalid invoice ID")
  else .ok (.row (t.rows.find? (active tenantId id)))

def invoiceIdOf (data : InvoiceData) (env : Env) : String :=
  (truthy data.invoiceNumber).getD
    ("inv_" ++ Nat.repr env.dateNow ++ "_" ++ Nat.repr env.draw)

/- `status = 'pending'` in the destructuring, and the members that are spread when defined. -/
def insertedEntries (data : InvoiceData) (tenantId : String) (env : Env) : List (String × JsValue) :=
  [("invoice_id", .string (invoiceIdOf data env)), ("amount", data.amount),
    ("customer", data.customer),
    ("status", if isUndefined data.status then .string "pending" else data.status),
    ("tenant_id", .string tenantId), ("currency", data.currency), ("due_date", data.dueDate),
    ("description", data.description),
    ("metadata", match data.metadata with
      | none => .undefined
      | some m => if m.truthy then .string m.stringify else .null)]

/- Columns that are not inserted have their defaults. -/
def defaultRow (env : Env) : Row
  | .id => .number env.id
  | .status => .text "pending"
  | .createdAt => .timestamp env.now
  | .updatedAt => .timestamp env.now
  | _ => .null

def requiredColumns : List Column := [.invoiceId, .amount, .customer, .status, .tenantId]

def insertedRow (schema : Schema) (tenantId : String) (data : InvoiceData) (env : Env) :
    Except DbError Row := do
  let set ← schema.assignments (insertedEntries data tenantId env)
  let row := (defaultRow env).set set
  if ∃ c ∈ requiredColumns, row c = .null then .error .missingValue else .ok row

def insertInvoice (t : InvoiceTable schema) (tenantId : String) (data : InvoiceData) (env : Env) :
    Except DbError (Row × InvoiceTable schema) := do
  let row ← insertedRow schema tenantId data env
  let t' ← schema.commit (t.rows ++ [row])
  .ok (row, t')

def numbered (number : String) (r : Row) : Bool := decide (r .invoiceId = .text number)

def createInvoice (t : InvoiceTable schema) (tenantId : String) (data : InvoiceData) (env : Env) :
    Answer × InvoiceTable schema :=
  if tenantId = "" then (.error (.typeError "tenantId is required"), t)
  else
    match insertInvoice t tenantId data env with
    | .error e => (.error (.db e), t)
    | .ok (row, t') =>
      if env.returnsRows then (.ok (.row (some row)), t')
      else (.ok (.row (t'.rows.find? (numbered (invoiceIdOf data env)))), t')

/- The columns an `UPDATE` sets: the entries, and one timestamp by `nowValue()`. -/
def Schema.written (schema : Schema) (entries : List (String × JsValue)) (stamp : Column) (now : ℕ) :
    Except DbError (List (Column × SqlValue)) := do
  let set ← schema.assignments entries
  .ok (set ++ [(stamp, .timestamp now)])

def writeInvoice (t : InvoiceTable schema) (id tenantId : String) (set : List (Column × SqlValue)) :
    Except DbError (InvoiceTable schema) :=
  schema.commit (updateWhere (owned tenantId id) (fun r => r.set set) t.rows)

/- The indexes allow the update. -/
def Allowed (tenantId : String) (t : InvoiceTable schema) (id : String) (set : List (Column × SqlValue)) : Prop :=
  schema.Holds (updateWhere (owned tenantId id) (fun r => r.set set) t.rows)

/- The first row of `.returning('*')`, or the refetch. -/
def writtenRow (t t' : InvoiceTable schema) (id tenantId : String) (set : List (Column × SqlValue))
    (env : Env) : Option Row :=
  if env.returnsRows then (t.rows.find? (owned tenantId id)).map fun r => r.set set
  else t'.rows.find? (owned tenantId id)

/- The lookup and the lock check that `updateInvoice` and `deleteInvoice` begin with. -/
def existingInvoice (t : InvoiceTable schema) (id tenantId participle : String) :
    Except InvoiceError (Option Row) :=
  if id = "" then .error (.typeError "invoice id required")
  else
    match t.rows.find? (owned tenantId id) with
    | none => .ok none
    | some existing =>
      match lockedStatus (existing .status) with
      | some status => .error (lockedError status participle)
      | none => .ok (some existing)

def modifyInvoice (t : InvoiceTable schema) (id tenantId participle : String)
    (entries : List (String × JsValue)) (stamp : Column) (env : Env) :
    Answer × InvoiceTable schema :=
  match existingInvoice t id tenantId participle with
  | .error e => (.error e, t)
  | .ok none => (.ok (.row none), t)
  | .ok (some _) =>
    match schema.written entries stamp env.now with
    | .error e => (.error (.db e), t)
    | .ok set =>
      match writeInvoice t id tenantId set with
      | .error e => (.error (.db e), t)
      | .ok t' => (.ok (.row (writtenRow t t' id tenantId set env)), t')

/- `{ ...updates, updated_at: nowValue() }`: the last member replaces one of its name. -/
def patched (updates : List (String × JsValue)) : List (String × JsValue) :=
  updates.filter fun entry => entry.1 ≠ "updated_at"

def updateInvoice (t : InvoiceTable schema) (id : String) (updates : List (String × JsValue))
    (tenantId : String) (env : Env) : Answer × InvoiceTable schema :=
  modifyInvoice t id tenantId "modified" (patched updates) .updatedAt env

def deleteInvoice (t : InvoiceTable schema) (id tenantId : String) (env : Env) :
    Answer × InvoiceTable schema :=
  modifyInvoice t id tenantId "deleted" [] .deletedAt env

/-- A call for a tenant: what it returns or throws, and the table it leaves. -/
def serve (tenantId : String) (t : InvoiceTable schema) (c : Call × Env) :
    Answer × InvoiceTable schema :=
  match c.1 with
  | .listInvoices opts => (listInvoices t tenantId opts, t)
  | .getInvoices status => (getInvoices t tenantId status, t)
  | .getInvoiceById id => (getInvoiceById t id tenantId, t)
  | .createInvoice data => createInvoice t tenantId data c.2
  | .updateInvoice id updates => updateInvoice t id updates tenantId c.2
  | .deleteInvoice id => deleteInvoice t id tenantId c.2

end Service

theorem mem_returnedRows_row {found : Option Row} {r : Row} :
    r ∈ returnedRows (.ok (.row found)) ↔ found = some r := by
  cases found with
  | none => simp [returnedRows]
  | some r' => simp [returnedRows, eq_comm]

/-! ### What the statements write -/

section Writes
variable {schema : Schema}

theorem assigned_cons (a : Column × SqlValue) (set : List (Column × SqlValue)) (c : Column) :
    assigned (a :: set) c = if a.1 = c then some a.2 else assigned set c := by
  unfold assigned
  rw [List.find?_cons]
  by_cases h : a.1 = c
  · simp [h]
  · simp [h]

theorem assigned_append_singleton (set : List (Column × SqlValue)) (stamp c : Column)
    (v : SqlValue) : assigned (set ++ [(stamp, v)]) c =
      (assigned set c).or (if stamp = c then some v else none) := by
  induction set with
  | nil =>
    rw [List.nil_append, assigned_cons]
    rfl
  | cons a set ih =>
    rw [List.cons_append, assigned_cons, assigned_cons, ih]
    split
    · rfl
    · rfl

theorem assign_ok {entry : String × JsValue} {a : Column × SqlValue}
    (h : schema.assign entry = .ok a) :
    columnOf entry.1 = some a.1 ∧ schema.store a.1 entry.2 = some a.2 := by
  unfold Schema.assign at h
  split at h
  · cases h
  · rename_i c hc
    split at h
    · cases h
    · rename_i v hv
      cases h
      exact ⟨hc, hv⟩

/- A column has the value of the first entry that names it. -/
theorem assigned_of_mapM {entries : List (String × JsValue)} {set : List (Column × SqlValue)}
    (h : entries.mapM schema.assign = .ok set) (c : Column) :
    assigned set c = (entries.find? fun entry => columnOf entry.1 = some c).bind
      fun entry => schema.store c entry.2 := by
  induction entries generalizing set with
  | nil =>
    cases h
    rfl
  | cons entry entries ih =>
    rw [List.mapM_cons] at h
    obtain ⟨a, ha, h⟩ := bind_ok h
    obtain ⟨rest, hrest, h⟩ := bind_ok h
    cases h
    obtain ⟨hcolumn, hstore⟩ := assign_ok ha
    rw [assigned_cons, List.find?_cons, hcolumn]
    by_cases hc : a.1 = c
    · subst hc
      simp [hstore]
    · simp [hc, ih hrest]

theorem commit_ok {rows : List Row} {t : InvoiceTable schema} (h : schema.commit rows = .ok t) :
    t.rows = rows := by
  unfold Schema.commit at h
  split at h
  · cases h
    rfl
  · cases h

theorem assigned_inserted {tenantId : String} {data : InvoiceData} {env : Env}
    {set : List (Column × SqlValue)}
    (h : schema.assignments (insertedEntries data tenantId env) = .ok set) :
    assigned set .tenantId = schema.store .tenantId (.string tenantId) ∧
      assigned set .invoiceId = schema.store .invoiceId (.string (invoiceIdOf data env)) := by
  unfold Schema.assignments at h
  rw [assigned_of_mapM h, assigned_of_mapM h, List.find?_filter, List.find?_filter]
  constructor
  · simp [insertedEntries, columnOf, isUndefined]
  · simp [insertedEntries, columnOf, isUndefined]

/- A stored row has the tenant and the number it was inserted with. -/
theorem insertedRow_ok {tenantId : String} {data : InvoiceData} {env : Env} {row : Row}
    (h : insertedRow schema tenantId data env = .ok row) :
    row .tenantId = .text tenantId ∧ row .invoiceId = .text (invoiceIdOf data env) := by
  obtain ⟨set, hset, h⟩ := bind_ok h
  dsimp only at h
  split_ifs at h with hmissing
  cases h
  obtain ⟨htenant, hnumber⟩ := assigned_inserted hset
  have hpresent : ∀ c ∈ requiredColumns, defaultRow env c = .null → ∃ v, assigned set c = some v := by
    intro c hc hnull
    cases hassigned : assigned set c with
    | some v => exact ⟨v, rfl⟩
    | none =>
      refine absurd ⟨c, hc, ?_⟩ hmissing
      simp [Row.set, hassigned, hnull]
  constructor
  · obtain ⟨v, hv⟩ := hpresent .tenantId (by decide) rfl
    rw [Row.set, hv, Option.getD_some]
    exact schema.store_tenantId _ _ (htenant.symm.trans hv)
  · obtain ⟨v, hv⟩ := hpresent .invoiceId (by decide) rfl
    rw [Row.set, hv, Option.getD_some]
    exact schema.store_invoiceId _ _ (hnumber.symm.trans hv)

theorem insertInvoice_ok {t t' : InvoiceTable schema} {tenantId : String} {data : InvoiceData}
    {env : Env} {row : Row} (h : insertInvoice t tenantId data env = .ok (row, t')) :
    insertedRow schema tenantId data env = .ok row ∧ t'.rows = t.rows ++ [row] := by
  obtain ⟨row', hrow, h⟩ := bind_ok h
  obtain ⟨t'', hcommit, h⟩ := bind_ok h
  cases h
  exact ⟨hrow, commit_ok hcommit⟩

theorem createInvoice_inserted {t t' : InvoiceTable schema} {tenantId : String}
    {data : InvoiceData} {env : Env} {row : Row} (htenant : tenantId ≠ "")
    (h : insertInvoice t tenantId data env = .ok (row, t')) :
    createInvoice t tenantId data env = (.ok (.row (if env.returnsRows then some row
      else t'.rows.find? (numbered (invoiceIdOf data env)))), t') := by
  simp only [createInvoice, if_neg htenant, h]
  split
  · rfl
  · rfl

theorem existing_found {t : InvoiceTable schema} {id tenantId participle : String} {r : Row}
    (h : existingInvoice t id tenantId participle = .ok (some r)) :
    t.rows.find? (owned tenantId id) = some r ∧ lockedStatus (r .status) = none := by
  unfold existingInvoice at h
  split at h
  · cases h
  · split at h
    · cases h
    · rename_i existing hfind
      split at h
      · cases h
      · rename_i hlocked
        cases h
        exact ⟨hfind, hlocked⟩

/- A column that is not set. -/
theorem updateWhere_map_column {set : List (Column × SqlValue)} {c : Column} {p : Row → Bool}
    (h : assigned set c = none) (rs : List Row) :
    ((updateWhere p (fun r => r.set set) rs).map fun r => r c) = rs.map fun r => r c := by
  unfold updateWhere
  rw [List.map_map]
  refine List.map_congr_left fun r _ => ?_
  rw [Function.comp_apply]
  split
  · simp only [Row.set, h, Option.getD_none]
  · rfl

end Writes

section Modifications
variable {schema : Schema} {tenantId : String} {t : InvoiceTable schema} {id : String}
  {set : List (Column × SqlValue)}

theorem mem_sortByCreatedAt {rs : List Row} {r : Row} :
    r ∈ sortByCreatedAt schema rs ↔ r ∈ rs :=
  (List.mergeSort_perm rs _).mem_iff

theorem writeInvoice_of_allowed (h : Allowed tenantId t id set) :
    ∃ t', writeInvoice t id tenantId set = .ok t' ∧
      t'.rows = updateWhere (owned tenantId id) (fun r => r.set set) t.rows :=
  ⟨_, dif_pos h, rfl⟩

theorem writeInvoice_of_not_allowed (h : ¬ Allowed tenantId t id set) :
    writeInvoice t id tenantId set = .error .duplicate :=
  dif_neg h

theorem modifyInvoice_allowed {participle : String} {entries : List (String × JsValue)}
    {stamp : Column} {env : Env} {r : Row}
    (hexisting : existingInvoice t id tenantId participle = .ok (some r))
    (hwritten : schema.written entries stamp env.now = .ok set) (h : Allowed tenantId t id set) :
    ∃ t', modifyInvoice t id tenantId participle entries stamp env =
        (.ok (.row (writtenRow t t' id tenantId set env)), t') ∧
      t'.rows = updateWhere (owned tenantId id) (fun r => r.set set) t.rows := by
  obtain ⟨t', hwrite, hrows⟩ := writeInvoice_of_allowed h
  refine ⟨t', ?_, hrows⟩
  simp only [modifyInvoice, hexisting, hwritten, hwrite]

theorem modifyInvoice_not_allowed {participle : String} {entries : List (String × JsValue)}
    {stamp : Column} {env : Env} {r : Row}
    (hexisting : existingInvoice t id tenantId participle = .ok (some r))
    (hwritten : schema.written entries stamp env.now = .ok set) (h : ¬ Allowed tenantId t id set) :
    modifyInvoice t id tenantId participle entries stamp env = (.error (.db .duplicate), t) := by
  simp only [modifyInvoice, hexisting, hwritten, writeInvoice_of_not_allowed h]

theorem allowed_of_unset (t : InvoiceTable schema) (hid : assigned set .id = none)
    (hnumber : assigned set .invoiceId = none) : Allowed tenantId t id set := by
  unfold Allowed Schema.Holds
  rw [updateWhere_map_column hid, updateWhere_map_column hnumber]
  exact t.holds

end Modifications

/-! ### Samples -/

def sampleStore (c : Column) : JsValue → Option SqlValue
  | .string s => some (.text s)
  | .number (.fin q) => some (.number q)
  | .null => if c ∈ requiredColumns then none else some .null
  | _ => none

/- The schema of the migration, for texts, finite numbers and nulls. -/
def sampleSchema : Schema where
  store := sampleStore
  notAfter v v' := match v, v' with
    | .timestamp a, .timestamp b => decide (a ≤ b)
    | _, _ => true
  uniqueInvoiceId := true
  store_invoiceId := by
    intro s v h
    cases h
    rfl
  store_tenantId := by
    intro s v h
    cases h
    rfl

def sampleRow (id : ℕ) (invoiceId tenantId status : String) : Row
  | .id => .number id
  | .invoiceId => .text invoiceId
  | .amount => .number 100
  | .customer => .text "Alice Corp"
  | .status => .text status
  | .createdAt => .timestamp 0
  | .updatedAt => .timestamp 0
  | .tenantId => .text tenantId
  | _ => .null

def sampleTable (rows : List Row) (h : sampleSchema.Holds rows) : InvoiceTable sampleSchema :=
  ⟨rows, h⟩

def pendingTable : InvoiceTable sampleSchema :=
  sampleTable [sampleRow 1 "inv_1" "tenant_a" "pending"] (by decide)

def sampleEnv (id : ℕ) (returnsRows : Bool) : Env := ⟨10, 10, 7, id, returnsRows⟩

def sampleData : InvoiceData where
  amount := .number (.fin 5)
  customer := .string "Bob Inc"
  status := .undefined
  currency := .undefined
  dueDate := .undefined
  description := .undefined
  invoiceNumber := some "inv_2"
  metadata := none

end Liquifact.Invoices
