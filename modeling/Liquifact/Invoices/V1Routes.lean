import Liquifact.Cache.ResponseKeys
import Liquifact.Invoices.SoftDeletion
import Liquifact.Lib.Interleaving

/-!
# The invoice routes of version 1 (`src/routes/v1/index.js`, 64-140 and 184-285)

A request is a program whose queries are the statements of the invoice service, so that the
statements of other requests may come between any two of its own. `extractTenant`
(`src/middleware/tenant.js`), `validatePatchFields` and `detectLockedFieldChange`
(`src/middleware/patchInvoice.js`) and the two schemas (`src/schemas/invoice.js`) run before
and between them. A statement may also fail, and then changes nothing.

An `Exchange` is the last query of a program with its answer: what the program asks next, it
asks because of it.
-/

namespace Liquifact.Invoices.V1
open Liquifact.Lib Liquifact.Cache
open Interaction (Meets meets_query)

/-! ### Requests and replies -/

inductive Route where
  | list (includeDeleted : QueryValue)
  | create (body : Option Json)
  | patch (id : String) (body : Option Json)
  | delete (id : String)

/- `claim` is `req.user.tenantId`, undefined without a user. -/
structure InvoiceRequest where
  header : JsValue
  claim : JsValue
  originalUrl : String
  route : Route

structure Problem where
  type : String
  title : String
  status : ℕ
  detail : String
  instanceUrl : Option String
  code : Option String
  retryable : Option Bool
  retryHint : Option String
  deriving DecidableEq

/- What a handler gives to `next`. -/
inductive RouteError where
  | service (e : InvoiceError)
  | problem (p : Problem)
  | lost (message : String)
  deriving DecidableEq

inductive RouteReply where
  | listed (rows : List Row) (message : String)
  | invoice (status : ℕ) (row : Option Row) (message : String)
  | refused (status : ℕ) (error : String) (message : Option String)
  | forwarded (e : RouteError)

/- The limit is `MAX_TENANT_ID_LENGTH`. -/
def extractTenant (limit : JsNumber) (req : InvoiceRequest) : Option String :=
  (sanitiseTenantId limit req.header).or (sanitiseTenantId limit req.claim)

def missingTenant : RouteReply :=
  .refused 400 "Missing tenant context."
    (some ("A valid tenant identifier must be supplied via the x-tenant-id header or an " ++
      "authenticated JWT claim."))

def invalidBody (originalUrl : String) (retryHint : Option String) : Problem where
  type := "https://liquifact.com/probs/validation-error"
  title := "Validation Error"
  status := 422
  detail := "Request body contains invalid or missing fields."
  instanceUrl := some originalUrl
  code := some "VALIDATION_ERROR"
  retryable := some false
  retryHint := retryHint

def lockedField (originalUrl field status : String) : Problem where
  type := "https://liquifact.com/probs/validation-error"
  title := "Validation Error"
  status := 422
  detail := "Field '" ++ field ++ "' cannot be modified when invoice status is '" ++ status ++ "'."
  instanceUrl := some originalUrl
  code := some "LOCKED_FIELD"
  retryable := some false
  retryHint := none

def notFound : Problem where
  type := "about:blank"
  title := "Not Found"
  status := 404
  detail := "Invoice not found"
  instanceUrl := none
  code := none
  retryable := none
  retryHint := none

/-! ### The schemas -/

/- The parts of the language that the schemas call: the case tables, and whether `Date.parse`
gives a time. -/
structure Engine where
  toUpperCase : String → String
  parsesDate : String → Bool

def supportedCurrencies : List String :=
  ["USD", "EUR", "GBP", "JPY", "CHF", "CAD", "AUD", "NZD", "CNY", "HKD",
    "SGD", "SEK", "NOK", "DKK", "MXN", "BRL", "INR", "KRW", "ZAR", "NGN",
    "GHS", "KES", "TZS", "UGX", "XOF", "XAF", "MAD", "EGP", "AED", "SAR"]

/- `/^\d{4}-\d{2}-\d{2}$/`. -/
def isDateText (s : String) : Bool :=
  match s.toList with
  | [a, b, c, d, '-', e, f, '-', g, h] => [a, b, c, d, e, f, g, h].all Char.isDigit
  | _ => false

abbrev FieldSchema := Json → Option JsValue

def amountField : FieldSchema
  | .num (.fin q) => if 0 < q then some (.number (.fin q)) else none
  | _ => none

def textField (least most : ℕ) (transform : String → Option String) : FieldSchema
  | .str s =>
    if least ≤ (utf16 s).length ∧ (utf16 s).length ≤ most then (transform s).map .string else none
  | _ => none

def nameField : FieldSchema := textField 1 255 fun s => some (trim s)

def noteField (most : ℕ) : FieldSchema := textField 0 most some

def enumField (values : List String) : FieldSchema
  | .str s => if s ∈ values then some (.string s) else none
  | _ => none

section Schemas
variable (engine : Engine)

def dateSchema : FieldSchema
  | .str s => if isDateText s && engine.parsesDate s then some (.string s) else none
  | _ => none

def currencySchema : FieldSchema :=
  textField 3 3 fun s =>
    if engine.toUpperCase s ∈ supportedCurrencies then some (engine.toUpperCase s) else none

/- The fields of `invoiceCreateSchema`. -/
def createFields : List (String × FieldSchema) :=
  [("amount", amountField), ("dueDate", dateSchema engine), ("buyer", nameField),
    ("customer", nameField), ("seller", nameField), ("currency", currencySchema engine),
    ("description", noteField 1000), ("invoiceNumber", noteField 100)]

def updateFields : List (String × FieldSchema) :=
  createFields engine ++ [("status", enumField ["pending", "paid", "overdue", "cancelled"])]

end Schemas

/- The members of a strict object; each field may be left out. -/
def parseMembers : List (String × FieldSchema) → List (String × Json) →
    Option (List (String × JsValue))
  | [], _ => some []
  | (name, field) :: fields, members =>
    match members.lookup name with
    | none => parseMembers fields members
    | some v =>
      match field v, parseMembers fields members with
      | some x, some rest => some ((name, x) :: rest)
      | _, _ => none

def parseStrict (fields : List (String × FieldSchema)) (members : List (String × Json)) :
    Option (List (String × JsValue)) :=
  if members.all fun m => fields.any fun f => f.1 = m.1 then parseMembers fields members else none

def fieldOf (data : List (String × JsValue)) (name : String) : JsValue :=
  (data.lookup name).getD .undefined

/- What `superRefine` and the required `amount` ask of the parsed members. -/
def complete (data : List (String × JsValue)) : Bool :=
  !isUndefined (fieldOf data "amount") &&
    ((fieldOf data "buyer").truthy || (fieldOf data "customer").truthy) &&
    (fieldOf data "seller").truthy && (fieldOf data "currency").truthy &&
    (fieldOf data "dueDate").truthy

def parseCreate (engine : Engine) : Option Json → Option (List (String × JsValue))
  | some (.obj members) => (parseStrict (createFields engine) members).filter complete
  | _ => none

/- `(body.buyer || body.customer || '').trim()`. -/
def customerName (data : List (String × JsValue)) : String :=
  trim ((((fieldOf data "buyer").or (fieldOf data "customer")).or (.string "")).asString.getD "")

def invoiceData (data : List (String × JsValue)) : InvoiceData where
  amount := fieldOf data "amount"
  customer := .string (customerName data)
  status := .undefined
  currency := fieldOf data "currency"
  dueDate := fieldOf data "dueDate"
  description := fieldOf data "description"
  invoiceNumber := (fieldOf data "invoiceNumber").asString
  metadata := none

/-! ### The guard of `PATCH` -/

def pendingOnlyFields : List String := ["amount", "customer"]

def extractAllowedFields (members : List (String × Json)) : List (String × Json) :=
  members.filter fun m => m.1 ∈ mutableFields

def validatePatchFields : Option Json → Except RouteReply (List (String × Json))
  | some (.obj members) =>
    if extractAllowedFields members = [] then
      .error (.refused 400
        "No valid fields provided. Allowed fields: amount, customer, notes." none)
    else .ok (extractAllowedFields members)
  | _ => .error (.refused 400 "Request body must be a JSON object." none)

/- The locked field and the status that locks it. -/
def detectLockedFieldChange (payload : List (String × Json)) (status : SqlValue) :
    Option (String × String) :=
  match lockedStatus status with
  | none => none
  | some s =>
    (pendingOnlyFields.find? fun field => payload.any fun m => m.1 = field).map fun field =>
      (field, s)

/-! ### Statements -/

inductive Query where
  | list (tenantId : String) (opts : ListOptions)
  | active (id tenantId : String)
  | insert (tenantId : String) (data : InvoiceData)
  | numbered (number : String)
  | lookup (id tenantId : String)
  | update (id tenantId : String) (entries : List (String × JsValue)) (stamp : Column)

/- An `INSERT` answers with the number it has given, and both kinds of write with the first
row that was returned, if rows are. -/
abbrev Query.Response : Query → Type
  | .list _ _ => List Row
  | .active _ _ => Option Row
  | .insert _ _ => Except DbError (String × Option Row)
  | .numbered _ => Option Row
  | .lookup _ _ => Option Row
  | .update _ _ _ _ => Except DbError (Option Row)

abbrev Handler := Interaction Query Query.Response RouteReply

def settle (reply : RouteReply) : Handler := .done (.ok reply)

def raise (e : InvoiceError) : Handler := settle (.forwarded (.service e))

/- `await` inside the handler's `try`. -/
def select (q : Query) (next : q.Response → Handler) : Handler :=
  (Interaction.query q).attempt fun r =>
    match r with
    | .error message => settle (.forwarded (.lost message))
    | .ok a => next a

section Service

def listInvoices (tenantId : String) (opts : ListOptions) (next : List Row → Handler) : Handler :=
  if tenantId = "" then raise (.typeError "tenantId is required")
  else select (.list tenantId opts) next

def getInvoiceById (id tenantId : String) (next : Option Row → Handler) : Handler :=
  if id = "" then raise (.typeError "Invalid invoice ID")
  else select (.active id tenantId) next

def createInvoice (data : InvoiceData) (tenantId : String) (next : Option Row → Handler) :
    Handler :=
  if tenantId = "" then raise (.typeError "tenantId is required")
  else
    select (.insert tenantId data) fun result =>
      match result with
      | .error e => raise (.db e)
      | .ok (_, some row) => next (some row)
      | .ok (number, none) => select (.numbered number) next

/- The common body of `updateInvoice` and `deleteInvoice`. -/
def modifyInvoice (id tenantId participle : String) (entries : List (String × JsValue))
    (stamp : Column) (next : Option Row → Handler) : Handler :=
  if id = "" then raise (.typeError "invoice id required")
  else
    select (.lookup id tenantId) fun found =>
      match found with
      | none => next none
      | some existing =>
        match lockedStatus (existing .status) with
        | some status => raise (lockedError status participle)
        | none =>
          select (.update id tenantId entries stamp) fun result =>
            match result with
            | .error e => raise (.db e)
            | .ok (some row) => next (some row)
            | .ok none => select (.lookup id tenantId) next

def updateInvoice (id : String) (updates : List (String × JsValue)) (tenantId : String)
    (next : Option Row → Handler) : Handler :=
  modifyInvoice id tenantId "modified" (patched updates) .updatedAt next

def deleteInvoice (id tenantId : String) (next : Option Row → Handler) : Handler :=
  modifyInvoice id tenantId "deleted" [] .deletedAt next

end Service

/-! ### Handlers -/

section Handlers
variable (engine : Engine) (originalUrl tenantId : String)

def getInvoices (includeDeleted : QueryValue) : Handler :=
  let included := decide (includeDeleted = .text "true")
  listInvoices tenantId ⟨included, none⟩ fun rows =>
    settle (.listed rows (if included then "Showing all invoices (including deleted)."
      else "Showing active invoices."))

def postInvoice (body : Option Json) : Handler :=
  match parseCreate engine body with
  | none =>
    settle (.forwarded (.problem (invalidBody originalUrl
      (some "Correct the highlighted fields and retry."))))
  | some data =>
    createInvoice (invoiceData data) tenantId fun row =>
      settle (.invoice 201 row "Invoice created successfully.")

def replyWith (message : String) : Option Row → Handler
  | none => settle (.forwarded (.problem notFound))
  | some row => settle (.invoice 200 (some row) message)

def patchInvoice (id : String) (body : Option Json) : Handler :=
  match validatePatchFields body with
  | .error reply => settle reply
  | .ok sanitizedUpdate =>
    match parseStrict (updateFields engine) sanitizedUpdate with
    | none => settle (.forwarded (.problem (invalidBody originalUrl none)))
    | some updates =>
      getInvoiceById (trim id) tenantId fun found =>
        match found with
        | none => settle (.forwarded (.problem notFound))
        | some existing =>
          match detectLockedFieldChange sanitizedUpdate (existing .status) with
          | some (field, status) =>
            settle (.forwarded (.problem (lockedField originalUrl field status)))
          | none =>
            updateInvoice (trim id) updates tenantId (replyWith "Invoice updated successfully.")

def removeInvoice (id : String) : Handler :=
  deleteInvoice (trim id) tenantId (replyWith "Invoice deleted (soft-delete) successfully.")

def handle : Route → Handler
  | .list includeDeleted => getInvoices tenantId includeDeleted
  | .create body => postInvoice engine originalUrl tenantId body
  | .patch id body => patchInvoice engine originalUrl tenantId id body
  | .delete id => removeInvoice tenantId id

end Handlers

def respond (engine : Engine) (limit : JsNumber) (req : InvoiceRequest) : Handler :=
  match extractTenant limit req with
  | none => settle missingTenant
  | some tenantId => handle engine req.originalUrl tenantId req.route

/-! ### The database -/

structure StatementEnv where
  env : Env
  failure : Option String

section Database
variable {schema : Schema}

def execute (e : StatementEnv) (t : InvoiceTable schema) (q : Query) :
    Except String q.Response × InvoiceTable schema :=
  match e.failure with
  | some message => (.error message, t)
  | none =>
    match q with
    | .list tenantId opts =>
      (.ok (sortByCreatedAt schema (t.rows.filter (listed tenantId opts))), t)
    | .active id tenantId => (.ok (t.rows.find? (Invoices.active tenantId id)), t)
    | .lookup id tenantId => (.ok (t.rows.find? (owned tenantId id)), t)
    | .numbered number => (.ok (t.rows.find? (Invoices.numbered number)), t)
    | .insert tenantId data =>
      match insertInvoice t tenantId data e.env with
      | .error err => (.ok (.error err), t)
      | .ok (row, t') =>
        (.ok (.ok (invoiceIdOf data e.env, if e.env.returnsRows then some row else none)), t')
    | .update id tenantId entries stamp =>
      match schema.written entries stamp e.env.now with
      | .error err => (.ok (.error err), t)
      | .ok set =>
        match writeInvoice t id tenantId set with
        | .error err => (.ok (.error err), t)
        | .ok t' =>
          (.ok (.ok (if e.env.returnsRows then
            (t.rows.find? (owned tenantId id)).map fun r => r.set set else none)), t')

abbrev Served (π : Type) (schema : Schema) :=
  Concurrent π (InvoiceTable schema) Query Query.Response RouteReply

/-- The requests as they come in. -/
def Served.start {π : Type} (engine : Engine) (limit : JsNumber) (requests : π → InvoiceRequest)
    (t : InvoiceTable schema) : Served π schema :=
  ⟨t, fun p => respond engine limit (requests p)⟩

end Database

/-! ### Statements without interruption

With nothing in between, the statements of a service function are the call of
`Liquifact.Invoices.InvoiceService`. -/

section Uninterrupted
variable {schema : Schema}

def uninterrupted (e : StatementEnv) :
    Handler → InvoiceTable schema → Except String RouteReply × InvoiceTable schema
  | .done r, t => (r, t)
  | .ask q next, t => uninterrupted e (next (execute e t q).1) (execute e t q).2

/- What the handler goes on with. -/
def answered (next : Option Row → RouteReply) : Answer → RouteReply
  | .error e => .forwarded (.service e)
  | .ok (.row found) => next found
  | .ok (.rows rs) => next rs.head?

theorem uninterrupted_select {env : Env} {t t' : InvoiceTable schema} {q : Query}
    {next : q.Response → Handler} {a : q.Response}
    (h : execute ⟨env, none⟩ t q = (.ok a, t')) :
    uninterrupted ⟨env, none⟩ (select q next) t = uninterrupted ⟨env, none⟩ (next a) t' := by
  show uninterrupted ⟨env, none⟩ (match (execute ⟨env, none⟩ t q).1 with
    | .error message => settle (.forwarded (.lost message))
    | .ok a => next a) (execute ⟨env, none⟩ t q).2 = _
  rw [h]

theorem uninterrupted_modifyInvoice (t : InvoiceTable schema) (id tenantId participle : String)
    (entries : List (String × JsValue)) (stamp : Column) (env : Env)
    (next : Option Row → RouteReply) :
    uninterrupted ⟨env, none⟩
        (modifyInvoice id tenantId participle entries stamp fun found => settle (next found)) t =
      (.ok (answered next (Invoices.modifyInvoice t id tenantId participle entries stamp env).1),
        (Invoices.modifyInvoice t id tenantId participle entries stamp env).2) := by
  have hlookup : ∀ u : InvoiceTable schema, execute ⟨env, none⟩ u (.lookup id tenantId) =
      (.ok (u.rows.find? (owned tenantId id)), u) := fun _ => rfl
  unfold modifyInvoice Invoices.modifyInvoice existingInvoice
  by_cases hid : id = ""
  · simp only [if_pos hid]
    rfl
  · simp only [if_neg hid]
    rw [uninterrupted_select (hlookup t)]
    cases hfind : t.rows.find? (owned tenantId id) with
    | none => rfl
    | some existing =>
      dsimp only
      cases hlocked : lockedStatus (existing .status) with
      | some status => rfl
      | none =>
        dsimp only
        cases hset : schema.written entries stamp env.now with
        | error e =>
          have hupdate : execute ⟨env, none⟩ t (.update id tenantId entries stamp) =
              (.ok (.error e : Except DbError (Option Row)), t) := by
            simp only [execute, hset]
          rw [uninterrupted_select hupdate]
          rfl
        | ok set =>
          dsimp only
          cases hwrite : writeInvoice t id tenantId set with
          | error e =>
            have hupdate : execute ⟨env, none⟩ t (.update id tenantId entries stamp) =
                (.ok (.error e : Except DbError (Option Row)), t) := by
              simp only [execute, hset, hwrite]
            rw [uninterrupted_select hupdate]
            rfl
          | ok t' =>
            have hupdate : execute ⟨env, none⟩ t (.update id tenantId entries stamp) =
                (.ok (.ok (if env.returnsRows then some (existing.set set) else none) :
                  Except DbError (Option Row)), t') := by
              simp only [execute, hset, hwrite, hfind, Option.map_some]
            rw [uninterrupted_select hupdate]
            unfold writtenRow
            cases hreturns : env.returnsRows with
            | true =>
              simp only [if_true, hfind]
              rfl
            | false =>
              simp only [Bool.false_eq_true, if_false]
              rw [uninterrupted_select (hlookup t')]
              rfl

theorem uninterrupted_createInvoice (t : InvoiceTable schema) (data : InvoiceData)
    (tenantId : String) (env : Env) (next : Option Row → RouteReply) :
    uninterrupted ⟨env, none⟩ (createInvoice data tenantId fun found => settle (next found)) t =
      (.ok (answered next (Invoices.createInvoice t tenantId data env).1),
        (Invoices.createInvoice t tenantId data env).2) := by
  unfold createInvoice Invoices.createInvoice
  by_cases htenant : tenantId = ""
  · simp only [if_pos htenant]
    rfl
  · simp only [if_neg htenant]
    cases hinsert : insertInvoice t tenantId data env with
    | error e =>
      have hexecute : execute ⟨env, none⟩ t (.insert tenantId data) =
          (.ok (.error e : Except DbError (String × Option Row)), t) := by
        simp only [execute, hinsert]
      rw [uninterrupted_select hexecute]
      rfl
    | ok x =>
      obtain ⟨row, t'⟩ := x
      have hexecute : execute ⟨env, none⟩ t (.insert tenantId data) =
          (.ok (.ok (invoiceIdOf data env, if env.returnsRows then some row else none) :
            Except DbError (String × Option Row)), t') := by
        simp only [execute, hinsert]
      rw [uninterrupted_select hexecute]
      cases hreturns : env.returnsRows with
      | true => rfl
      | false =>
        have hrefetch : execute ⟨env, none⟩ t' (.numbered (invoiceIdOf data env)) =
            (.ok (t'.rows.find? (Invoices.numbered (invoiceIdOf data env))), t') := rfl
        simp only [Bool.false_eq_true, if_false]
        rw [uninterrupted_select hrefetch]
        rfl

end Uninterrupted

/-! ### What a request asks -/

abbrev Exchange := Option ((q : Query) × Except String q.Response)

def exchanged : Exchange → (q : Query) → Except String q.Response → Exchange → Prop :=
  fun _ q r g => g = some ⟨q, r⟩

/- An `UPDATE` of a request writes these columns. -/
def Patches (entries : List (String × JsValue)) (stamp : Column) : Prop :=
  (∀ entry ∈ entries, columnOf entry.1 = some .amount ∨ columnOf entry.1 = some .customer) ∧
    (stamp = .updatedAt ∨ stamp = .deletedAt)

/-- A request asks for its tenant only, inserts without a status, writes to an invoice it has
just found unlocked, and refetches by number only what it has just inserted. -/
def Entitled (tenant : Option String) (last : Exchange) : Query → Prop
  | .list tenantId _ => tenant = some tenantId
  | .active _ tenantId => tenant = some tenantId
  | .insert tenantId data => tenant = some tenantId ∧ data.status = .undefined
  | .lookup _ tenantId => tenant = some tenantId
  | .numbered number => ∃ tenantId data,
    last = some ⟨.insert tenantId data, .ok (.ok (number, none))⟩
  | .update id tenantId entries stamp => tenant = some tenantId ∧ Patches entries stamp ∧
    ∃ r, last = some ⟨.lookup id tenantId, .ok (some r)⟩ ∧ lockedStatus (r .status) = none

abbrev Asks (tenant : Option String) (program : Handler) (last : Exchange) : Prop :=
  program.Meets (Entitled tenant) exchanged (fun _ _ => True) last

section Asks
variable {tenant : Option String} {last : Exchange}

theorem asks_select {q : Query} {next : q.Response → Handler} (hq : Entitled tenant last q)
    (h : ∀ a, Asks tenant (next a) (some ⟨q, .ok a⟩)) : Asks tenant (select q next) last := by
  refine meets_query hq ?_
  rintro r g rfl
  cases r with
  | error message => trivial
  | ok a => exact h a

theorem asks_modifyInvoice {id tenantId participle : String} {entries : List (String × JsValue)}
    {stamp : Column} {next : Option Row → Handler} (hpatches : Patches entries stamp)
    (hnext : ∀ row g, Asks (some tenantId) (next row) g) :
    Asks (some tenantId) (modifyInvoice id tenantId participle entries stamp next) last := by
  unfold modifyInvoice
  split
  · trivial
  · refine asks_select rfl fun found => ?_
    cases found with
    | none => exact hnext none _
    | some existing =>
      dsimp only
      cases hlocked : lockedStatus (existing .status) with
      | some status => trivial
      | none =>
        refine asks_select ⟨rfl, hpatches, existing, rfl, hlocked⟩ fun result => ?_
        cases result with
        | error e => trivial
        | ok row =>
          cases row with
          | some row => exact hnext (some row) _
          | none => exact asks_select rfl fun row => hnext row _

theorem mem_of_lookup {members : List (String × Json)} {name : String} {v : Json}
    (h : members.lookup name = some v) : ∃ m ∈ members, m.1 = name := by
  obtain ⟨before, after, rfl, -⟩ := List.lookup_eq_some_iff.mp h
  exact ⟨(name, v), List.mem_append_right _ (List.mem_cons_self ..), rfl⟩

/- What is parsed was there, and has a schema. -/
theorem mem_parseMembers {fields : List (String × FieldSchema)} {members : List (String × Json)}
    {data : List (String × JsValue)} (h : parseMembers fields members = some data) :
    ∀ entry ∈ data, (∃ m ∈ members, m.1 = entry.1) ∧ entry.1 ∈ fields.map Prod.fst := by
  induction fields generalizing data with
  | nil =>
    cases h
    rintro entry ⟨⟩
  | cons f fields ih =>
    obtain ⟨name, field⟩ := f
    simp only [parseMembers] at h
    cases hlookup : members.lookup name with
    | none =>
      rw [hlookup] at h
      intro entry hentry
      obtain ⟨hm, hf⟩ := ih h entry hentry
      exact ⟨hm, List.mem_cons_of_mem _ hf⟩
    | some v =>
      rw [hlookup] at h
      dsimp only at h
      split at h
      · next x rest _ hrest =>
        cases h
        intro entry hentry
        rcases List.mem_cons.mp hentry with rfl | hentry
        · exact ⟨mem_of_lookup hlookup, List.mem_cons_self ..⟩
        · obtain ⟨hm, hf⟩ := ih hrest entry hentry
          exact ⟨hm, List.mem_cons_of_mem _ hf⟩
      · cases h

/- The guard lets `notes` through, which no schema knows. -/
theorem patches_of_parsed {engine : Engine} {members : List (String × Json)}
    {updates : List (String × JsValue)}
    (h : parseStrict (updateFields engine) (extractAllowedFields members) = some updates) :
    Patches (patched updates) .updatedAt := by
  unfold parseStrict at h
  split at h
  · refine ⟨fun entry hentry => ?_, .inl rfl⟩
    obtain ⟨⟨m, hm, hname⟩, hfield⟩ := mem_parseMembers h entry (List.mem_of_mem_filter hentry)
    have hmutable := of_decide_eq_true (List.mem_filter.mp hm).2
    rw [hname] at hmutable
    simp only [mutableFields, List.mem_cons, List.not_mem_nil, or_false] at hmutable
    rcases hmutable with hname | hname | hname
    · rw [hname]
      exact .inl rfl
    · rw [hname]
      exact .inr rfl
    · rw [hname] at hfield
      simp [updateFields, createFields] at hfield
  · cases h

theorem asks_replyWith (message : String) (row : Option Row) :
    Asks tenant (replyWith message row) last := by
  cases row with
  | none => trivial
  | some row => trivial

theorem asks_postInvoice {engine : Engine} {originalUrl tenantId : String} {body : Option Json} :
    Asks (some tenantId) (postInvoice engine originalUrl tenantId body) last := by
  unfold postInvoice
  split
  · trivial
  · unfold createInvoice
    split
    · trivial
    · refine asks_select ⟨rfl, rfl⟩ fun result => ?_
      match result with
      | .error e => trivial
      | .ok (number, some row) => trivial
      | .ok (number, none) => exact asks_select ⟨_, _, rfl⟩ fun _ => trivial

theorem asks_patchInvoice {engine : Engine} {originalUrl tenantId id : String}
    {body : Option Json} :
    Asks (some tenantId) (patchInvoice engine originalUrl tenantId id body) last := by
  unfold patchInvoice
  split
  · trivial
  · next sanitizedUpdate hvalid =>
    split
    · trivial
    · next updates hparsed =>
      unfold getInvoiceById
      split
      · trivial
      · refine asks_select rfl fun found => ?_
        cases found with
        | none => trivial
        | some existing =>
          dsimp only
          split
          · trivial
          · have hallowed : ∃ members, sanitizedUpdate = extractAllowedFields members := by
              unfold validatePatchFields at hvalid
              split at hvalid
              · split at hvalid
                · cases hvalid
                · cases hvalid
                  exact ⟨_, rfl⟩
              · cases hvalid
            obtain ⟨members, rfl⟩ := hallowed
            exact asks_modifyInvoice (patches_of_parsed hparsed) fun row _ => asks_replyWith _ row

theorem asks_respond (engine : Engine) (limit : JsNumber) (req : InvoiceRequest) :
    Asks (extractTenant limit req) (respond engine limit req) last := by
  unfold respond
  cases extractTenant limit req with
  | none => trivial
  | some tenantId =>
    dsimp only
    cases req.route with
    | list includeDeleted =>
      unfold handle getInvoices listInvoices
      dsimp only
      split
      · trivial
      · exact asks_select rfl fun _ => trivial
    | create body => exact asks_postInvoice
    | patch id body => exact asks_patchInvoice
    | delete id =>
      refine asks_modifyInvoice ⟨?_, .inr rfl⟩ fun row _ => asks_replyWith _ row
      rintro entry ⟨⟩

end Asks

end Liquifact.Invoices.V1
