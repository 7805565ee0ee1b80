import Liquifact.Webhooks.WebhookDelivery

/-!
# Dead letters and the table they are put in

Two migrations create `webhook_dead_letters`, each only if it does not exist yet:
`20260602000000` without, `20260627000001` with a column `webhook_url`, which must not be
null there. `emitWebhook` (`webhooks.js:104-265`) and the delivery handler
(`webhookDelivery.js:207-232`) insert a row when a delivery has failed for good; neither
names the URL, and an insert that fails is only logged. `replayWebhook` (`webhooks.js:357-399`)
sends the payload of a row to its `webhook_url`. `writeDeadLetter` of `webhooks.js`, which
would store the URL, is called nowhere.

`generated` gives the values of columns that have a default. JSONB keeps the value of a JSON
text, not the order of members.
-/

namespace Liquifact.Webhooks
open Liquifact.Lib Liquifact.Utils

/-! ### The migrations -/

inductive ColumnType where
  | varchar (limit : ℕ)
  | text
  | jsonb
  | other

structure Column where
  name : String
  type : ColumnType
  notNull : Bool
  hasDefault : Bool

abbrev Schema := List Column

abbrev Row := List (String × Json)

inductive Migration where
  | create20260602
  | create20260627

def Migration.schema : Migration → Schema
  | create20260602 =>
    [⟨"id", .other, true, true⟩, ⟨"tenant_id", .varchar 255, true, false⟩,
      ⟨"invoice_id", .varchar 255, true, false⟩, ⟨"event", .varchar 128, true, false⟩,
      ⟨"payload", .jsonb, true, false⟩, ⟨"last_error", .text, false, false⟩,
      ⟨"attempts", .other, true, true⟩, ⟨"created_at", .other, true, true⟩]
  | create20260627 =>
    [⟨"id", .other, true, true⟩, ⟨"tenant_id", .text, true, false⟩,
      ⟨"invoice_id", .text, true, false⟩, ⟨"event", .text, true, false⟩,
      ⟨"payload", .jsonb, true, false⟩, ⟨"webhook_url", .text, true, false⟩,
      ⟨"attempts", .other, true, true⟩, ⟨"last_error", .text, false, false⟩,
      ⟨"resolved", .other, true, true⟩, ⟨"resolved_at", .other, false, false⟩,
      ⟨"created_at", .other, true, true⟩, ⟨"updated_at", .other, true, true⟩]

/- `CREATE TABLE IF NOT EXISTS`. -/
def Migration.apply (table : Option Schema) (m : Migration) : Option Schema :=
  some (table.getD m.schema)

/-- The table after `m` and then the migrations `ms`. -/
def schemaAfter (m : Migration) (ms : List Migration) : Schema :=
  (ms.foldl Migration.apply (m.apply none)).getD []

/-! ### Inserts -/

def isNull : Json → Bool
  | .null => true
  | _ => false

def storedValue : ColumnType → Json → Except String Json
  | _, .null => .ok .null
  | .varchar limit, v =>
    if v.text.toList.length ≤ limit then .ok (.str v.text)
    else .error ("value too long for type character varying(" ++ toString limit ++ ")")
  | .text, v => .ok (.str v.text)
  | .jsonb, .str s => expect "invalid input syntax for type json" (Json.parse s)
  | _, v => .ok v

/- A value that is not given, or undefined, is the default or null. -/
def columnValue (generated : String → Json) (values : List (String × Option Json)) (c : Column) :
    Except String Json :=
  match OrdMap.lookupL c.name values with
  | some (some v) => storedValue c.type v
  | _ => .ok (if c.hasDefault then generated c.name else .null)

def fillRow (generated : String → Json) (values : List (String × Option Json)) :
    Schema → Except String Row
  | [] => .ok []
  | c :: rest => do
    let v ← columnValue generated values c
    require (¬ (c.notNull = true ∧ isNull v = true))
      ("null value in column \"" ++ c.name ++
        "\" of relation \"webhook_dead_letters\" violates not-null constraint")
    let row ← fillRow generated values rest
    .ok ((c.name, v) :: row)

def insertRow (generated : String → Json) (schema : Schema) (values : List (String × Option Json)) :
    Except String Row := do
  require (∀ m ∈ values, m.1 ∈ schema.map Column.name)
    "column of relation \"webhook_dead_letters\" does not exist"
  fillRow generated values schema

/-! ### The two writers -/

/- What `emitWebhook` is called with and what its two queries find: the tenant of the invoice
and the settings of the tenant. -/
structure Emission where
  event : String
  invoiceId : String
  additionalData : List (String × Json)
  tenantId : Option Json
  settings : Option Json

/- The retry rule of `emitWebhook`; that of the handler looks at the name first. -/
def emitShouldRetry (err : SendError) : Bool :=
  match truthy err.code with
  | some code => decide (code ∈ retryableCodes) || decide (err.name = "AbortError")
  | none =>
    match err.status with
    | some status => decide (500 ≤ status ∧ status < 600)
    | none => false

def Emission.payload (e : Emission) (timestamp : String) : Json :=
  sortKeys (.obj (e.additionalData.foldl (fun ms m => OrdMap.setL m.1 m.2 ms)
    [("event", .str e.event), ("timestamp", .str timestamp), ("invoiceId", .str e.invoiceId)]))

/- How a call ends: nothing to do, an error before the first request, a success, or an error
after the last one with the values for the table. -/
inductive Emitted where
  | skipped
  | refused (message : String)
  | delivered
  | exhausted (values : List (String × Option Json))

def emitRequest (url signature body : String) (sending : Sending) : Except SendError ℕ :=
  match sending.fetch ⟨url, signature, body⟩ with
  | .error err => .error err
  | .ok status =>
    if isOkStatus status then .ok status
    else .error {
      name := "Error"
      code := none
      status := some status
      thrown := .ofMessage ("Webhook responded with " ++ toString status) }

/-- `emitWebhook` (`webhooks.js:104-265`). -/
def emitWebhook (env : DeliveryEnv) (d : Delivery) (e : Emission) : Emitted :=
  match e.tenantId, jsOr (e.settings.bind (Json.member "webhook_url")) none,
      jsOr (e.settings.bind (Json.member "webhook_secret")) none with
  | some tenantId, some url, some secret =>
    let body := (e.payload d.timestamp).stringify
    match createSignatureHeader env.hmac secret body (d.sending 0).now with
    | .error message => .refused message
    | .ok signature =>
      let retried := withRetry env.options emitShouldRetry
        (fun attempt => emitRequest url.text signature body (d.sending attempt)) d.draw
      match retried.result with
      | .ok _ => .delivered
      | .error err => .exhausted [
          ("tenant_id", some tenantId),
          ("invoice_id", some (.str e.invoiceId)),
          ("event", some (.str e.event)),
          ("payload", some (.str body)),
          ("last_error", some (.str err.thrown.describe)),
          ("attempts", some (.num (env.options.maxRetries.add (.fin 1)))),
          ("created_at", some (.num (.fin d.createdAt)))]
  | _, _, _ => .skipped

/- The insert of `writeDeadLetter` in `webhookDelivery.js`. -/
def DeadLetterRow.values (r : DeadLetterRow) : List (String × Option Json) :=
  [("tenant_id", r.tenantId), ("invoice_id", r.invoiceId), ("event", r.event),
    ("payload", some (.str r.payload)), ("last_error", some (.str r.lastError)),
    ("attempts", some (.num (.ofNat r.attempts))), ("created_at", some (.num (.fin r.createdAt)))]

/-! ### Replaying a stored row -/

/-- The request that `replayWebhook` makes for a row. A row without the column has an undefined
URL, with which `fetch` rejects before it sends anything. -/
def replayRequest (hmac : Json → String → Except String (List UInt8)) (settings : Option Json)
    (now : ℤ) (row : Row) : Option WebhookRequest :=
  if ((OrdMap.lookupL "resolved" row).map Json.truthy).getD false then none
  else match OrdMap.lookupL "webhook_url" row with
    | none => none
    | some url =>
      let letter : DeadLetter := {
        tenantId := ((OrdMap.lookupL "tenant_id" row).map Json.text).getD "undefined"
        payload := (OrdMap.lookupL "payload" row).getD .null
        webhookUrl := url.text
        resolved := false
        resolvedAt := none
        updatedAt := 0 }
      match beginSend hmac letter settings now with
      | .sending _ request => some request
      | _ => none

/-! ### Deliveries in a row -/

inductive Attempt where
  | emit (d : Delivery) (e : Emission)
  | handle (d : Delivery) (payload : Json)

section Attempts
variable (sorter : Option (Json → Json)) (env : DeliveryEnv)

/- The delivery has failed and will not be attempted again by this call. -/
def Attempt.failed : Attempt → Bool
  | .emit d e =>
    match emitWebhook env d e with
    | .refused _ => true
    | .exhausted _ => true
    | _ => false
  | .handle d payload => (webhookDeliveryHandler sorter env d payload).outcome.isSome

def Attempt.values : Attempt → Option (List (String × Option Json))
  | .emit d e =>
    match emitWebhook env d e with
    | .exhausted values => some values
    | _ => none
  | .handle d payload =>
    (webhookDeliveryHandler sorter env { d with accepts := true } payload).row.map DeadLetterRow.values

/- Where the delivery was addressed to, and its payload. -/
def Attempt.url : Attempt → Option String
  | .emit _ e => (jsOr (e.settings.bind (Json.member "webhook_url")) none).map Json.text
  | .handle _ payload => (payload.member "webhookUrl").map Json.text

def Attempt.payload : Attempt → Json
  | .emit d e => e.payload d.timestamp
  | .handle d payload => sortKeys
      (deliveryBody payload ((payload.member "transition").getD (.obj [])) d.timestamp)

/- The rows of the table after an attempt; a refused insert is logged. -/
def attemptStep (generated : String → Json) (schema : Schema) (rows : List Row) (a : Attempt) :
    List Row :=
  match a.values sorter env with
  | none => rows
  | some values =>
    match insertRow generated schema values with
    | .ok row => rows ++ [row]
    | .error _ => rows

/- The rows after the deliveries `as` and then `a`, from the empty table. -/
def rowsAfter (generated : String → Json) (schema : Schema) (as : List Attempt) (a : Attempt) :
    List Row :=
  attemptStep sorter env generated schema (run (attemptStep sorter env generated schema) [] as) a

end Attempts

/-- From some unresolved row `replayWebhook`, with some settings of the tenant and at some time,
sends an equal payload to the URL of the delivery. -/
def Replayable (hmac : Json → String → Except String (List UInt8)) (rows : List Row) (a : Attempt) :
    Prop :=
  ∃ row ∈ rows, ∃ settings now request, replayRequest hmac settings now row = some request ∧
    some request.url = a.url ∧ (Json.parse request.body).map sortKeys = some (sortKeys a.payload)

/-! ### No stored row has a URL -/

theorem schemaAfter_eq (m : Migration) (ms : List Migration) : schemaAfter m ms = m.schema := by
  unfold schemaAfter
  have hkeep : ∀ schema, ms.foldl Migration.apply (some schema) = some schema := by
    intro schema
    induction ms with
    | nil => rfl
    | cons n ms ih => exact ih
  rw [show m.apply none = some m.schema from rfl, hkeep]
  rfl

/- The column has to be given wherever there is one. -/
theorem url_required (m : Migration) :
    ∀ c ∈ m.schema, c.name = "webhook_url" → c.notNull = true ∧ c.hasDefault = false := by
  cases m with
  | create20260602 => decide
  | create20260627 => decide

section Rows
variable {generated : String → Json} {values : List (String × Option Json)}

theorem fillRow_no_url (hvalues : OrdMap.lookupL "webhook_url" values = none) {schema : Schema}
    (hschema : ∀ c ∈ schema, c.name = "webhook_url" → c.notNull = true ∧ c.hasDefault = false)
    {row : Row} (h : fillRow generated values schema = .ok row) :
    OrdMap.lookupL "webhook_url" row = none := by
  induction schema generalizing row with
  | nil =>
    cases h
    rfl
  | cons c rest ih =>
    rw [fillRow] at h
    obtain ⟨v, hv, h⟩ := bind_ok h
    obtain ⟨_, hnull, h⟩ := bind_ok h
    obtain ⟨row', hrow, h⟩ := bind_ok h
    cases h
    have hname : c.name ≠ "webhook_url" := by
      intro hname
      obtain ⟨hrequired, hdefault⟩ := hschema c (List.mem_cons_self ..) hname
      rw [columnValue, hname, hvalues] at hv
      simp only [hdefault, Bool.false_eq_true, if_false] at hv
      cases hv
      exact require_ok hnull ⟨hrequired, rfl⟩
    rw [OrdMap.lookupL, if_neg hname]
    exact ih (fun c' hc' => hschema c' (List.mem_cons_of_mem c hc')) hrow

theorem replayRequest_no_url {hmac : Json → String → Except String (List UInt8)}
    {settings : Option Json} {now : ℤ} {row : Row} (h : OrdMap.lookupL "webhook_url" row = none) :
    replayRequest hmac settings now row = none := by
  rw [replayRequest, h]
  split <;> rfl

end Rows

section Runs
variable (sorter : Option (Json → Json)) (env : DeliveryEnv)

/- Neither writer names the URL. -/
theorem values_no_url {a : Attempt} {values : List (String × Option Json)}
    (h : a.values sorter env = some values) : OrdMap.lookupL "webhook_url" values = none := by
  cases a with
  | emit d e =>
    simp only [Attempt.values] at h
    split at h
    · next found hemit =>
      cases h
      unfold emitWebhook at hemit
      split at hemit
      · dsimp only at hemit
        split at hemit
        · cases hemit
        · split at hemit
          · cases hemit
          · cases hemit
            rfl
      · cases hemit
    · cases h
  | handle d payload =>
    obtain ⟨row, -, rfl⟩ := Option.map_eq_some_iff.mp h
    rfl

theorem attemptStep_no_url (generated : String → Json) (m : Migration) (ms : List Migration)
    (rows : List Row) (a : Attempt) (h : ∀ row ∈ rows, OrdMap.lookupL "webhook_url" row = none) :
    ∀ row ∈ attemptStep sorter env generated (schemaAfter m ms) rows a,
      OrdMap.lookupL "webhook_url" row = none := by
  simp only [attemptStep, schemaAfter_eq]
  cases hvalues : a.values sorter env with
  | none => exact h
  | some values =>
    dsimp only
    cases hinsert : insertRow generated m.schema values with
    | error message => exact h
    | ok row =>
      obtain ⟨_, _, hfill⟩ := bind_ok hinsert
      intro row' hrow'
      rcases List.mem_append.mp hrow' with hold | hnew
      · exact h row' hold
      · rw [List.mem_singleton.mp hnew]
        exact fillRow_no_url (values_no_url sorter env hvalues) (url_required m) hfill

theorem rowsAfter_no_url (generated : String → Json) (m : Migration) (ms : List Migration)
    (as : List Attempt) (a : Attempt) :
    ∀ row ∈ rowsAfter sorter env generated (schemaAfter m ms) as a,
      OrdMap.lookupL "webhook_url" row = none := by
  refine attemptStep_no_url sorter env generated m ms _ a ?_
  exact run_keeps (attemptStep sorter env generated (schemaAfter m ms))
    (fun rows => ∀ row ∈ rows, OrdMap.lookupL "webhook_url" row = none)
    (attemptStep_no_url sorter env generated m ms) [] as (by simp)

theorem not_replayable {hmac : Json → String → Except String (List UInt8)} {rows : List Row}
    (h : ∀ row ∈ rows, OrdMap.lookupL "webhook_url" row = none) (a : Attempt) :
    ¬ Replayable hmac rows a := by
  rintro ⟨row, hrow, settings, now, request, hrequest, -⟩
  rw [replayRequest_no_url (h row hrow)] at hrequest
  cases hrequest

/-- Whichever migration created the table, in every run of deliveries and whatever the import of
`sortKeys` gives: after a delivery that failed for good no row lets it be replayed. -/
theorem failed_delivery_lost (generated : String → Json) (m : Migration) (ms : List Migration)
    (as : List Attempt) (a : Attempt) : a.failed sorter env = true →
    ¬ Replayable env.hmac (rowsAfter sorter env generated (schemaAfter m ms) as a) a := by
  intro _
  exact not_replayable (rowsAfter_no_url sorter env generated m ms as a) a

end Runs

def noRetryEnv : DeliveryEnv where
  hmac _ _ := .ok (List.replicate 32 0)
  options := ⟨.fin 0, .fin 500, .fin 10000⟩

/- Every request is answered with status 500. -/
def failingDelivery : Delivery where
  timestamp := "2026-07-01T00:00:00.000Z"
  sending _ := ⟨0, fun _ => .ok 500⟩
  draw _ := 0
  accepts := true
  createdAt := 0

def sampleEmission : Emission where
  event := "escrow_funded"
  invoiceId := "inv-1"
  additionalData := []
  tenantId := some (.str "tenant-a")
  settings := some (.obj [("webhook_url", .str "https://example.com/hook"),
    ("webhook_secret", .str "s3cret")])

theorem sample_failed :
    (Attempt.emit failingDelivery sampleEmission).failed none noRetryEnv = true := by
  decide

theorem failed_delivery_lost_sample :
    ¬ Replayable noRetryEnv.hmac (rowsAfter none noRetryEnv (fun _ => .num (.fin 1))
      (schemaAfter .create20260602 [.create20260627]) [] (.emit failingDelivery sampleEmission))
      (.emit failingDelivery sampleEmission) :=
  failed_delivery_lost none noRetryEnv (fun _ => .num (.fin 1)) .create20260602 [.create20260627] []
    (.emit failingDelivery sampleEmission) sample_failed

theorem failed_delivery_not_replayed : ¬ ∀ (sorter : Option (Json → Json)) (env : DeliveryEnv)
    (generated : String → Json) (as : List Attempt) (a : Attempt), a.failed sorter env = true →
    Replayable env.hmac (rowsAfter sorter env generated
      (schemaAfter .create20260602 [.create20260627]) as a) a := by
  intro h
  have hrow := h none noRetryEnv (fun _ => .num (.fin 1)) [] (.emit failingDelivery sampleEmission)
    sample_failed
  exact not_replayable (rowsAfter_no_url none noRetryEnv _ .create20260602 [.create20260627] [] _) _
    hrow

end Liquifact.Webhooks
