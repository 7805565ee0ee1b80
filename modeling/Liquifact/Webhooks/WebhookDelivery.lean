import Liquifact.Utils.Retry
import Liquifact.Webhooks.WebhookService
import Liquifact.Workers.Worker

/-!
# Delivering a webhook (`src/jobs/webhookDelivery.js`)

The handler of `webhook_delivery` jobs (254-379) builds the body from the job's payload,
sends it under `withRetry`, and when that fails writes a dead letter and throws the error
again, so that the queue retries the job. The body is sorted with `sortKeys`, which the
module takes from `services/webhooks.js`; that module defines the function but does not
export it.

The handler is modelled with whatever the import gives. Timeouts, counters and the log are
left out; a request that is aborted is one that fails with an `AbortError`.
-/

namespace Liquifact.Webhooks
open Liquifact.Lib Liquifact.Utils Liquifact.Workers

/-! ### What `services/webhooks.js` exports -/

def insertMember (m : String × Json) : List (String × Json) → List (String × Json)
  | [] => [m]
  | n :: rest => if utf16 m.1 ≤ utf16 n.1 then m :: n :: rest else n :: insertMember m rest

mutual

/- `Object.keys(obj).sort()` orders by UTF-16 code units; the names are taken not to be
array indices, which an object would list first. -/
def sortKeys : Json → Json
  | .arr items => .arr (sortItems items)
  | .obj members => .obj (sortMembers members)
  | v => v

def sortItems : List Json → List Json
  | [] => []
  | v :: rest => sortKeys v :: sortItems rest

def sortMembers : List (String × Json) → List (String × Json)
  | [] => []
  | (name, v) :: rest => insertMember (name, sortKeys v) (sortMembers rest)

end

/- The names of `module.exports` (`webhooks.js:415-425`). -/
def webhooksExports : List String :=
  ["emitWebhook", "verifySignature", "createSignature", "createSignatureHeader", "writeDeadLetter",
    "replayWebhook", "resolveDeadLetter", "SIGNATURE_VERSION", "TOLERANCE_MS"]

/- A name that a destructured `require` takes from the exports; `none` is undefined. -/
def importedFrom {α : Type} (exported : List String) (name : String) (value : α) : Option α :=
  if name ∈ exported then some value else none

/-! ### One request -/

/- What a send throws: the properties `shouldRetry` reads, and the value itself. -/
structure SendError where
  name : String
  code : Option String
  status : Option ℕ
  thrown : Thrown

/- What surrounds one request: the clock, and the status or the error of `fetch`. -/
structure Sending where
  now : ℤ
  fetch : WebhookRequest → Except SendError ℕ

def retryableCodes : List String :=
  ["ECONNRESET", "ETIMEDOUT", "ECONNREFUSED", "ENOTFOUND", "EAI_AGAIN"]

def shouldRetry (err : SendError) : Bool :=
  if err.name = "AbortError" then true
  else match truthy err.code with
    | some code => decide (code ∈ retryableCodes)
    | none =>
      match err.status with
      | some status => decide (500 ≤ status ∧ status < 600)
      | none => false

def typeError (message : String) (code : Option String) : SendError where
  name := "TypeError"
  code := code
  status := none
  thrown := ⟨some message, "TypeError: " ++ message⟩

def sendWebhookRequest (hmac : Json → String → Except String (List UInt8))
    (webhookUrl webhookSecret : Option Json) (rawBody : String) (sending : Sending) :
    Except SendError ℕ :=
  match createSignatureHeader hmac (webhookSecret.getD .null) rawBody sending.now with
  | .error message => .error (typeError message (some "ERR_INVALID_ARG_TYPE"))
  | .ok signature =>
    match sending.fetch ⟨(webhookUrl.map Json.text).getD "undefined", signature, rawBody⟩ with
    | .error err => .error err
    | .ok status =>
      if isOkStatus status then .ok status
      else .error {
        name := "Error"
        code := none
        status := some status
        thrown := .ofMessage ("Webhook responded with " ++ toString status) }

/-! ### One execution of the handler -/

structure DeadLetterRow where
  tenantId : Option Json
  invoiceId : Option Json
  event : Option Json
  payload : String
  lastError : String
  attempts : ℕ
  createdAt : ℤ

/- The process: the hash and `Number(process.env.WEBHOOK_… || default)`. -/
structure DeliveryEnv where
  hmac : Json → String → Except String (List UInt8)
  options : RetryOptions

/- What surrounds one execution: the clock, the requests, the draws of the backoff, and
whether the table takes the row. -/
structure Delivery where
  timestamp : String
  sending : ℕ → Sending
  draw : ℕ → ℚ
  accepts : Bool
  createdAt : ℤ

/- How an execution ends: `none` when it resolves, the row it leaves, the requests made. -/
structure Handled where
  outcome : Option Thrown
  row : Option DeadLetterRow
  requests : ℕ

def threwEarly (message : String) : Handled := ⟨some (typeError message none).thrown, none, 0⟩

/- The members of an object literal that `JSON.stringify` shows. -/
def definedMembers (members : List (String × Option Json)) : List (String × Json) :=
  members.filterMap fun (name, v) => v.map fun v => (name, v)

def deliveryBody (payload transition : Json) (timestamp : String) : Json :=
  .obj (definedMembers [
    ("event", payload.member "event"),
    ("invoiceId", payload.member "invoiceId"),
    ("tenantId", payload.member "tenantId"),
    ("timestamp", some (.str timestamp)),
    ("transition", some (.obj (definedMembers [
      ("from", transition.member "from"),
      ("to", transition.member "to"),
      ("actor", transition.member "actor"),
      ("reason", some ((jsOr (transition.member "reason") none).getD .null)),
      ("transitionedAt", transition.member "transitionedAt")])))])

/- The `try` of the handler and its `catch` (`webhookDelivery.js:317-377`). An insert that
fails is only logged. -/
def deliver (env : DeliveryEnv) (d : Delivery) (payload body : Json) : Handled :=
  let retried := withRetry env.options shouldRetry
    (fun attempt => sendWebhookRequest env.hmac (payload.member "webhookUrl")
      (payload.member "webhookSecret") body.stringify (d.sending attempt)) d.draw
  match retried.result with
  | .ok _ => ⟨none, none, retried.attempts⟩
  | .error finalErr =>
    let row : DeadLetterRow := {
      tenantId := payload.member "tenantId"
      invoiceId := payload.member "invoiceId"
      event := payload.member "event"
      payload := body.stringify
      lastError := finalErr.thrown.describe
      attempts := retried.attempts
      createdAt := d.createdAt }
    ⟨some finalErr.thrown, if d.accepts then some row else none, retried.attempts⟩

/-- `webhookDeliveryHandler` (`webhookDelivery.js:268-378`), with what the import of
`sortKeys` gives. The members of `transition` are read before the call is attempted. -/
def webhookDeliveryHandler (sortKeys : Option (Json → Json)) (env : DeliveryEnv) (d : Delivery)
    (payload : Json) : Handled :=
  match payload with
  | .null => threwEarly "Cannot destructure property 'invoiceId' of 'job.payload' as it is null."
  | payload =>
    match (payload.member "transition").getD (.obj []) with
    | .null => threwEarly "Cannot read properties of null (reading 'from')"
    | transition =>
      match sortKeys with
      | none => threwEarly "sortKeys is not a function"
      | some sortKeys => deliver env d payload (sortKeys (deliveryBody payload transition d.timestamp))

/-- The handler as the modules are linked. -/
def linkedHandler (env : DeliveryEnv) (d : Delivery) (payload : Json) : Handled :=
  webhookDeliveryHandler (importedFrom webhooksExports "sortKeys" sortKeys) env d payload

/-! ### The worker runs the jobs -/

/- `results` are the ends of the executions of the handler so far, `given` the type and the
payload of the jobs enqueued; a job's payload is not written to. -/
structure Deliveries where
  system : System
  given : String → Option (String × Json)
  results : List (String × Handled)

inductive DeliveryAction where
  | deliver (jobId : String) (d : Delivery) (now : ℕ)
  | other (a : Action)

namespace Deliveries

def initial (w : BackgroundWorker) : Deliveries := ⟨.initial w, fun _ => none, []⟩

def isDelivery (s : Deliveries) (jobId : String) : Bool :=
  match s.given jobId with
  | some (type, _) => decide (type = "webhook_delivery")
  | none => false

/- The dead-letter rows of a job. -/
def deadLetters (s : Deliveries) (jobId : String) : List DeadLetterRow :=
  s.results.filterMap fun (x, r) => if x = jobId then r.row else none

def enqueues : Action → Bool
  | .enqueue _ _ _ _ _ => true
  | _ => false

def rememberJob (s : Deliveries) (jobId : String) (now : ℕ) (type : String)
    (payload : Except String Json) (options : EnqueueOptions) (x : String) : Option (String × Json) :=
  match s.system.queueOf.enqueue jobId now type payload options with
  | .ok _ => if x = jobId then payload.toOption.map fun body => (type, body) else s.given x
  | .error _ => s.given x

def remember (s : Deliveries) : Action → String → Option (String × Json)
  | .enqueue jobId now type payload options => s.rememberJob jobId now type payload options
  | _ => s.given

/- `handler` is the function registered for `webhook_delivery`; its end is the `settle` of
the worker. -/
def step (handler : Delivery → Json → Handled) (s : Deliveries) : DeliveryAction → Deliveries
  | .deliver jobId d now =>
    match s.given jobId with
    | some (_, payload) =>
      if jobId ∈ s.system.worker.running then
        { s with
          system := s.system.step (.settle jobId (handler d payload).outcome now)
          results := s.results ++ [(jobId, handler d payload)] }
      else s
    | none => s
  | .other a => { s with system := s.system.step a, given := s.remember a }

/-- The worker alone takes jobs out of the queue, and of a `webhook_delivery` job the
handler is this one. -/
def RunByWorker (s : Deliveries) : DeliveryAction → Prop
  | .deliver jobId _ _ => s.isDelivery jobId = true
  | .other (.settle jobId _ _) => s.isDelivery jobId = false
  | .other (.dequeue _ _) => False
  | .other (.ack _ _) => False
  | .other (.retry _ _ _) => False
  | .other a => s.system.Disciplined a

theorem step_other_system (s : Deliveries) (handler : Delivery → Json → Handled) (a : Action) :
    (s.step handler (.other a)).system = s.system.step a := rfl

theorem step_other (s : Deliveries) (handler : Delivery → Json → Handled) {a : Action}
    (ha : enqueues a = false) :
    s.step handler (.other a) = { s with system := s.system.step a } := by
  have hgiven : s.remember a = s.given := by
    cases a with
    | enqueue jobId now type payload options => cases ha
    | _ => rfl
  rw [step, hgiven]

/- An `enqueue` is refused, or the job is recorded and its payload kept. -/
theorem step_enqueue (s : Deliveries) (handler : Delivery → Json → Handled) (jobId : String)
    (now : ℕ) (type : String) (payload : Except String Json) (options : EnqueueOptions) :
    s.step handler (.other (.enqueue jobId now type payload options)) = s ∨
      ∃ body j q, s.system.queueOf.enqueue jobId now type (.ok body) options = .ok (j, q) ∧
        s.step handler (.other (.enqueue jobId now type payload options)) = { s with
          system := { s.system.withQueue q with drawn := jobId :: s.system.drawn }
          given := fun x => if x = jobId then some (type, body) else s.given x } := by
  cases he : s.system.queueOf.enqueue jobId now type payload options with
  | error e =>
    have hgiven : s.remember (.enqueue jobId now type payload options) = s.given := by
      funext x
      rw [remember, rememberJob, he]
    refine .inl ?_
    simp only [step, System.step, he, hgiven]
  | ok r =>
    obtain ⟨body, rfl, -, -⟩ := JobQueue.enqueue_ok he
    have hgiven : s.remember (.enqueue jobId now type (.ok body) options) =
        fun x => if x = jobId then some (type, body) else s.given x := by
      funext x
      rw [remember, rememberJob, he]
      rfl
    refine .inr ⟨body, r.1, r.2, he, ?_⟩
    simp only [step, System.step, he, hgiven]

/- One dead letter for a job that has failed for good, none for a completed one. -/
def OneDeadLetter (s : Deliveries) (x : String) (job : Job) : Prop :=
  (job.status = .failed → (s.deadLetters x).length = 1) ∧
    (job.status = .completed → (s.deadLetters x).length = 0)

end Deliveries

end Liquifact.Webhooks
