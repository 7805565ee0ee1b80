import Liquifact.Lib.JsValue
import Mathlib.Tactic.Common

/-!
# The legal-hold gate (`src/middleware/legalHoldGate.js`, `src/services/escrowRead.js`)

`fetchLegalHoldStatus` (escrowRead.js 174-204) coerces the flag of the on-chain getter into
a tri-state envelope; `legalHoldGate` (173-312) looks the hold of an invoice up by an
injected adapter or by that service, and answers the request or calls `next()`.

The gate imports three helpers, `createProblemResponse` of `problemJson.js` and two
counters of `metrics.js`, that these modules do not export at this commit. `Imports` says
which of the names are bound; calling an unbound one throws a `TypeError`.
-/

namespace Liquifact.Escrow
open Liquifact.Lib

/-! ### Reading the hold -/

inductive LegalHoldStatus where
  | held
  | notHeld
  | unknown
  deriving DecidableEq

def LegalHoldStatus.text : LegalHoldStatus → String
  | .held => "held"
  | .notHeld => "not_held"
  | .unknown => "unknown"

/- `raw === true || raw === 1 || raw === "true"`; the gate's fallback copy has the same body. -/
def coerceLegalHoldStatus : JsValue → LegalHoldStatus
  | .bool true => .held
  | .number x => if x = .fin 1 then .held else .notHeld
  | .string s => if s = "true" then .held else .notHeld
  | _ => .notHeld

structure LegalHoldEnvelope where
  status : LegalHoldStatus
  reason : Option String
  errorCode : Option String

/- An asynchronous lookup by invoice identifier: its value, or what it throws. -/
abbrev Lookup := String → Except JsValue JsValue

/- `typeof err?.code === 'string' ? err.code : undefined`. -/
def errorCodeOf (err : JsValue) : Option String :=
  match err.get "code" with
  | .string c => some c
  | _ => none

section Service
/- The breaker and the retries around an on-chain call (`services/soroban.js`). -/
variable (callSorobanContract : (Unit → Except JsValue JsValue) → Except JsValue JsValue)

/- Without an adapter the operation is a stub that returns `false`. -/
def legalHoldRead (invoiceId : String) (adapter : Option Lookup) : Except JsValue JsValue :=
  callSorobanContract fun _ =>
    match adapter with
    | some adapter => adapter invoiceId
    | none => .ok (.bool false)

def fetchLegalHoldStatus (invoiceId : String) (adapter : Option Lookup) : LegalHoldEnvelope :=
  match legalHoldRead callSorobanContract invoiceId adapter with
  | .ok result => ⟨coerceLegalHoldStatus result, none, none⟩
  | .error err => ⟨.unknown, some "rpc_error", errorCodeOf err⟩

def fetchLegalHold (invoiceId : String) (adapter : Option Lookup) : Bool :=
  decide ((fetchLegalHoldStatus callSorobanContract invoiceId adapter).status = .held)

def stringOrUndefined : Option String → JsValue
  | some s => .string s
  | none => .undefined

def LegalHoldEnvelope.value (e : LegalHoldEnvelope) : JsValue :=
  .object [("status", .string e.status.text), ("reason", stringOrUndefined e.reason),
    ("errorCode", stringOrUndefined e.errorCode)]

/- What the gate reads of the service module; a test double may lack either function. -/
structure ServiceRead where
  fetchLegalHoldStatus : Option Lookup
  fetchLegalHold : Option Lookup

def escrowRead : ServiceRead where
  fetchLegalHoldStatus := some fun id =>
    .ok (Escrow.fetchLegalHoldStatus callSorobanContract id none).value
  fetchLegalHold := some fun id =>
    .ok (.bool (Escrow.fetchLegalHold callSorobanContract id none))

end Service

def resolveTriState (service : ServiceRead) (invoiceId : String) : Except JsValue JsValue :=
  match service.fetchLegalHoldStatus with
  | some fetch => fetch invoiceId
  | none =>
    match service.fetchLegalHold with
    | none => .ok (.object [("status", .string LegalHoldStatus.unknown.text),
        ("reason", .string "service_unavailable")])
    | some fetch =>
      match fetch invoiceId with
      | .ok held => .ok (.object [("status", .string (coerceLegalHoldStatus held).text)])
      | .error err => .ok (LegalHoldEnvelope.mk .unknown "adapter_error" (errorCodeOf err)).value

/-! ### The middleware -/

structure GateRequest where
  params : Option Json
  body : Option Json
  originalUrl : String

structure GateOptions where
  legalHoldAdapter : Option Lookup
  legalHoldStatusAdapter : Option Lookup

structure Problem where
  status : ℕ
  title : String
  detail : String
  type : Option String
  instanceUrl : String

inductive Effect where
  | incrementLegalHoldBlocks (invoiceId : String)
  | incrementLegalHoldUnknownBlocks (invoiceId : String) (reason errorCode : JsValue)
  | createProblemResponse (problem : Problem)
  | next

structure Imports where
  createProblemResponse : Bool
  incrementLegalHoldBlocks : Bool
  incrementLegalHoldUnknownBlocks : Bool

def Effect.name : Effect → String
  | .incrementLegalHoldBlocks _ => "incrementLegalHoldBlocks"
  | .incrementLegalHoldUnknownBlocks _ _ _ => "incrementLegalHoldUnknownBlocks"
  | .createProblemResponse _ => "createProblemResponse"
  | .next => "next"

def Effect.bound (imports : Imports) : Effect → Bool
  | .incrementLegalHoldBlocks _ => imports.incrementLegalHoldBlocks
  | .incrementLegalHoldUnknownBlocks _ _ _ => imports.incrementLegalHoldUnknownBlocks
  | .createProblemResponse _ => imports.createProblemResponse
  | .next => true

def typeError (message : String) : JsValue :=
  .object [("name", .string "TypeError"), ("message", .string message)]

/-- What a call of the middleware did, and the value it rejected with if it did. -/
structure Outcome where
  effects : List Effect
  thrown : Option JsValue

def perform (imports : Imports) : List Effect → Outcome
  | [] => ⟨[], none⟩
  | e :: es =>
    if e.bound imports then ⟨e :: (perform imports es).effects, (perform imports es).thrown⟩
    else ⟨[], some (typeError (e.name ++ " is not a function"))⟩

def Outcome.passed (o : Outcome) : Bool :=
  o.effects.any fun
    | .next => true
    | _ => false

/- `try … catch (err)`. -/
def Outcome.catch (o : Outcome) (handler : JsValue → Outcome) : Outcome :=
  match o.thrown with
  | none => o
  | some err => ⟨o.effects ++ (handler err).effects, (handler err).thrown⟩

def requestedInvoice (req : GateRequest) : Option Json :=
  jsOr (req.params.bind (Json.member "invoiceId")) (req.body.bind (Json.member "invoiceId"))

/- `!invoiceId || typeof invoiceId !== 'string' || invoiceId.trim() === ''` refuses. -/
def cleanInvoiceId (req : GateRequest) : Option String :=
  match requestedInvoice req with
  | some (.str s) => if trim s = "" then none else some (trim s)
  | _ => none

structure Finding where
  status : JsValue
  reason : JsValue
  errorCode : JsValue

def findingOf (envelope : JsValue) : Finding :=
  ⟨envelope.get "status", envelope.get "reason", envelope.get "errorCode"⟩

def lookupHold (service : ServiceRead) (options : GateOptions) (invoiceId : String) :
    Except JsValue Finding :=
  match options.legalHoldStatusAdapter with
  | some adapter => do
    let envelope ← adapter invoiceId
    -- `envelope && envelope.status`, and so on
    .ok (if envelope.truthy then findingOf envelope else ⟨envelope, envelope, envelope⟩)
  | none =>
    match options.legalHoldAdapter with
    | some adapter => do
      let raw ← adapter invoiceId
      .ok ⟨.string (coerceLegalHoldStatus raw).text, .undefined, .undefined⟩
    | none => do
      match ← resolveTriState service invoiceId with
      | .undefined => .error (typeError "Cannot read properties of undefined (reading 'status')")
      | .null => .error (typeError "Cannot read properties of null (reading 'status')")
      | envelope => .ok (findingOf envelope)

def missingInvoice (req : GateRequest) : Problem where
  status := 400
  title := "Bad Request"
  detail := "An invoice identifier (invoiceId) is strictly required to evaluate legal hold " ++
    "constraints."
  type := none
  instanceUrl := req.originalUrl

def holdActive (req : GateRequest) (invoiceId : String) : Problem where
  status := 423
  title := "Legal Hold Active"
  detail := "Operation rejected: Invoice " ++ invoiceId ++
    " is currently placed under an active legal hold constraint."
  type := none
  instanceUrl := req.originalUrl

def statusUnavailable (req : GateRequest) (detail : String) : Problem where
  status := 503
  title := "Legal Hold Status Unavailable"
  detail := detail
  type := some "https://liquifact.com/probs/legal-hold-status-unavailable"
  instanceUrl := req.originalUrl

def unverified (req : GateRequest) : Problem := statusUnavailable req
  ("Funding is paused because the legal-hold status of this invoice could not be verified. " ++
    "This is a fail-closed condition: a transient read failure must not allow capital movement " ++
    "for an invoice whose hold state is unknown. Retry after the upstream service recovers.")

def raisedUnexpectedly (req : GateRequest) : Problem := statusUnavailable req
  ("Funding is paused because the legal-hold check raised an unexpected error. " ++
    "This is a fail-closed condition; retry after the upstream service recovers.")

section Gate
variable (imports : Imports)

/- The branches after the lookup; a status that is neither `held` nor `unknown` passes. -/
def decideHold (req : GateRequest) (invoiceId : String) (found : Finding) : Outcome :=
  if found.status.isText LegalHoldStatus.held.text then
    perform imports [.incrementLegalHoldBlocks invoiceId,
      .createProblemResponse (holdActive req invoiceId)]
  else if found.status.isText LegalHoldStatus.unknown.text then
    perform imports [.incrementLegalHoldUnknownBlocks invoiceId
        (found.reason.or (.string "unknown")) (found.errorCode.or .null),
      .createProblemResponse (unverified req)]
  else perform imports [.next]

def fallClosed (req : GateRequest) (invoiceId : String) (err : JsValue) : Outcome :=
  perform imports [.incrementLegalHoldUnknownBlocks invoiceId (.string "adapter_error")
      ((err.get "code").or .null),
    .createProblemResponse (raisedUnexpectedly req)]

/-- `legalHoldGate(options)` applied to a request. -/
def checkLegalHold (service : ServiceRead) (options : GateOptions) (req : GateRequest) : Outcome :=
  match cleanInvoiceId req with
  | none => perform imports [.createProblemResponse (missingInvoice req)]
  | some id =>
    Outcome.catch
      (match lookupHold service options id with
        | .ok found => decideHold imports req id found
        | .error err => ⟨[], some err⟩)
      (fallClosed imports req id)

end Gate

/-! ### What the gate lets through -/

/- What the lookup for an invoice answered: an envelope, a flag, or a failure. -/
inductive Answer where
  | envelope (v : JsValue)
  | flag (raw : JsValue)
  | failed (err : JsValue)

def answerOf (shape : JsValue → Answer) : Except JsValue JsValue → Answer
  | .ok v => shape v
  | .error err => .failed err

def holdAnswer (callSorobanContract : (Unit → Except JsValue JsValue) → Except JsValue JsValue)
    (options : GateOptions) (invoiceId : String) : Answer :=
  match options.legalHoldStatusAdapter with
  | some adapter => answerOf .envelope (adapter invoiceId)
  | none =>
    match options.legalHoldAdapter with
    | some adapter => answerOf .flag (adapter invoiceId)
    | none => answerOf .flag (legalHoldRead callSorobanContract invoiceId none)

/-- The lookup completed and says `not_held`; a flag says it by being falsy. -/
def Answer.reportsNotHeld : Answer → Bool
  | .envelope v => (v.get "status").isText LegalHoldStatus.notHeld.text
  | .flag raw => !raw.truthy
  | .failed _ => false

/-- The answers that block as held: a flag is one of `true`, `1` and `"true"`. -/
def Answer.reportsHeld : Answer → Bool
  | .envelope v => (v.get "status").isText LegalHoldStatus.held.text
  | .flag raw => decide (coerceLegalHoldStatus raw = .held)
  | .failed _ => false

def Answer.reportsUnknown : Answer → Bool
  | .envelope v => (v.get "status").isText LegalHoldStatus.unknown.text
  | .flag _ => false
  | .failed _ => true

def Outcome.Passes (o : Outcome) : Prop := Effect.next ∈ o.effects

def Outcome.Refuses (o : Outcome) : Prop :=
  ∃ p, Effect.createProblemResponse p ∈ o.effects ∧ 400 ≤ p.status

/-- `next()` only if a lookup reported the invoice as not held, else an error response. -/
def FailsClosed (reported : Prop) (o : Outcome) : Prop :=
  (o.Passes → reported) ∧ (¬ reported → o.Refuses ∧ ¬ o.Passes)

theorem failsClosed_of_not_passes {reported c : Prop} {o : Outcome} (hpass : ¬ o.Passes)
    (hrefuse : o.Refuses ↔ c) : FailsClosed reported o ↔ reported ∨ c := by
  constructor
  · intro h
    by_cases hr : reported
    · exact .inl hr
    · exact .inr (hrefuse.mp (h.2 hr).1)
  · intro h
    refine ⟨fun hp => absurd hp hpass, fun hr => ⟨?_, hpass⟩⟩
    exact hrefuse.mpr (h.resolve_left hr)

@[simp] theorem missingInvoice_status (req : GateRequest) : (missingInvoice req).status = 400 := rfl

@[simp] theorem holdActive_status (req : GateRequest) (id : String) :
    (holdActive req id).status = 423 := rfl

@[simp] theorem unverified_status (req : GateRequest) : (unverified req).status = 503 := rfl

@[simp] theorem raisedUnexpectedly_status (req : GateRequest) :
    (raisedUnexpectedly req).status = 503 := rfl

section Branches
variable (imports : Imports) (req : GateRequest) (id : String)

theorem failsClosed_next (reported : Prop) (handler : JsValue → Outcome) :
    FailsClosed reported ((perform imports [.next]).catch handler) ↔ reported := by
  have hpass : ((perform imports [.next]).catch handler).Passes := by
    simp [perform, Effect.bound, Outcome.catch, Outcome.Passes]
  constructor
  · intro h
    exact h.1 hpass
  · intro h
    exact ⟨fun _ => h, fun hn => absurd h hn⟩

theorem missing_refuses :
    ¬ (perform imports [.createProblemResponse (missingInvoice req)]).Passes ∧
      ((perform imports [.createProblemResponse (missingInvoice req)]).Refuses ↔
        imports.createProblemResponse = true) := by
  cases hc : imports.createProblemResponse <;>
    simp [perform, Effect.bound, Outcome.Passes, Outcome.Refuses, hc]

theorem fallClosed_refuses (err : JsValue) :
    ¬ (fallClosed imports req id err).Passes ∧
      ((fallClosed imports req id err).Refuses ↔
        imports.createProblemResponse = true ∧ imports.incrementLegalHoldUnknownBlocks = true) := by
  cases hc : imports.createProblemResponse <;> cases hu : imports.incrementLegalHoldUnknownBlocks <;>
    simp [fallClosed, perform, Effect.bound, Outcome.Passes, Outcome.Refuses, hc, hu]

/- The counter of verified blocks may be missing: its `TypeError` is caught, and answered. -/
theorem held_refuses {found : Finding} (h : found.status.isText LegalHoldStatus.held.text = true) :
    ¬ ((decideHold imports req id found).catch (fallClosed imports req id)).Passes ∧
      (((decideHold imports req id found).catch (fallClosed imports req id)).Refuses ↔
        imports.createProblemResponse = true ∧ (imports.incrementLegalHoldBlocks = true ∨
          imports.incrementLegalHoldUnknownBlocks = true)) := by
  rw [decideHold, if_pos h]
  cases hc : imports.createProblemResponse <;> cases hb : imports.incrementLegalHoldBlocks <;>
    cases hu : imports.incrementLegalHoldUnknownBlocks <;>
    simp [fallClosed, perform, Effect.bound, Outcome.catch, Outcome.Passes, Outcome.Refuses,
      hc, hb, hu]

theorem unknown_refuses {found : Finding}
    (hheld : found.status.isText LegalHoldStatus.held.text = false)
    (h : found.status.isText LegalHoldStatus.unknown.text = true) :
    ¬ ((decideHold imports req id found).catch (fallClosed imports req id)).Passes ∧
      (((decideHold imports req id found).catch (fallClosed imports req id)).Refuses ↔
        imports.createProblemResponse = true ∧
          imports.incrementLegalHoldUnknownBlocks = true) := by
  rw [decideHold, if_neg (by rw [hheld]; exact Bool.false_ne_true), if_pos h]
  cases hc : imports.createProblemResponse <;>
    cases hu : imports.incrementLegalHoldUnknownBlocks <;>
    simp [fallClosed, perform, Effect.bound, Outcome.catch, Outcome.Passes, Outcome.Refuses,
      hc, hu]

end Branches

/-! ### When it fails closed -/

theorem isText_string (s text : String) : (JsValue.string s).isText text = decide (s = text) := rfl

/- The status the gate branches on says what the answer says. -/
structure Found (a : Answer) (found : Finding) : Prop where
  held : found.status.isText LegalHoldStatus.held.text = a.reportsHeld
  unknown : found.status.isText LegalHoldStatus.unknown.text = a.reportsUnknown

theorem found_envelope (v : JsValue) :
    Found (.envelope v) (if v.truthy then findingOf v else ⟨v, v, v⟩) := by
  cases hv : v.truthy with
  | true => exact ⟨rfl, rfl⟩
  | false =>
    -- a falsy envelope stands for its own status, which is no status text
    cases v with
    | string s =>
      simp only [JsValue.truthy, ne_eq, decide_not, Bool.not_eq_false', decide_eq_true_eq] at hv
      subst hv
      exact ⟨rfl, rfl⟩
    | symbol => cases hv
    | object members => cases hv
    | undefined => exact ⟨rfl, rfl⟩
    | null => exact ⟨rfl, rfl⟩
    | bool b => exact ⟨rfl, rfl⟩
    | number x => exact ⟨rfl, rfl⟩
    | bigint n => exact ⟨rfl, rfl⟩

theorem coerceLegalHoldStatus_eq (raw : JsValue) :
    coerceLegalHoldStatus raw = .held ∨ coerceLegalHoldStatus raw = .notHeld := by
  cases h : coerceLegalHoldStatus raw with
  | held => exact .inl rfl
  | notHeld => exact .inr rfl
  | unknown =>
    unfold coerceLegalHoldStatus at h
    split at h
    · cases h
    · split at h <;> cases h
    · split at h <;> cases h
    · cases h

theorem found_flag (raw : JsValue) (reason errorCode : JsValue) :
    Found (.flag raw) ⟨.string (coerceLegalHoldStatus raw).text, reason, errorCode⟩ := by
  rcases coerceLegalHoldStatus_eq raw with h | h
  · constructor
    · simp [isText_string, Answer.reportsHeld, h]
    · simp [isText_string, Answer.reportsUnknown, LegalHoldStatus.text, h]
  · constructor
    · simp [isText_string, Answer.reportsHeld, LegalHoldStatus.text, h]
    · simp [isText_string, Answer.reportsUnknown, LegalHoldStatus.text, h]

section Decision
variable (callSorobanContract : (Unit → Except JsValue JsValue) → Except JsValue JsValue)

theorem lookupHold_spec (options : GateOptions) (id : String) :
    (∃ found, lookupHold (escrowRead callSorobanContract) options id = .ok found ∧
      Found (holdAnswer callSorobanContract options id) found) ∨
    (∃ err, lookupHold (escrowRead callSorobanContract) options id = .error err ∧
      holdAnswer callSorobanContract options id = .failed err) := by
  unfold lookupHold holdAnswer
  cases options.legalHoldStatusAdapter with
  | some adapter =>
    cases h : adapter id with
    | ok v =>
      simp only [h, answerOf]
      exact .inl ⟨_, rfl, found_envelope v⟩
    | error err =>
      simp only [h, answerOf]
      exact .inr ⟨err, rfl, rfl⟩
  | none =>
    cases options.legalHoldAdapter with
    | some adapter =>
      cases h : adapter id with
      | ok raw =>
        simp only [h, answerOf]
        exact .inl ⟨_, rfl, found_flag raw _ _⟩
      | error err =>
        simp only [h, answerOf]
        exact .inr ⟨err, rfl, rfl⟩
    | none =>
      refine .inl ⟨_, rfl, ?_⟩
      -- the service never throws: a failed read is an envelope with status `unknown`
      cases h : legalHoldRead callSorobanContract id none with
      | ok raw =>
        simp only [fetchLegalHoldStatus, h]
        exact found_flag raw _ _
      | error err =>
        simp only [fetchLegalHoldStatus, h]
        exact ⟨rfl, rfl⟩

/- The answers the gate accounts for, with the helpers it needs to do so. -/
def Accounted (imports : Imports) (a : Answer) : Prop :=
  a.reportsNotHeld = true ∨ imports.createProblemResponse = true ∧
    (a.reportsHeld = true ∧ (imports.incrementLegalHoldBlocks = true ∨
        imports.incrementLegalHoldUnknownBlocks = true) ∨
      a.reportsUnknown = true ∧ imports.incrementLegalHoldUnknownBlocks = true)

theorem failsClosed_decided (imports : Imports) (req : GateRequest) (id : String)
    (options : GateOptions) :
    FailsClosed ((holdAnswer callSorobanContract options id).reportsNotHeld = true)
      (Outcome.catch
        (match lookupHold (escrowRead callSorobanContract) options id with
          | .ok found => decideHold imports req id found
          | .error err => ⟨[], some err⟩)
        (fallClosed imports req id)) ↔
      Accounted imports (holdAnswer callSorobanContract options id) := by
  unfold Accounted
  rcases lookupHold_spec callSorobanContract options id with ⟨found, hok, hfound⟩ | ⟨err, herr, ha⟩
  · simp only [hok]
    cases hh : (holdAnswer callSorobanContract options id).reportsHeld with
    | true =>
      obtain ⟨hpass, hrefuse⟩ := held_refuses imports req id (hfound.held.trans hh)
      rw [failsClosed_of_not_passes hpass hrefuse]
      simp only [true_and]
      refine or_congr_right (and_congr_right fun _ => ?_)
      constructor
      · exact .inl
      · intro h
        rcases h with h | ⟨-, h⟩
        · exact h
        · exact .inr h
    | false =>
      cases hu : (holdAnswer callSorobanContract options id).reportsUnknown with
      | true =>
        obtain ⟨hpass, hrefuse⟩ := unknown_refuses imports req id (hfound.held.trans hh)
          (hfound.unknown.trans hu)
        rw [failsClosed_of_not_passes hpass hrefuse]
        simp
      | false =>
        have hnext : decideHold imports req id found = perform imports [.next] := by
          simp only [decideHold, hfound.held.trans hh, hfound.unknown.trans hu,
            Bool.false_eq_true, if_false]
        rw [hnext, failsClosed_next]
        simp
  · obtain ⟨hpass, hrefuse⟩ := fallClosed_refuses imports req id err
    simp only [herr, ha]
    change FailsClosed _ (fallClosed imports req id err) ↔ _
    rw [failsClosed_of_not_passes hpass hrefuse]
    simp [Answer.reportsHeld, Answer.reportsUnknown]

/-- The gate fails closed exactly on requests without an invoice and on lookups whose
answer it knows, as far as the helpers that send the refusal are bound. -/
theorem gate_failsClosed_iff (imports : Imports) (options : GateOptions) (req : GateRequest) :
    FailsClosed (∃ id, cleanInvoiceId req = some id ∧
        (holdAnswer callSorobanContract options id).reportsNotHeld = true)
      (checkLegalHold imports (escrowRead callSorobanContract) options req) ↔
      (cleanInvoiceId req = none ∧ imports.createProblemResponse = true) ∨
        ∃ id, cleanInvoiceId req = some id ∧
          Accounted imports (holdAnswer callSorobanContract options id) := by
  unfold checkLegalHold
  cases hid : cleanInvoiceId req with
  | none =>
    obtain ⟨hpass, hrefuse⟩ := missing_refuses imports req
    simp only [reduceCtorEq, false_and, exists_false, or_false, true_and]
    rw [failsClosed_of_not_passes hpass hrefuse, false_or]
  | some id =>
    simp only [Option.some.injEq, exists_eq_left', reduceCtorEq, false_and, false_or]
    exact failsClosed_decided callSorobanContract imports req id options

end Decision

/- An envelope of a held invoice whose status is not spelt as the constant is. -/
def misspeltHold : GateOptions := ⟨none, some fun _ => .ok (.object [("status", .string "HELD")])⟩

def fundRequest : GateRequest := ⟨none, some (.obj [("invoiceId", .str "inv_1")]), "/fund-invoice"⟩

theorem cleanInvoiceId_fundRequest : cleanInvoiceId fundRequest = some "inv_1" := by
  decide

theorem gate_passes_misspelt_hold :
    ¬ FailsClosed (∃ id, cleanInvoiceId fundRequest = some id ∧
        (holdAnswer (fun operation => operation ()) misspeltHold id).reportsNotHeld = true)
      (checkLegalHold ⟨true, true, true⟩ (escrowRead fun operation => operation ())
        misspeltHold fundRequest) := by
  intro hclosed
  have hpass : (checkLegalHold ⟨true, true, true⟩ (escrowRead fun operation => operation ())
      misspeltHold fundRequest).Passes := by
    unfold checkLegalHold
    rw [cleanInvoiceId_fundRequest]
    exact List.mem_singleton.mpr rfl
  obtain ⟨id, -, hreport⟩ := hclosed.1 hpass
  have hnot : (holdAnswer (fun operation => operation ()) misspeltHold id).reportsNotHeld = false := rfl
  rw [hnot] at hreport
  cases hreport

end Liquifact.Escrow
