import Liquifact.Lib.Double
import Liquifact.Lib.JsValue

/-!
# Classifying Soroban errors (`src/services/soroban.js`)

`classifySorobanError` (253-308) looks at the transport code of an error, then at its HTTP
status, and consults the message patterns (145-177) when neither says that the error is
transient. Its comment names code and status authoritative and the message attacker-influenced.

A pattern is a choice of phrases between word boundaries, matched without regard to case; an
object is an error here, not a function.
-/

namespace Liquifact.Soroban
open Liquifact.Lib

inductive Category where
  | network
  | rateLimit
  | rpc5xx
  | permanent
  deriving DecidableEq

structure Classification where
  retryable : Bool
  category : Category
  reason : String
  deriving DecidableEq

def permanent (reason : String) : Classification := ⟨false, .permanent, reason⟩

def RETRYABLE_NETWORK_CODES : List String := ["ETIMEDOUT", "ECONNRESET", "ECONNREFUSED"]

/-! ### Phrases -/

/- `\w`. -/
def isWordChar (c : Char) : Bool := c.isAlphanum || c = '_'

def isWordEdge : Option Char → Bool
  | none => true
  | some c => !isWordChar c

/- `\bphrase\b` in the rest of a text after the character `previous`. -/
def phraseFrom (phrase : List Char) (previous : Option Char) : List Char → Bool
  | [] => false
  | c :: r =>
    (isWordEdge previous && phrase.isPrefixOf ((c :: r).map Char.toLower) &&
      isWordEdge ((c :: r).drop phrase.length).head?) || phraseFrom phrase (some c) r

/- `/\b(?:phrase|…)\b/i.test(message)`. -/
def testPhrases (phrases : List String) (message : String) : Bool :=
  phrases.any fun phrase => phraseFrom phrase.toList none message.toList

namespace TRANSIENT_MESSAGE_PATTERNS

def rateLimit : String → Bool := testPhrases ["too many requests", "rate-limit", "rate limit",
  "rate-limited", "rate limited", "rate exceeded"]

def serviceUnavailable : String → Bool := testPhrases ["service unavailable"]

def badGateway : String → Bool := testPhrases ["bad gateway"]

def gatewayTimeout : String → Bool := testPhrases ["gateway timeout"]

def timeout : String → Bool := testPhrases ["timeout", "timed out", "etimedout"]

def network : String → Bool := testPhrases ["network", "econnrefused", "econnreset"]

end TRANSIENT_MESSAGE_PATTERNS

/-! ### The signals -/

/- `c.toUpperCase()`, as far as it is one of the letters of the codes: beside the letters of
ASCII the dotless i and the long s have such a letter for their capital. -/
def upperChar (c : Char) : Char :=
  if c.toNat = 0x131 then 'I' else if c.toNat = 0x17F then 'S' else c.toUpper

def errorCode (err : JsValue) : List Char :=
  ((err.get "code").asString.getD "").toList.map upperChar

def networkCode (err : JsValue) : Option String :=
  RETRYABLE_NETWORK_CODES.find? fun transientCode => transientCode.toList == errorCode err

def isNullish : JsValue → Bool
  | .undefined => true
  | .null => true
  | _ => false

/- `err.status ?? (err.response && err.response.status)`. -/
def rawStatus (err : JsValue) : JsValue :=
  if isNullish (err.get "status") then
    if (err.get "response").truthy then (err.get "response").get "status" else err.get "response"
  else err.get "status"

/- `Number.isInteger(v)`, with the integer. -/
def asInteger : JsValue → Option ℤ
  | .number (.fin q) => if q.den = 1 then some q.num else none
  | _ => none

def classifyStatus (status : ℤ) : Option Classification :=
  if status = 429 then some ⟨true, .rateLimit, "status:429"⟩
  else if status = 502 ∨ status = 503 ∨ status = 504 then
    some ⟨true, .rpc5xx, "status:" ++ toString status⟩
  else none

def classifyMessage (message : String) : Classification :=
  if message = "" then permanent "no-transient-signal"
  else if TRANSIENT_MESSAGE_PATTERNS.rateLimit message then ⟨true, .rateLimit, "message:rate-limit"⟩
  else if TRANSIENT_MESSAGE_PATTERNS.serviceUnavailable message ||
      TRANSIENT_MESSAGE_PATTERNS.badGateway message ||
      TRANSIENT_MESSAGE_PATTERNS.gatewayTimeout message then ⟨true, .rpc5xx, "message:rpc-5xx"⟩
  else if TRANSIENT_MESSAGE_PATTERNS.timeout message then ⟨true, .network, "message:timeout"⟩
  else if TRANSIENT_MESSAGE_PATTERNS.network message then ⟨true, .network, "message:network"⟩
  else permanent "no-transient-signal"

/- The classification by code or status, where they have one. -/
def classifyStructured (err : JsValue) : Option Classification :=
  match networkCode err with
  | some transientCode => some ⟨true, .network, "network-code:" ++ transientCode⟩
  | none => (asInteger (rawStatus err)).bind classifyStatus

def isObject : JsValue → Bool
  | .object _ => true
  | _ => false

def classifySorobanError (err : JsValue) : Classification :=
  if isObject err then
    (classifyStructured err).getD (classifyMessage ((err.get "message").asString.getD ""))
  else permanent "invalid-error-shape"

/-! ### What the message can change -/

/- Two errors with the same members but for the message. -/
def AgreeExceptMessage (ms ms' : List (String × JsValue)) : Prop :=
  ∀ name, name ≠ "message" → (JsValue.object ms').get name = (JsValue.object ms).get name

/- An integer status, at the top or in the response, or a known transport code. -/
def CarriesSignal (err : JsValue) : Prop :=
  (∃ status, asInteger (err.get "status") = some status) ∨
    (∃ status, asInteger ((err.get "response").get "status") = some status) ∨
    (networkCode err).isSome = true

/- A known transport code, or one of the four statuses. -/
def SignalFires (err : JsValue) : Prop :=
  (networkCode err).isSome = true ∨
    ∃ status, asInteger (rawStatus err) = some status ∧ status ∈ ([429, 502, 503, 504] : List ℤ)

theorem classifyStatus_isSome {status : ℤ} :
    (classifyStatus status).isSome = true ↔ status ∈ ([429, 502, 503, 504] : List ℤ) := by
  unfold classifyStatus
  split
  · next h => simp [h]
  · next h429 =>
    split
    · next h => simpa using Or.inr h
    · next h => simpa [h429] using h

theorem signalFires_iff (err : JsValue) :
    SignalFires err ↔ (classifyStructured err).isSome = true := by
  unfold SignalFires classifyStructured
  cases networkCode err with
  | some transientCode => simp
  | none =>
    cases asInteger (rawStatus err) with
    | none => simp
    | some status =>
      rw [Option.bind_some, classifyStatus_isSome]
      simp

theorem classifyStructured_congr {ms ms' : List (String × JsValue)} (h : AgreeExceptMessage ms ms') :
    classifyStructured (.object ms') = classifyStructured (.object ms) := by
  have hcode := h "code" (by decide)
  have hstatus := h "status" (by decide)
  have hresponse := h "response" (by decide)
  simp only [classifyStructured, networkCode, errorCode, rawStatus, hcode, hstatus, hresponse]

/- The members with another message. -/
def withMessage (message : String) (ms : List (String × JsValue)) : List (String × JsValue) :=
  ("message", .string message) :: ms

theorem agree_withMessage (message : String) (ms : List (String × JsValue)) :
    AgreeExceptMessage ms (withMessage message ms) := by
  intro name hname
  simp only [withMessage, JsValue.get, OrdMap.lookupL, if_neg (Ne.symm hname)]

theorem classify_withMessage {ms : List (String × JsValue)}
    (h : classifyStructured (.object ms) = none) (message : String) :
    classifySorobanError (.object (withMessage message ms)) = classifyMessage message := by
  simp only [classifySorobanError, isObject, if_true,
    classifyStructured_congr (agree_withMessage message ms), h]
  rfl

theorem timeout_ne_empty : classifyMessage "timeout" ≠ classifyMessage "" := by
  decide

/-- For every error: each error that agrees with it on everything but the message has the same
classification, if and only if it has a known transport code or the status that counts is one
of 429, 502, 503 and 504. -/
theorem message_ignored_iff (ms : List (String × JsValue)) :
    (∀ ms', AgreeExceptMessage ms ms' →
      classifySorobanError (.object ms') = classifySorobanError (.object ms)) ↔
    SignalFires (.object ms) := by
  rw [signalFires_iff]
  constructor
  · intro h
    by_contra hnone
    rw [Option.isSome_iff_ne_none, not_not] at hnone
    have hplain := h _ (agree_withMessage "" ms)
    have htimeout := h _ (agree_withMessage "timeout" ms)
    rw [classify_withMessage hnone] at hplain htimeout
    exact timeout_ne_empty (htimeout.trans hplain.symm)
  · intro hsome ms' hagree
    obtain ⟨c, hc⟩ := Option.isSome_iff_exists.mp hsome
    simp only [classifySorobanError, isObject, if_true, classifyStructured_congr hagree, hc,
      Option.getD_some]

/- The status says that the request was wrong. -/
def badRequest : List (String × JsValue) := [("status", .number (.fin 400))]

theorem badRequest_unstructured : classifyStructured (.object badRequest) = none := by
  decide

theorem badRequest_message_counts : ¬ ∀ ms ms' : List (String × JsValue),
    AgreeExceptMessage ms ms' → CarriesSignal (.object ms) →
    classifySorobanError (.object ms') = classifySorobanError (.object ms) := by
  intro h
  have hcarries : CarriesSignal (.object (withMessage "" badRequest)) := .inl ⟨400, rfl⟩
  have hagree : AgreeExceptMessage (withMessage "" badRequest) (withMessage "timeout" badRequest) :=
    fun name hname => (agree_withMessage "timeout" badRequest name hname).trans
      (agree_withMessage "" badRequest name hname).symm
  have hsame := h _ _ hagree hcarries
  rw [classify_withMessage badRequest_unstructured, classify_withMessage badRequest_unstructured]
    at hsame
  exact timeout_ne_empty hsame

end Liquifact.Soroban
