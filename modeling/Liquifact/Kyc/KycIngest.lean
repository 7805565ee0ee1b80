import Liquifact.Kyc.KycService
import Liquifact.Lib.Fallible
import Liquifact.Webhooks.VerifySignature

/-!
# Who vouches for a KYC status (`src/routes/kyc.js`, `src/services/kycService.js`)

`POST /webhook` of the KYC routes (kyc.js 34-95) stores what a body says whose signature is
verified; the decisions of the operators and the answers of the provider are stored as in the
system of the calls, and all of them go on in any order. Anybody may post a webhook.

`getKycStatus` (347-382) reads the name of a cache that the module does not declare unless
`KYC_STATUS_CACHE_TTL_SECONDS` switches the cache off, and falls back to the stored row. Without
a configured provider it also knows the decisions that were kept in memory.
-/

namespace Liquifact.Kyc
open Liquifact.Lib Liquifact.Webhooks

/-! ### Configuration -/

/- The environment variables `KYC_PROVIDER_API_KEY`, `KYC_PROVIDER_URL`, `KYC_PROVIDER_SECRET`
and `KYC_STATUS_CACHE_TTL_SECONDS`. -/
structure KycEnv where
  apiKey : Option String
  baseUrl : Option String
  apiSecret : Option String
  cacheTtlSeconds : Option String

def getStatusCacheTtlMs (raw : Option String) : Except String JsNumber :=
  match truthy raw with
  | none => .error "DEFAULT_STATUS_CACHE_TTL_SECONDS is not defined"
  | some text =>
    match stringToNumber text with
    | .fin seconds =>
      if seconds ≤ 0 then .ok (.fin 0)
      else match roundDouble (seconds * 1000) with
        | .fin ms => .ok (.fin ⌊ms⌋)
        | x => .ok x
    | _ => .ok (.fin 0)

namespace KycEnv

def enabled (env : KycEnv) : Bool := (truthy env.apiKey).isSome && (truthy env.baseUrl).isSome

/- `readProviderStatusCached` up to the call of the provider, or what it throws before. -/
def readProviderStatusCached (env : KycEnv) : Except String Unit := do
  let ttlMs ← getStatusCacheTtlMs env.cacheTtlSeconds
  if JsNumber.le ttlMs (.fin 0) then .ok () else .error "STATUS_CACHE_KEY_PREFIX is not defined"

def asksProvider (env : KycEnv) : Bool := env.enabled && env.readProviderStatusCached.isOk

end KycEnv

structure WebhookCall where
  signatureHeader : Option String
  rawBody : String

/- What the body names: the SME, and the record to store for it. -/
def readPayload (payload : Json) (now : ℕ) : Except String (String × KycRow) :=
  match jsOr (payload.member "smeId") (payload.member "sme_id") with
  | some (.str smeId) =>
    if smeId = "" then .error "Missing or invalid smeId"
    else match jsOr (payload.member "status") (jsOr (payload.member "kycStatus")
        (payload.member "kyc_status")) with
      | some (.str status) =>
        if status = "" then .error "Missing or invalid status"
        else .ok (smeId, kycRecord (normalizeProviderStatus (some (.str status)))
          (jsOr (payload.member "recordId") (jsOr (payload.member "providerRecordId")
            (payload.member "provider_record_id")))
          (jsOr (payload.member "verifiedAt") (payload.member "verified_at")) now)
      | _ => .error "Missing or invalid status"
  | _ => .error "Missing or invalid smeId"

def ingest (sha256 : Hmac) (env : KycEnv) (call : WebhookCall) (now : ℕ) :
    Except String (String × KycRow) :=
  match truthy env.apiSecret, truthy call.signatureHeader with
  | none, _ => .error "KYC webhook ingestion is not configured"
  | some _, none => .error "Missing X-Signature header"
  | some secret, some header => do
    let verification ← verifySignature sha256 secret call.rawBody TOLERANCE_MS now header
    require (verification.valid = true) "Invalid webhook signature"
    match Json.parse call.rawBody with
    | none => .error "Invalid JSON payload"
    -- a member of null is read
    | some .null => .error "Cannot read properties of null (reading 'smeId')"
    | some payload => readPayload payload now

/-! ### The service -/

/- `mockKycRecords` beside the calls and the table. -/
structure KycIngest where
  core : KycSystem
  mockKycRecords : OrdMap String KycState

inductive IngestStep where
  | getKycStatus (callId smeId : String)
  | decide (callId smeId : String) (decision : Decision) (now : ℕ)
  | webhook (callId : String) (call : WebhookCall) (now : ℕ)
  | resume (callId : String) (arrival : Arrival)

def pendingState : KycState := ⟨.pending, .null, .null⟩

namespace KycIngest

def initial (rows : OrdMap String KycRow) : KycIngest := ⟨.initial rows, .empty⟩

/- What is returned when the stored row is read. -/
def fallback (env : KycEnv) (s : KycIngest) (smeId : String) : KycState :=
  match s.core.rows.get smeId with
  | some row => row.state
  | none => if env.enabled then pendingState else (s.mockKycRecords.get smeId).getD pendingState

def step (sha256 : Hmac) (env : KycEnv) (s : KycIngest) : IngestStep → KycIngest
  | .getKycStatus callId smeId =>
    let phase := if env.asksProvider then .requested else .reading
    { s with core := s.core.start callId smeId .getKycStatus phase }
  | .decide callId smeId decision now =>
    if s.core.calls.has callId ∨ smeId = "" then s
    else
      { core := s.core.step (.decide callId smeId decision now)
        mockKycRecords := s.mockKycRecords.set smeId (decision.record smeId now).state }
  | .webhook callId call now =>
    match ingest sha256 env call now with
    | .error _ => s
    | .ok (smeId, record) =>
      { s with core := s.core.start callId smeId (.decision false) (.selecting record) }
  | .resume callId arrival =>
    match s.core.calls.get callId, arrival with
    | some ⟨smeId, kind, .reading, completedBefore⟩, .read none =>
      let read := ⟨smeId, kind, .returning (.ok (s.fallback env smeId)), completedBefore⟩
      { s with core := s.core.goTo callId read }
    | _, _ => { s with core := s.core.step (.resume callId arrival) }

end KycIngest

/-! ### Where a record comes from -/

/-- A step of the run that gives this record for the SME. -/
inductive Source (sha256 : Hmac) (env : KycEnv) (as : List IngestStep) (smeId : String) (row : KycRow) :
    Prop where
  | decided {callId : String} {decision : Decision} {now : ℕ}
      (hstep : .decide callId smeId decision now ∈ as) (hrow : row = decision.record smeId now)
  | answered {callId : String} {a : ProviderAnswer} {now : ℕ}
      (hstep : .resume callId (.answer a now) ∈ as) (hasked : env.asksProvider = true)
      (hrow : answerRecord smeId now a = .ok row)
  | posted {callId : String} {call : WebhookCall} {now : ℕ}
      (hstep : .webhook callId call now ∈ as) (hrow : ingest sha256 env call now = .ok (smeId, row))

/- A state that a call returns: none known, or that of a record with a source. -/
def StateFrom (known : KycRow → Prop) (st : KycState) : Prop :=
  st = pendingState ∨ ∃ row, known row ∧ st = row.state

section Sources
variable (sha256 : Hmac) (env : KycEnv) (rows : OrdMap String KycRow) (as : List IngestStep)

def Known (smeId : String) (row : KycRow) : Prop :=
  rows.get smeId = some row ∨ Source sha256 env as smeId row

structure Call.Sourced (c : Call) : Prop where
  asked : c.phase = .requested → env.asksProvider = true
  record : ∀ row, c.phase.record = some row → Source sha256 env as c.smeId row
  state : ∀ st, c.phase = .returning (.ok st) ∨ c.phase = .returned (.ok st) →
    StateFrom (Known sha256 env rows as c.smeId) st

structure KycIngest.Sourced (s : KycIngest) : Prop where
  stored : ∀ smeId row, s.core.rows.get smeId = some row → Known sha256 env rows as smeId row
  calls : ∀ callId c, s.core.calls.get callId = some c → c.Sourced sha256 env rows as
  kept : ∀ smeId st, s.mockKycRecords.get smeId = some st →
    StateFrom (Known sha256 env rows as smeId) st

end Sources

section Steps
variable {sha256 : Hmac} {env : KycEnv} {rows : OrdMap String KycRow} {as : List IngestStep}
  {s : KycIngest} {callId : String} {c : Call}

theorem sourced_of_silent (c : Call) {phase : Phase} (hasked : phase ≠ .requested)
    (hrecord : phase.record = none)
    (hstate : ∀ st, phase ≠ .returning (.ok st) ∧ phase ≠ .returned (.ok st)) :
    ({ c with phase := phase } : Call).Sourced sha256 env rows as where
  asked h := absurd h hasked
  record row h := by
    change phase.record = _ at h
    rw [hrecord] at h
    cases h
  state st h := by
    rcases h with h | h
    · exact absurd h (hstate st).1
    · exact absurd h (hstate st).2

theorem sourced_threw (c : Call) (message : String) :
    (c.threw message).Sourced sha256 env rows as := by
  unfold Call.threw
  split
  · exact sourced_of_silent c (by simp) rfl (by simp)
  · exact sourced_of_silent c (by simp) rfl (by simp)

theorem sourced_of_record (c : Call) {phase : Phase} {record : KycRow} (h : phase.record = some record)
    (hrecord : Source sha256 env as c.smeId record) :
    ({ c with phase := phase } : Call).Sourced sha256 env rows as where
  asked hp := by
    change phase = _ at hp
    rw [hp] at h
    cases h
  record row hr := by
    change phase.record = _ at hr
    rw [h] at hr
    cases hr
    exact hrecord
  state st hp := by
    change phase = _ ∨ phase = _ at hp
    rcases hp with hp | hp <;> rw [hp] at h <;> cases h

theorem sourced_of_state (c : Call) {phase : Phase} {st : KycState}
    (h : phase = .returning (.ok st) ∨ phase = .returned (.ok st))
    (hstate : StateFrom (Known sha256 env rows as c.smeId) st) :
    ({ c with phase := phase } : Call).Sourced sha256 env rows as where
  asked hp := by
    change phase = _ at hp
    rcases h with h | h <;> rw [hp] at h <;> cases h
  record row hr := by
    change phase.record = _ at hr
    rcases h with h | h <;> rw [h] at hr <;> cases hr
  state st' hp := by
    change phase = _ ∨ phase = _ at hp
    rcases h with rfl | rfl <;> rcases hp with hp | hp <;> cases hp <;> exact hstate

namespace KycIngest

/- A call moves on, and the table stays. -/
theorem Sourced.goTo (h : s.Sourced sha256 env rows as) (hc : c.Sourced sha256 env rows as) :
    ({ s with core := s.core.goTo callId c } : KycIngest).Sourced sha256 env rows as where
  stored := h.stored
  kept := h.kept
  calls x c' hget := by
    simp only [KycSystem.goTo, OrdMap.get_set] at hget
    split at hget
    · cases hget
      exact hc
    · exact h.calls x c' hget

theorem Sourced.start (h : s.Sourced sha256 env rows as) {smeId : String} {kind : CallKind}
    {phase : Phase}
    (hc : Call.Sourced sha256 env rows as ⟨smeId, kind, phase, s.core.completed⟩) :
    ({ s with core := s.core.start callId smeId kind phase } : KycIngest).Sourced sha256 env rows as := by
  unfold KycSystem.start
  split
  · exact h
  · exact h.goTo hc

/- A write stores the record of its call. -/
theorem Sourced.write (h : s.Sourced sha256 env rows as) {record : KycRow} (existing : Bool)
    (hrecord : Source sha256 env as c.smeId record) :
    ({ s with core := s.core.write callId c record existing } : KycIngest).Sourced
      sha256 env rows as := by
  have hwrote : ∀ table : OrdMap String KycRow,
      (∀ x row, table.get x = some row → (x = c.smeId ∧ row = record) ∨ s.core.rows.get x = some row) →
      ({ s with core := s.core.wrote callId c record table } : KycIngest).Sourced
        sha256 env rows as := by
    intro table htable
    refine ⟨?_, ?_, h.kept⟩
    · intro x row hrow
      rcases htable x row hrow with ⟨rfl, rfl⟩ | hold
      · exact .inr hrecord
      · exact h.stored x row hold
    · intro x c' hget
      simp only [KycSystem.wrote, OrdMap.get_set] at hget
      split at hget
      · cases hget
        exact sourced_of_state c (.inl rfl) (.inr ⟨record, .inr hrecord, rfl⟩)
      · exact h.calls x c' hget
  unfold KycSystem.write
  split
  · refine hwrote _ fun x row hrow => ?_
    rw [OrdMap.get_modify] at hrow
    split at hrow
    · next hx =>
      obtain ⟨row₀, -, hnew⟩ := Option.map_eq_some_iff.mp hrow
      exact .inl ⟨hx.symm, hnew.symm⟩
    · exact .inr hrow
  · split
    · exact h.goTo (sourced_threw c _)
    · refine hwrote _ fun x row hrow => ?_
      rw [OrdMap.get_set] at hrow
      split at hrow
      · next hx => exact .inl ⟨hx.symm, (Option.some.inj hrow).symm⟩
      · exact .inr hrow

/- What the core returns for a read that is not its own. -/
theorem Sourced.fallback (h : s.Sourced sha256 env rows as) (smeId : String) :
    StateFrom (Known sha256 env rows as smeId) (s.fallback env smeId) := by
  unfold KycIngest.fallback
  split
  · next row hrow => exact .inr ⟨row, h.stored smeId row hrow, rfl⟩
  · split
    · exact .inl rfl
    · cases hmock : s.mockKycRecords.get smeId with
      | none => exact .inl rfl
      | some st => exact h.kept smeId st hmock

theorem Sourced.resume (h : s.Sourced sha256 env rows as) {arrival : Arrival}
    (hstep : .resume callId arrival ∈ as) (hget : s.core.calls.get callId = some c)
    (hread : ¬ (c.phase = .reading ∧ arrival = .read none)) :
    ({ s with core := s.core.resume callId c c.phase arrival } : KycIngest).Sourced
      sha256 env rows as := by
  have hc := h.calls callId c hget
  cases hphase : c.phase with
  | requested =>
    cases arrival with
    | answer a now =>
      simp only [KycSystem.resume]
      split
      · exact h.goTo (sourced_threw c _)
      · next record hrecord =>
        exact h.goTo (sourced_of_record c rfl (.answered hstep (hc.asked hphase) hrecord))
    | _ => exact h
  | selecting record =>
    have hrecord := hc.record record (by rw [hphase]; rfl)
    cases arrival with
    | selected failure =>
      cases failure with
      | some message => exact h.goTo (sourced_threw c _)
      | none => exact h.goTo (sourced_of_record c rfl hrecord)
    | _ => exact h
  | writing record existing =>
    have hrecord := hc.record record (by rw [hphase]; rfl)
    cases arrival with
    | written failure =>
      cases failure with
      | some message => exact h.goTo (sourced_threw c _)
      | none => exact h.write existing hrecord
    | _ => exact h
  | reading =>
    cases arrival with
    | read failure =>
      cases failure with
      | some message => exact h.goTo (sourced_of_silent c (by simp) rfl (by simp))
      | none => exact absurd ⟨hphase, rfl⟩ hread
    | _ => exact h
  | returning result =>
    cases arrival with
    | handedOver =>
      have hnext : ({ c with phase := .returned result } : Call).Sourced sha256 env rows as := by
        cases result with
        | error message => exact sourced_of_silent c (by simp) rfl (by simp)
        | ok st => exact sourced_of_state c (.inr rfl) (hc.state st (.inl hphase))
      have hgone : ({ s with core := s.core.goTo callId { c with phase := .returned result } } :
          KycIngest).Sourced sha256 env rows as := h.goTo hnext
      exact ⟨hgone.stored, hgone.calls, hgone.kept⟩
    | _ => exact h
  | returned result => cases arrival <;> exact h

theorem Sourced.step (h : s.Sourced sha256 env rows as) {a : IngestStep} (ha : a ∈ as) :
    (s.step sha256 env a).Sourced sha256 env rows as := by
  cases a with
  | getKycStatus callId smeId =>
    refine h.start ⟨?_, ?_, ?_⟩
    · intro hp
      by_contra hasks
      simp [hasks] at hp
    · intro row hr
      dsimp only at hr
      split at hr <;> cases hr
    · intro st hp
      dsimp only at hp
      split at hp <;> rcases hp with hp | hp <;> cases hp
  | decide callId smeId decision now =>
    have hsource : Source sha256 env as smeId (decision.record smeId now) := .decided ha rfl
    simp only [KycIngest.step]
    split
    · exact h
    · have hcore : KycIngest.Sourced sha256 env rows as
          { s with core := s.core.step (.decide callId smeId decision now) } :=
        h.start (sourced_of_record ⟨smeId, .decision decision.rejects, .requested, _⟩ rfl hsource)
      refine ⟨hcore.stored, hcore.calls, fun x st hget => ?_⟩
      rw [OrdMap.get_set] at hget
      split at hget
      · next hx =>
        cases hget
        subst hx
        exact .inr ⟨_, .inr hsource, rfl⟩
      · exact h.kept x st hget
  | webhook callId call now =>
    simp only [KycIngest.step]
    split
    · exact h
    · next smeId record hingest =>
      exact h.start (sourced_of_record ⟨smeId, .decision false, .requested, _⟩ rfl (.posted ha hingest))
  | resume callId arrival =>
    simp only [KycIngest.step]
    split
    · next smeId kind before hget =>
      exact h.goTo (sourced_of_state ⟨smeId, kind, .reading, before⟩ (.inl rfl)
        (h.fallback smeId))
    · next arrival found _ hother =>
      cases hget : s.core.calls.get callId with
      | none =>
        have hsame : s.core.step (.resume callId arrival) = s.core := by
          simp only [KycSystem.step, hget]
        rw [hsame]
        exact h
      | some c =>
        have hcore : s.core.step (.resume callId arrival) =
            s.core.resume callId c c.phase arrival := by
          simp only [KycSystem.step, hget]
        rw [hcore]
        refine h.resume ha hget ?_
        rintro ⟨hphase, rfl⟩
        refine hother c.smeId c.kind c.completedBefore ?_ rfl
        rw [hget, ← hphase]

end KycIngest

end Steps

/-! ### Who lets an SME be funded -/

/- Nobody but the holder of the secret presents the HMAC of a timestamp and a body that the
holder did not sign. -/
def Unforged (sha256 : Hmac) (env : KycEnv) (signed : JsNumber → String → Prop)
    (as : List IngestStep) : Prop :=
  ∀ callId call (now : ℕ), .webhook callId call now ∈ as → ∀ secret header timestamp signature,
    truthy env.apiSecret = some secret → truthy call.signatureHeader = some header →
    Presents TOLERANCE_MS now header timestamp signature →
    hexBytes signature = (signatureDigest sha256 secret call.rawBody timestamp).1 →
    signed timestamp call.rawBody

/-- An operator's decision, an answer of the provider that was asked, or a body that was signed
and arrived in time. -/
inductive Vouched (env : KycEnv) (signed : JsNumber → String → Prop) (as : List IngestStep)
    (smeId : String) (row : KycRow) : Prop where
  | operator {callId : String} {decision : Decision} {now : ℕ}
      (hstep : .decide callId smeId decision now ∈ as) (hrow : row = decision.record smeId now)
      (haccepts : decision.rejects = false)
  | provider {callId : String} {a : ProviderAnswer} {now : ℕ}
      (hstep : .resume callId (.answer a now) ∈ as) (hasked : env.asksProvider = true)
      (hrow : answerRecord smeId now a = .ok row)
  | holder {callId : String} {call : WebhookCall} {now : ℕ} {timestamp : JsNumber} {payload : Json}
      (hstep : .webhook callId call now ∈ as) (hsigned : signed timestamp call.rawBody)
      (htimely : InTolerance TOLERANCE_MS now timestamp)
      (hbody : Json.parse call.rawBody = some payload)
      (hrow : readPayload payload now = .ok (smeId, row))

section Funding
variable {sha256 : Hmac} {env : KycEnv} {signed : JsNumber → String → Prop} {as : List IngestStep}

end Funding

end Liquifact.Kyc
