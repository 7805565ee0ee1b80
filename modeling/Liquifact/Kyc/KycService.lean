import Liquifact.Lib.JsValue
import Liquifact.Lib.Run

/-!
# KYC decisions and provider answers (`src/services/kycService.js`)

With the provider configured and `KYC_STATUS_CACHE_TTL_SECONDS` switched off, `getKycStatus`
(347-382) asks the provider, waits, and stores what it answers with `persistKycRecord`
(234-268): a `SELECT`, then an `UPDATE` or an `INSERT` of the whole row. `verifySmeSafe`
(394-427), `rejectSmeKyc` (434-464) and `exemptSmeFromKyc` (473-504) store a decision with the
same function. `sme_id` is the primary key of `kyc_records`.

A call goes on when what it waits for has arrived, and calls go on in any order; each
statement may also fail. The log and the records that are kept in memory for tests are left
out.
-/

namespace Liquifact.Kyc
open Liquifact.Lib

/-! ### Statuses -/

inductive KycStatus where
  | pending
  | verified
  | rejected
  | exempted
  | unknown
  deriving DecidableEq

def KycStatus.text : KycStatus → String
  | pending => "pending"
  | verified => "verified"
  | rejected => "rejected"
  | exempted => "exempted"
  | unknown => "unknown"

def providerStatusMap : List (String × KycStatus) :=
  [("pending", .pending), ("in_review", .pending), ("reviewing", .pending), ("queued", .pending),
    ("submitted", .pending), ("verified", .verified), ("approved", .verified), ("pass", .verified),
    ("success", .verified), ("rejected", .rejected), ("denied", .rejected), ("declined", .rejected),
    ("failed", .rejected), ("exempted", .exempted), ("exempt", .exempted), ("waived", .exempted)]

/- Only ASCII letters have a lower case that occurs in the names of the map. -/
def toLowerCase (s : String) : String := String.ofList (s.toList.map Char.toLower)

/-- `normalizeProviderStatus`; `none` is undefined. -/
def normalizeProviderStatus : Option Json → KycStatus
  | some (.str s) => (OrdMap.lookupL (toLowerCase (trim s)) providerStatusMap).getD .unknown
  | _ => .unknown

/-! ### What is stored -/

structure KycRow where
  status : KycStatus
  providerRecordId : Json
  verifiedAt : Json
  updatedAt : ℕ

/- The record that `persistKycRecord` writes. -/
def kycRecord (status : KycStatus) (providerRecordId verifiedAt : Option Json) (now : ℕ) : KycRow where
  status := normalizeProviderStatus (some (.str status.text))
  providerRecordId := (jsOr providerRecordId none).getD .null
  verifiedAt := (jsOr verifiedAt none).getD .null
  updatedAt := now

def drawnRecordId (smeId : String) (now : ℕ) : Json := .str ("kyc_" ++ smeId ++ "_" ++ toString now)

inductive ProviderAnswer where
  | failed (message : String)
  | refused (status : ℕ) (body : String)
  | data (v : Json)

/-- What `verifyWithExternalProvider` (277-332) stores, or the message of what it throws. -/
def answerRecord (smeId : String) (now : ℕ) : ProviderAnswer → Except String KycRow
  | .failed message => .error message
  | .refused status body => .error (toString status ++ if body = "" then "" else ": " ++ body)
  | .data .null => .error "Cannot read properties of null (reading 'recordId')"
  | .data v =>
    let recordId := jsOr (v.member "recordId") (jsOr (v.member "providerRecordId")
      (jsOr (v.member "provider_record_id") (some (drawnRecordId smeId now))))
    let verifiedAt := jsOr (v.member "verifiedAt") (jsOr (v.member "verified_at") (some .null))
    let status := normalizeProviderStatus (jsOr (v.member "status") (jsOr (v.member "kycStatus")
      (jsOr (v.member "result") (some (.str "")))))
    .ok (kycRecord status recordId verifiedAt now)

/-! ### Calls -/

inductive Decision where
  | verifySmeSafe (recordId : Option Json) (verifiedAt : String)
  | rejectSmeKyc
  | exemptSmeFromKyc

def Decision.record (smeId : String) (now : ℕ) : Decision → KycRow
  | verifySmeSafe recordId verifiedAt =>
    kycRecord .verified (jsOr recordId (some (drawnRecordId smeId now))) (some (.str verifiedAt)) now
  | rejectSmeKyc => kycRecord .rejected (some (drawnRecordId smeId now)) none now
  | exemptSmeFromKyc => kycRecord .exempted (some (drawnRecordId smeId now)) none now

/- What a call returns; a decision returns no `verifiedAt` unless it verifies. -/
structure KycState where
  status : KycStatus
  recordId : Json
  verifiedAt : Json

def KycRow.state (row : KycRow) : KycState := ⟨row.status, row.providerRecordId, row.verifiedAt⟩

inductive CallKind where
  | getKycStatus
  | decision (rejects : Bool)
  deriving DecidableEq

/- Where a call waits: for the provider, for the `SELECT`, for the write, for the `SELECT` of
the fallback, or for its caller. -/
inductive Phase where
  | requested
  | selecting (record : KycRow)
  | writing (record : KycRow) (existing : Bool)
  | reading
  | returning (result : Except String KycState)
  | returned (result : Except String KycState)

/- `completedBefore` are the calls that had completed when this one was made. -/
structure Call where
  smeId : String
  kind : CallKind
  phase : Phase
  completedBefore : List String

/- A statement, or the call of the provider, threw: `getKycStatus` falls back to the stored
record, the others reject. -/
def Call.threw (c : Call) (message : String) : Call :=
  match c.kind with
  | .getKycStatus => { c with phase := .reading }
  | .decision _ => { c with phase := .returning (.error message) }

/-- `rejectedBy` gives the `rejectSmeKyc` call whose row is the stored one. -/
structure KycSystem where
  rows : OrdMap String KycRow
  calls : OrdMap String Call
  completed : List String
  rejectedBy : String → Option String

def Decision.rejects : Decision → Bool
  | rejectSmeKyc => true
  | _ => false

/- What a call waits for arrives; `failure` is the message of what a statement throws. -/
inductive Arrival where
  | answer (a : ProviderAnswer) (now : ℕ)
  | selected (failure : Option String)
  | written (failure : Option String)
  | read (failure : Option String)
  | handedOver

inductive KycStep where
  | getKycStatus (callId smeId : String)
  | decide (callId smeId : String) (decision : Decision) (now : ℕ)
  | resume (callId : String) (arrival : Arrival)

namespace KycSystem

def initial (rows : OrdMap String KycRow) : KycSystem := ⟨rows, .empty, [], fun _ => none⟩

/- A call under a fresh identifier; an empty SME identifier makes it throw at once. -/
def start (s : KycSystem) (callId smeId : String) (kind : CallKind) (phase : Phase) : KycSystem :=
  if s.calls.has callId || Decidable.decide (smeId = "") then s
  else { s with calls := s.calls.set callId ⟨smeId, kind, phase, s.completed⟩ }

def goTo (s : KycSystem) (callId : String) (c : Call) : KycSystem :=
  { s with calls := s.calls.set callId c }

/- The write has taken effect. -/
def wrote (s : KycSystem) (callId : String) (c : Call) (record : KycRow)
    (rows : OrdMap String KycRow) : KycSystem :=
  { s with
    rows := rows
    calls := s.calls.set callId { c with phase := .returning (.ok record.state) }
    rejectedBy := Function.update s.rejectedBy c.smeId
      (if c.kind = .decision true then some callId else none) }

/- The write of `persistKycRecord`. -/
def write (s : KycSystem) (callId : String) (c : Call) (record : KycRow) (existing : Bool) :
    KycSystem :=
  if existing then s.wrote callId c record (s.rows.modify c.smeId fun _ => record)
  else if s.rows.has c.smeId then
    s.goTo callId (c.threw
      "duplicate key value violates unique constraint \"kyc_records_pkey\"")
  else s.wrote callId c record (s.rows.set c.smeId record)

/- What `readKycRecord` finds, or the default. -/
def fallback (s : KycSystem) (smeId : String) : KycState :=
  ((s.rows.get smeId).map KycRow.state).getD ⟨.pending, .null, .null⟩

/-- How a call goes on; what it does not wait for does not arrive. -/
def resume (s : KycSystem) (callId : String) (c : Call) : Phase → Arrival → KycSystem
  | .requested, .answer a now =>
    match answerRecord c.smeId now a with
    | .error message => s.goTo callId (c.threw message)
    | .ok record => s.goTo callId { c with phase := .selecting record }
  | .selecting _, .selected (some message) => s.goTo callId (c.threw message)
  | .selecting record, .selected none =>
    s.goTo callId { c with phase := .writing record (s.rows.has c.smeId) }
  | .writing _ _, .written (some message) => s.goTo callId (c.threw message)
  | .writing record existing, .written none => s.write callId c record existing
  | .reading, .read (some message) => s.goTo callId { c with phase := .returning (.error message) }
  | .reading, .read none =>
    s.goTo callId { c with phase := .returning (.ok (s.fallback c.smeId)) }
  | .returning result, .handedOver =>
    { s.goTo callId { c with phase := .returned result } with completed := callId :: s.completed }
  | _, _ => s

def step (s : KycSystem) : KycStep → KycSystem
  | .getKycStatus callId smeId => s.start callId smeId .getKycStatus .requested
  | .decide callId smeId decision now =>
    s.start callId smeId (.decision decision.rejects) (.selecting (decision.record smeId now))
  | .resume callId arrival =>
    match s.calls.get callId with
    | none => s
    | some c => s.resume callId c c.phase arrival

/-! ### Rejections -/

end KycSystem

/-! ### What is known of the calls that wait -/

def Phase.record : Phase → Option KycRow
  | .selecting record => some record
  | .writing record _ => some record
  | _ => none

/-- Only `getKycStatus` asks the provider, a rejection writes a rejection, and an `UPDATE`
finds its row. -/
structure Call.Sound (rows : OrdMap String KycRow) (c : Call) : Prop where
  asked : c.phase = .requested → c.kind = .getKycStatus
  rejects : ∀ record, c.phase.record = some record → c.kind = .decision true →
    record.status = .rejected
  found : ∀ record, c.phase = .writing record true → ∃ row, rows.get c.smeId = some row

/- A status of the service is read as itself. -/
theorem normalize_text (status : KycStatus) :
    normalizeProviderStatus (some (.str status.text)) = status := by
  cases status with
  | pending => decide
  | verified => decide
  | rejected => decide
  | exempted => decide
  | unknown => decide

theorem kycRecord_status (status : KycStatus) (recordId verifiedAt : Option Json) (now : ℕ) :
    (kycRecord status recordId verifiedAt now).status = status := by
  simp only [kycRecord, normalize_text]

theorem Decision.record_rejected {d : Decision} (h : d.rejects = true) (smeId : String) (now : ℕ) :
    (d.record smeId now).status = .rejected := by
  cases d with
  | rejectSmeKyc => exact kycRecord_status ..
  | _ => cases h

section Sound
variable {rows : OrdMap String KycRow} {c : Call}

theorem sound_of_no_record {phase : Phase} (h : phase.record = none) (hne : phase ≠ .requested) :
    Call.Sound rows { c with phase := phase } where
  asked hp := absurd hp hne
  rejects record hr := by
    rw [h] at hr
    cases hr
  found record hp := by
    change phase = _ at hp
    rw [hp] at h
    cases h

theorem sound_threw (rows : OrdMap String KycRow) (c : Call) (message : String) :
    (c.threw message).Sound rows := by
  unfold Call.threw
  split
  · exact sound_of_no_record rfl (by simp)
  · exact sound_of_no_record rfl (by simp)

theorem Call.Sound.mono {rows' : OrdMap String KycRow} (h : c.Sound rows)
    (hrows : ∀ x row, rows.get x = some row → ∃ row', rows'.get x = some row') : c.Sound rows' where
  asked := h.asked
  rejects := h.rejects
  found record hp := by
    obtain ⟨row, hrow⟩ := h.found record hp
    exact hrows c.smeId row hrow

end Sound

namespace KycSystem

structure Books (s : KycSystem) : Prop where
  stored : ∀ x r, s.rejectedBy x = some r →
    ∃ row, s.rows.get x = some row ∧ row.status = .rejected
  sound : ∀ callId c, s.calls.get callId = some c → c.Sound s.rows

section Steps
variable {s : KycSystem} {callId : String} {c : Call}

theorem books_initial (rows : OrdMap String KycRow) : Books (initial rows) where
  stored x r h := by cases h
  sound callId c h := by cases h

theorem Books.goTo (h : Books s) (hc : c.Sound s.rows) : Books (s.goTo callId c) where
  stored := h.stored
  sound x c' hget := by
    simp only [KycSystem.goTo, OrdMap.get_set] at hget
    split at hget
    · cases hget
      exact hc
    · exact h.sound x c' hget

theorem Books.start (h : Books s) {smeId : String} {kind : CallKind} {phase : Phase}
    (hc : Call.Sound s.rows ⟨smeId, kind, phase, s.completed⟩) :
    Books (s.start callId smeId kind phase) := by
  unfold KycSystem.start
  split
  · exact h
  · exact h.goTo hc

theorem Books.wrote (h : Books s) {record : KycRow} {rows : OrdMap String KycRow}
    (hrecord : c.kind = .decision true → record.status = .rejected)
    (hrows : ∀ x, rows.get x = if c.smeId = x then some record else s.rows.get x) :
    Books (s.wrote callId c record rows) where
  stored x r hr := by
    change Function.update s.rejectedBy c.smeId _ x = some r at hr
    change ∃ row, rows.get x = some row ∧ _
    rw [hrows]
    by_cases hx : c.smeId = x
    · subst hx
      rw [Function.update_self] at hr
      split at hr
      · next hkind => exact ⟨record, if_pos rfl, hrecord hkind⟩
      · cases hr
    · rw [Function.update_of_ne (Ne.symm hx)] at hr
      rw [if_neg hx]
      exact h.stored x r hr
  sound x c' hget := by
    have hmore : ∀ y row, s.rows.get y = some row → ∃ row', rows.get y = some row' := by
      intro y row hrow
      rw [hrows]
      split
      · exact ⟨record, rfl⟩
      · exact ⟨row, hrow⟩
    simp only [KycSystem.wrote, OrdMap.get_set] at hget
    split at hget
    · cases hget
      exact sound_of_no_record rfl (by simp)
    · exact (h.sound x c' hget).mono hmore

/- The `UPDATE` of a row that the `SELECT` found, and the `INSERT` of one that is not there. -/
theorem write_effect (callId : String) {record : KycRow} {existing : Bool} (hc : c.Sound s.rows)
    (hphase : c.phase = .writing record existing) :
    (∃ rows, s.write callId c record existing = s.wrote callId c record rows ∧
      (∀ x, rows.get x = if c.smeId = x then some record else s.rows.get x) ∧
      (existing = true ∨ s.rows.get c.smeId = none)) ∨
    (existing = false ∧ ∃ message, s.write callId c record existing =
      s.goTo callId (c.threw message)) := by
  unfold write
  cases existing with
  | true =>
    obtain ⟨row, hrow⟩ := hc.found record hphase
    refine .inl ⟨_, if_pos rfl, fun x => ?_, .inl rfl⟩
    rw [OrdMap.get_modify]
    split
    · next hx => rw [← hx, hrow]; rfl
    · rfl
  | false =>
    rw [if_neg (by decide)]
    split
    · exact .inr ⟨rfl, _, rfl⟩
    · next hhas =>
      refine .inl ⟨_, rfl, fun x => OrdMap.get_set .., .inr ?_⟩
      simpa [OrdMap.has] using hhas

theorem Books.resume (h : Books s) (hget : s.calls.get callId = some c) (arrival : Arrival) :
    Books (s.resume callId c c.phase arrival) := by
  have hc := h.sound callId c hget
  cases hphase : c.phase with
  | requested =>
    cases arrival with
    | answer a now =>
      have hkind := hc.asked hphase
      simp only [KycSystem.resume]
      split
      · exact h.goTo (sound_threw ..)
      · refine h.goTo ⟨nofun, fun record _ hk => ?_, nofun⟩
        change c.kind = _ at hk
        rw [hkind] at hk
        cases hk
    | _ => exact h
  | selecting record =>
    cases arrival with
    | selected failure =>
      cases failure with
      | some message => exact h.goTo (sound_threw ..)
      | none =>
        refine h.goTo ⟨nofun, fun r hr hk => ?_, fun r hp => ?_⟩
        · cases hr
          exact hc.rejects record (by rw [hphase]; rfl) hk
        · obtain ⟨-, hhas⟩ := Phase.writing.inj hp
          exact Option.isSome_iff_exists.mp hhas
    | _ => exact h
  | writing record existing =>
    cases arrival with
    | written failure =>
      cases failure with
      | some message => exact h.goTo (sound_threw ..)
      | none =>
        change Books (s.write callId c record existing)
        obtain ⟨rows, hw, hrows, -⟩ | ⟨-, message, hw⟩ := write_effect callId hc hphase
        · rw [hw]
          exact h.wrote (hc.rejects record (by rw [hphase]; rfl)) hrows
        · rw [hw]
          exact h.goTo (sound_threw ..)
    | _ => exact h
  | reading =>
    cases arrival with
    | read failure =>
      cases failure with
      | some message => exact h.goTo (sound_of_no_record rfl (by simp))
      | none => exact h.goTo (sound_of_no_record rfl (by simp))
    | _ => exact h
  | returning result =>
    cases arrival with
    | handedOver =>
      have hnext : Books (s.goTo callId { c with phase := .returned result }) :=
        h.goTo (sound_of_no_record rfl (by simp))
      exact ⟨hnext.stored, hnext.sound⟩
    | _ => exact h
  | returned result => cases arrival <;> exact h

theorem step_books (s : KycSystem) (a : KycStep) (h : Books s) : Books (s.step a) := by
  cases a with
  | getKycStatus callId smeId =>
    exact h.start ⟨fun _ => rfl, nofun, nofun⟩
  | decide callId smeId decision now =>
    refine h.start ⟨nofun, fun record hr hk => ?_, nofun⟩
    cases hr
    exact decision.record_rejected (CallKind.decision.inj hk) smeId now
  | resume callId arrival =>
    simp only [step]
    cases hget : s.calls.get callId with
    | none => exact h
    | some c => exact h.resume hget arrival

end Steps

end KycSystem

end Liquifact.Kyc
