import Liquifact.Lib.Bytes
import Liquifact.Lib.JsonText
import Liquifact.Lib.Run

/-!
# Replaying a dead letter (`src/services/webhooks.js`)

`replayWebhook` (357-399) looks the dead-letter row up, refuses it if it is resolved, reads
the tenant's secret, sends the stored payload with a fresh signature (`createSignature`,
78-81; `createSignatureHeader`, 90-94) and, if the answer is a success, marks the row
resolved (`resolveDeadLetter`, 407-413). Between its awaits other calls for the same row
take their steps.

`hmac` is `createHmac('sha256', key).update(text).digest()`, which throws if the key is
none.
-/

namespace Liquifact.Webhooks
open Liquifact.Lib

/-! ### Signatures -/

section Signatures
variable (hmac : Json → String → Except String (List UInt8))

def createSignature (secret : Json) (rawBody : String) (timestamp : ℤ) : Except String String :=
  (hmac secret (toString timestamp ++ "." ++ rawBody)).map fun digest =>
    String.ofList (hexText digest)

/- `now` is `Date.now()`. -/
def createSignatureHeader (secret : Json) (rawBody : String) (now : ℤ) : Except String String :=
  let timestamp := now / 1000
  (createSignature hmac secret rawBody timestamp).map fun signature =>
    "t=" ++ toString timestamp ++ ",v1=" ++ signature

end Signatures

/- A `fetch` with method POST and a JSON body. -/
structure WebhookRequest where
  url : String
  signature : String
  body : String

/- `response.ok`. -/
def isOkStatus (status : ℕ) : Bool := decide (200 ≤ status ∧ status ≤ 299)

/-! ### One call -/

structure DeadLetter where
  tenantId : String
  payload : Json
  webhookUrl : String
  resolved : Bool
  resolvedAt : Option ℤ
  updatedAt : ℤ

structure ReplayError where
  message : String
  code : Option String

/- Where a call of `replayWebhook` stands; each phase but the last two waits for an answer. -/
inductive ReplayPhase where
  | called
  | found (row : DeadLetter)
  | sending (row : DeadLetter) (request : WebhookRequest)
  | accepted
  | returned
  | threw (error : ReplayError)

def ReplayPhase.isSending : ReplayPhase → Bool
  | .sending _ _ => true
  | _ => false

def ReplayPhase.isAccepted : ReplayPhase → Bool
  | .accepted => true
  | _ => false

/- The row was found unresolved and the call has not ended. -/
def ReplayPhase.isUnderWay : ReplayPhase → Bool
  | .found _ => true
  | .sending _ _ => true
  | .accepted => true
  | _ => false

def failedWith (message : String) : ReplayPhase := .threw ⟨message, none⟩

def lookUp (deadLetterId : String) : Option DeadLetter → ReplayPhase
  | none => .threw ⟨"Dead-letter row not found: " ++ deadLetterId, some "NOT_FOUND"⟩
  | some row =>
    if row.resolved then
      .threw ⟨"Dead-letter row already resolved: " ++ deadLetterId, some "ALREADY_RESOLVED"⟩
    else .found row

def replayBody : Json → String
  | .str s => s
  | v => v.stringify

/- From the answer to the tenants query to the call of `fetch`; `settings` is none when the
tenant has no row. -/
def beginSend (hmac : Json → String → Except String (List UInt8)) (row : DeadLetter)
    (settings : Option Json) (now : ℤ) : ReplayPhase :=
  match jsOr (settings.bind (Json.member "webhook_secret")) none with
  | none => failedWith ("No webhook secret configured for tenant " ++ row.tenantId)
  | some secret =>
    match createSignatureHeader hmac secret (replayBody row.payload) now with
    | .error message => failedWith message
    | .ok signature => .sending row ⟨row.webhookUrl, signature, replayBody row.payload⟩

/- `response` is the status, or the message with which `fetch` rejects. -/
def receive : Except String ℕ → ReplayPhase
  | .error message => failedWith message
  | .ok status =>
    if isOkStatus status then .accepted
    else failedWith ("Webhook replay responded with " ++ toString status)

def resolveDeadLetter (now : ℤ) (row : DeadLetter) : DeadLetter :=
  { row with resolved := true, resolvedAt := some now, updatedAt := now }

/-! ### Calls on one row -/

/- How the update of the row ends: it takes effect, it takes effect and the connection
fails, it fails. -/
inductive UpdateOutcome where
  | done
  | lost (message : String)
  | failed (message : String)

def UpdateOutcome.phase : UpdateOutcome → ReplayPhase
  | .done => .returned
  | .lost message => failedWith message
  | .failed message => failedWith message

def UpdateOutcome.applied : UpdateOutcome → Bool
  | .done => true
  | .lost _ => true
  | .failed _ => false

/- A step of the call `p`: the answer to what it waits for. -/
inductive ReplayAction (π : Type) where
  | lookup (p : π) (failure : Option String)
  | send (p : π) (settings : Except String (Option Json)) (now : ℤ)
  | answer (p : π) (response : Except String ℕ)
  | update (p : π) (outcome : UpdateOutcome) (now : ℤ)

/- The row and the calls. `landed` are the calls whose update has taken effect, `seen p`
those that had landed when `p` looked the row up, `delivered` the calls whose send was
answered with success and `late` those whose send began on a resolved row. -/
structure Replaying (π : Type) where
  row : Option DeadLetter
  phase : π → ReplayPhase
  seen : π → List π
  landed : List π
  delivered : List π
  late : List π

section Calls
variable {π : Type} [DecidableEq π]

namespace Replaying

def start (row : Option DeadLetter) : Replaying π := ⟨row, fun _ => .called, fun _ => [], [], [], []⟩

def isResolved (s : Replaying π) : Bool := (s.row.map DeadLetter.resolved).getD false

def enter (s : Replaying π) (p : π) (phase : ReplayPhase) : Replaying π :=
  { s with phase := fun q => if q = p then phase else s.phase q }

def sendPhase (hmac : Json → String → Except String (List UInt8)) (row : DeadLetter)
    (settings : Except String (Option Json)) (now : ℤ) : ReplayPhase :=
  match settings with
  | .error message => failedWith message
  | .ok settings => beginSend hmac row settings now

def step (hmac : Json → String → Except String (List UInt8)) (deadLetterId : String)
    (s : Replaying π) : ReplayAction π → Replaying π
  | .lookup p failure =>
    match s.phase p with
    | .called =>
      { s.enter p (match failure with
          | some message => failedWith message
          | none => lookUp deadLetterId s.row) with
        seen := fun q => if q = p then s.landed else s.seen q }
    | _ => s
  | .send p settings now =>
    match s.phase p with
    | .found row =>
      { s.enter p (sendPhase hmac row settings now) with
        late := if (sendPhase hmac row settings now).isSending && s.isResolved then p :: s.late
          else s.late }
    | _ => s
  | .answer p response =>
    match s.phase p with
    | .sending _ _ =>
      { s.enter p (receive response) with
        delivered := if (receive response).isAccepted then p :: s.delivered else s.delivered }
    | _ => s
  | .update p outcome now =>
    match s.phase p with
    | .accepted =>
      if outcome.applied then
        { s.enter p outcome.phase with
          row := s.row.map (resolveDeadLetter now)
          landed := p :: s.landed }
      else s.enter p outcome.phase
    | _ => s

/- At most one send was answered with success, and none began once the row was resolved. -/
def ReplayedOnce (s : Replaying π) : Prop := s.delivered.length ≤ 1 ∧ s.late = []

/- A send begins when no update has taken effect since the sender's lookup, and it is
answered with success when every success before had its update in effect at that lookup. -/
def InTurn (hmac : Json → String → Except String (List UInt8)) (s : Replaying π) :
    ReplayAction π → Prop
  | .send p settings now => ∀ row, s.phase p = .found row →
      (sendPhase hmac row settings now).isSending = true → ∀ q ∈ s.landed, q ∈ s.seen p
  | .answer p response => (s.phase p).isSending = true → (receive response).isAccepted = true →
      ∀ q ∈ s.delivered, q ∈ s.seen p
  | _ => True

/-! ### What a lookup saw -/

theorem lookUp_isUnderWay {deadLetterId : String} {row : Option DeadLetter}
    (h : (lookUp deadLetterId row).isUnderWay = true) : ∃ r, row = some r ∧ r.resolved = false := by
  unfold lookUp at h
  split at h
  · cases h
  · next r =>
    split at h
    · cases h
    · next hresolved => exact ⟨r, rfl, by simpa using hresolved⟩

/- The row is resolved when it was from the start or an update has landed; a call that is
under way looked it up before either. -/
structure Tracked (row : Option DeadLetter) (s : Replaying π) : Prop where
  present : s.row.isSome = row.isSome
  resolved : s.isResolved = true ↔ (start row : Replaying π).isResolved = true ∨ s.landed ≠ []
  underWay : ∀ p, (s.phase p).isUnderWay = true →
    s.seen p = [] ∧ (start row : Replaying π).isResolved = false ∧ row.isSome = true

variable {hmac : Json → String → Except String (List UInt8)} {deadLetterId : String}
  {row : Option DeadLetter} {s : Replaying π}

omit [DecidableEq π] in
theorem tracked_start (row : Option DeadLetter) : (start row : Replaying π).Tracked row := by
  refine ⟨rfl, by simp [start], ?_⟩
  intro p hp
  cases hp

/- A call moves on; it is under way only if it was before. -/
theorem Tracked.enter (h : s.Tracked row) {p : π} {phase : ReplayPhase}
    (hphase : phase.isUnderWay = true → (s.phase p).isUnderWay = true) :
    (s.enter p phase).Tracked row := by
  refine ⟨h.present, h.resolved, ?_⟩
  intro q hq
  unfold Replaying.enter at hq
  dsimp only at hq
  split at hq
  · next heq =>
    rw [heq]
    exact h.underWay p (hphase hq)
  · exact h.underWay q hq

theorem Tracked.lookup (h : s.Tracked row) (p : π) (failure : Option String)
    (hcalled : s.phase p = .called) :
    (s.step hmac deadLetterId (.lookup p failure)).Tracked row := by
  simp only [step, hcalled]
  refine ⟨h.present, h.resolved, ?_⟩
  intro q hq
  unfold Replaying.enter at hq
  dsimp only at hq ⊢
  split at hq
  · next heq =>
    rw [if_pos heq]
    cases failure with
    | some message => cases hq
    | none =>
      obtain ⟨r, hrow, hunresolved⟩ := lookUp_isUnderWay hq
      have hopen : ¬ s.isResolved = true := by simp [isResolved, hrow, hunresolved]
      rw [h.resolved, not_or, not_not] at hopen
      refine ⟨hopen.2, by simpa using hopen.1, ?_⟩
      rw [← h.present, hrow]
      rfl
  · next hne =>
    rw [if_neg hne]
    exact h.underWay q hq

theorem Tracked.update (h : s.Tracked row) (p : π) (outcome : UpdateOutcome) (now : ℤ)
    (haccepted : s.phase p = .accepted) :
    (s.step hmac deadLetterId (.update p outcome now)).Tracked row := by
  have hend : outcome.phase.isUnderWay = true → (s.phase p).isUnderWay = true := by
    rw [haccepted]
    exact fun _ => rfl
  simp only [step, haccepted]
  split
  · obtain ⟨-, -, hsome⟩ := h.underWay p (by rw [haccepted]; rfl)
    obtain ⟨r, hrow⟩ := Option.isSome_iff_exists.mp (h.present.trans hsome)
    have hentered := h.enter hend
    refine ⟨by simp [← h.present], ?_, hentered.underWay⟩
    simp [isResolved, hrow, resolveDeadLetter]
  · exact h.enter hend

theorem Tracked.step (h : s.Tracked row) (a : ReplayAction π) :
    (s.step hmac deadLetterId a).Tracked row := by
  cases a with
  | lookup p failure =>
    cases hp : s.phase p with
    | called => exact h.lookup p failure hp
    | _ => simpa only [Replaying.step, hp] using h
  | send p settings now =>
    cases hp : s.phase p with
    | found r =>
      simp only [Replaying.step, hp]
      have hentered : (s.enter p (sendPhase hmac r settings now)).Tracked row :=
        h.enter (by rw [hp]; exact fun _ => rfl)
      exact ⟨hentered.present, hentered.resolved, hentered.underWay⟩
    | _ => simpa only [Replaying.step, hp] using h
  | answer p response =>
    cases hp : s.phase p with
    | sending r request =>
      simp only [Replaying.step, hp]
      have hentered : (s.enter p (receive response)).Tracked row :=
        h.enter (by rw [hp]; exact fun _ => rfl)
      exact ⟨hentered.present, hentered.resolved, hentered.underWay⟩
    | _ => simpa only [Replaying.step, hp] using h
  | update p outcome now =>
    cases hp : s.phase p with
    | accepted => exact h.update p outcome now hp
    | _ => simpa only [Replaying.step, hp] using h

/-! ### Which interleavings deliver once -/

omit [DecidableEq π] in
theorem forall_mem_nil_iff {l : List π} : (∀ q ∈ l, q ∈ ([] : List π)) ↔ l = [] := by
  rw [List.eq_nil_iff_forall_not_mem]
  exact forall_congr' fun q => by simp

section Once
variable (h : s.Tracked row) (honce : s.ReplayedOnce) {p : π} {r : DeadLetter}
include h honce

theorem send_once_iff (hp : s.phase p = .found r) (settings : Except String (Option Json))
    (now : ℤ) :
    (s.step hmac deadLetterId (.send p settings now)).ReplayedOnce ↔
      s.InTurn hmac (.send p settings now) := by
  obtain ⟨hdelivered, hlate⟩ := honce
  obtain ⟨hseen, hopen, -⟩ := h.underWay p (by rw [hp]; rfl)
  have hresolved : s.isResolved = true ↔ s.landed ≠ [] := by
    rw [h.resolved, hopen]
    simp
  simp only [step, hp, InTurn, ReplayPhase.found.injEq, forall_eq', hseen, forall_mem_nil_iff,
    ReplayedOnce, hlate, enter]
  cases hsend : (sendPhase hmac r settings now).isSending with
  | false => simpa using hdelivered
  | true =>
    cases hres : s.isResolved with
    | true => simpa using hresolved.mp hres
    | false =>
      have hnone : s.landed = [] := by
        by_contra hne
        rw [hresolved.mpr hne] at hres
        cases hres
      simpa [hnone] using hdelivered

theorem answer_once_iff {request : WebhookRequest} (hp : s.phase p = .sending r request)
    (response : Except String ℕ) :
    (s.step hmac deadLetterId (.answer p response)).ReplayedOnce ↔
      s.InTurn hmac (.answer p response) := by
  obtain ⟨hdelivered, hlate⟩ := honce
  obtain ⟨hseen, -, -⟩ := h.underWay p (by rw [hp]; rfl)
  simp only [step, hp, InTurn, hseen, forall_mem_nil_iff, ReplayedOnce, hlate, enter,
    ReplayPhase.isSending, true_implies, and_true]
  cases hok : (receive response).isAccepted with
  | false => simpa using hdelivered
  | true => simp

theorem step_once_iff (a : ReplayAction π) :
    (s.step hmac deadLetterId a).ReplayedOnce ↔ s.InTurn hmac a := by
  have hsame : s.ReplayedOnce ↔ True := iff_true_intro honce
  cases a with
  | lookup p failure =>
    cases hp : s.phase p <;> simp only [step, hp, InTurn] <;> exact hsame
  | update p outcome now =>
    cases hp : s.phase p with
    | accepted =>
      simp only [step, hp, InTurn]
      split <;> exact hsame
    | _ => simpa only [step, hp, InTurn] using hsame
  | send p settings now =>
    cases hp : s.phase p with
    | found r => exact send_once_iff h honce hp settings now
    | _ => simpa only [step, hp, InTurn, reduceCtorEq, false_implies, implies_true] using hsame
  | answer p response =>
    cases hp : s.phase p with
    | sending r request => exact answer_once_iff h honce hp response
    | _ => simpa only [step, hp, InTurn, ReplayPhase.isSending, Bool.false_eq_true, false_implies]
        using hsame

end Once

end Replaying

end Calls

/-- Any number of calls for one row in any interleaving, with any answers: in every state
reached at most one send has been answered with success and none has begun on the resolved
row, if and only if the calls take their turns. -/
theorem replayed_at_most_once_iff {π : Type} [DecidableEq π]
    (hmac : Json → String → Except String (List UInt8)) (deadLetterId : String)
    (row : Option DeadLetter) (as : List (ReplayAction π)) :
    (∀ pre, pre <+: as →
        (run (Replaying.step hmac deadLetterId) (.start row) pre).ReplayedOnce) ↔
      Along (Replaying.step hmac deadLetterId) (Replaying.InTurn hmac) (.start row) as := by
  rw [← forall_prefix_iff_along (Replaying.step hmac deadLetterId) (Replaying.InTurn hmac)
    (fun s => s.Tracked row ∧ s.ReplayedOnce)]
  · have htracked : ∀ pre : List (ReplayAction π),
        (run (Replaying.step hmac deadLetterId) (.start row) pre).Tracked row := fun pre =>
      run_keeps _ (Replaying.Tracked row) (fun s a hs => hs.step a) _ pre
        (Replaying.tracked_start row)
    exact forall_congr' fun pre => imp_congr_right fun _ => (and_iff_right (htracked pre)).symm
  · intro s a hs
    rw [and_iff_right (hs.1.step a)]
    exact Replaying.step_once_iff hs.1 hs.2 a
  · exact ⟨Replaying.tracked_start row, by simp [Replaying.ReplayedOnce, Replaying.start]⟩

def sampleLetter : DeadLetter where
  tenantId := "tenant-1"
  payload := .obj [("event", .str "escrow_funded")]
  webhookUrl := "https://hooks.example.com/cb"
  resolved := false
  resolvedAt := none
  updatedAt := 0

/- Both calls find the row unresolved before either has been answered. -/
def overlappingReplays : List (ReplayAction Bool) :=
  let settings := Except.ok (some (.obj [("webhook_secret", .str "secret")]))
  [.lookup true none, .lookup false none, .send true settings 0, .send false settings 0,
    .answer true (.ok 200), .answer false (.ok 200)]

theorem two_replays_delivered : ¬ ∀ (hmac : Json → String → Except String (List UInt8))
    (deadLetterId : String) (row : Option DeadLetter) (as : List (ReplayAction Bool)),
    (run (Replaying.step hmac deadLetterId) (.start row) as).ReplayedOnce := by
  intro h
  have htwo := (h (fun _ _ => .ok []) "dl-1" (some sampleLetter) overlappingReplays).1
  exact absurd htwo (by decide)

end Liquifact.Webhooks
