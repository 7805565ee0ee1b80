import Liquifact.Webhooks.DeadLetterTable

/-!
# The attempts in a dead letter of `emitWebhook` (`src/services/webhooks.js`)

The row (240-248) has `maxRetries + 1` from the environment, whatever the loop of `withRetry`
did. The loop caps the number and stops at the first error that is not retryable.
-/

namespace Liquifact.Webhooks
open Liquifact.Lib Liquifact.Utils

section Sends
variable (env : DeliveryEnv) (d : Delivery) (e : Emission)

/- The sends a call of `emitWebhook` would make, by number; none if it makes none. -/
def emissionSends : Option (ℕ → Except SendError ℕ) :=
  match e.tenantId, jsOr (e.settings.bind (Json.member "webhook_url")) none,
      jsOr (e.settings.bind (Json.member "webhook_secret")) none with
  | some _, some url, some secret =>
    let body := (e.payload d.timestamp).stringify
    match createSignatureHeader env.hmac secret body (d.sending 0).now with
    | .error _ => none
    | .ok signature => some fun attempt => emitRequest url.text signature body (d.sending attempt)
  | _, _, _ => none

def requestsSent : ℕ :=
  match emissionSends env d e with
  | none => 0
  | some send => (withRetry env.options emitShouldRetry send d.draw).attempts

def retryableFailure : Except SendError ℕ → Bool
  | .ok _ => false
  | .error err => emitShouldRetry err

/- Where the sends come to the same number as the environment: that number is a natural
number up to the cap, and as many sends fail in a way that is retried. -/
def RetriesUsedUp : Prop :=
  ∃ m ≤ 10, env.options.maxRetries = .ofNat m ∧
    ∀ send, emissionSends env d e = some send → ∀ i < m, retryableFailure (send i) = true

variable {env d e}

theorem emitWebhook_exhausted {values : List (String × Option Json)}
    (h : emitWebhook env d e = .exhausted values) :
    ∃ send err, emissionSends env d e = some send ∧
      (withRetry env.options emitShouldRetry send d.draw).result = .error err ∧
      OrdMap.lookupL "attempts" values = some (some (.num (env.options.maxRetries.add (.fin 1)))) := by
  unfold emitWebhook at h
  split at h
  · next tenantId url secret htenant hurl hsecret =>
    dsimp only at h
    split at h
    · cases h
    · next signature hsignature =>
      split at h
      · cases h
      · next err hresult =>
        cases h
        refine ⟨_, err, ?_, hresult, rfl⟩
        simp only [emissionSends, htenant, hurl, hsecret, hsignature]
  · cases h

theorem exhausted_of_sends {send : ℕ → Except SendError ℕ} {err : SendError}
    (hsend : emissionSends env d e = some send)
    (hresult : (withRetry env.options emitShouldRetry send d.draw).result = .error err) :
    ∃ values, emitWebhook env d e = .exhausted values := by
  unfold emissionSends at hsend
  split at hsend
  · next tenantId url secret htenant hurl hsecret =>
    dsimp only at hsend
    split at hsend
    · cases hsend
    · next signature hsignature =>
      cases hsend
      simp only [emitWebhook, htenant, hurl, hsecret, hsignature, hresult]
      exact ⟨_, rfl⟩
  · cases hsend

theorem capped_ofNat {m cap : ℕ} (h : m ≤ cap) : capped (.ofNat m) cap = .ofNat m := by
  have hle : (m : ℚ) ≤ cap := by exact_mod_cast h
  have hpos : (0 : ℚ) ≤ m := Nat.cast_nonneg m
  simp [capped, JsNumber.min, JsNumber.max, JsNumber.ofNat, hle, hpos]

theorem add_one_eq_iff {x : JsNumber} {n : ℕ} :
    x.add (.fin 1) = .ofNat (n + 1) ↔ x = .ofNat n := by
  cases x with
  | fin q => simp [JsNumber.add, JsNumber.ofNat]
  | _ => simp [JsNumber.add, JsNumber.ofNat]

/-- A dead letter of `emitWebhook` has the number of the requests that were sent, if and only if
the configured number of retries is a natural number up to 10 and all of them were used. -/
theorem attempts_recorded_iff (env : DeliveryEnv) (d : Delivery) (e : Emission)
    (values : List (String × Option Json)) (h : emitWebhook env d e = .exhausted values) :
    OrdMap.lookupL "attempts" values = some (some (.num (.ofNat (requestsSent env d e)))) ↔
      RetriesUsedUp env d e := by
  obtain ⟨send, err, hsend, hresult, hrow⟩ := emitWebhook_exhausted h
  obtain ⟨last, -, hcount, hlast, hstop, hbefore⟩ := retryLoop_error (by omega) hresult
  have hsent : requestsSent env d e = last + 1 := by
    rw [requestsSent, hsend]
    exact hcount
  rw [hrow, hsent, Option.some.injEq, Option.some.injEq, Json.num.injEq, add_one_eq_iff]
  constructor
  · intro hmax
    have hretried : ∀ i < last, retryableFailure (send i) = true := by
      intro i hi
      obtain ⟨err', hop, hgo⟩ := hbefore i (Nat.zero_le i) hi
      rw [hop]
      exact (Bool.and_eq_true_iff.mp hgo).2
    have hcap : last ≤ 10 := by
      rcases Nat.eq_zero_or_pos last with h0 | hpos
      · omega
      · obtain ⟨err', -, hgo⟩ := hbefore (last - 1) (Nat.zero_le _) (by omega)
        have hlt := willRetry_cap hgo
        omega
    refine ⟨last, hcap, hmax, ?_⟩
    intro send' hsend' i hi
    rw [hsend, Option.some.injEq] at hsend'
    rw [← hsend']
    exact hretried i hi
  · rintro ⟨m, hm, hmax, hfail⟩
    have hgo : ∀ (i : ℕ) (err' : SendError), willRetry env.options emitShouldRetry i err' =
        (decide (i < m) && emitShouldRetry err') := by
      intro i err'
      have hcapped : capped env.options.maxRetries 10 = .ofNat m := by
        rw [hmax]
        exact capped_ofNat hm
      rw [willRetry, hcapped, JsNumber.lt_ofNat]
    rcases lt_trichotomy last m with hlt | rfl | hgt
    · have hretryable := hfail send hsend last hlt
      rw [hlast] at hretryable
      rw [hgo, decide_eq_true hlt, Bool.true_and] at hstop
      rw [retryableFailure, hstop] at hretryable
      cases hretryable
    · exact hmax
    · obtain ⟨err', -, hwill⟩ := hbefore m (Nat.zero_le m) hgt
      rw [hgo, decide_eq_false (lt_irrefl m)] at hwill
      cases hwill

end Sends

/-! ### Deliveries that fail at the first send -/

/- Every request is answered with `status`. -/
def answeredWith (status : ℕ) : Delivery :=
  { failingDelivery with sending := fun _ => ⟨0, fun _ => .ok status⟩ }

def statusError (status : ℕ) : SendError where
  name := "Error"
  code := none
  status := some status
  thrown := .ofMessage ("Webhook responded with " ++ toString status)

theorem sample_sends (options : RetryOptions) {status : ℕ} (hstatus : isOkStatus status = false) :
    emissionSends ⟨noRetryEnv.hmac, options⟩ (answeredWith status) sampleEmission =
      some fun _ => .error (statusError status) := by
  have hrequest : ∀ url signature body : String,
      emitRequest url signature body ⟨0, fun _ => .ok status⟩ = .error (statusError status) := by
    intro url signature body
    simp only [emitRequest, hstatus, Bool.false_eq_true, if_false]
    rfl
  have hsends : ∃ url signature body : String,
      emissionSends ⟨noRetryEnv.hmac, options⟩ (answeredWith status) sampleEmission =
        some fun _ => emitRequest url signature body ⟨0, fun _ => .ok status⟩ := ⟨_, _, _, rfl⟩
  obtain ⟨url, signature, body, hsends⟩ := hsends
  simpa only [hrequest] using hsends

theorem sample_first (options : RetryOptions) (status : ℕ) (hstatus : isOkStatus status = false)
    (hstop : willRetry options emitShouldRetry 0 (statusError status) = false) :
    (∃ values, emitWebhook ⟨noRetryEnv.hmac, options⟩ (answeredWith status) sampleEmission =
      .exhausted values) ∧
    requestsSent ⟨noRetryEnv.hmac, options⟩ (answeredWith status) sampleEmission = 1 := by
  have hsends := sample_sends options hstatus
  have hfirst : ∀ draw, withRetry options emitShouldRetry
      (fun _ => (.error (statusError status) : Except SendError ℕ)) draw =
        ⟨.error (statusError status), 1, []⟩ := fun draw => withRetry_first rfl hstop
  constructor
  · exact exhausted_of_sends hsends (by rw [hfirst])
  · simp only [requestsSent, hsends, hfirst]

theorem attempts_recorded_without_retries :
    ∃ values, emitWebhook noRetryEnv (answeredWith 500) sampleEmission = .exhausted values ∧
      (OrdMap.lookupL "attempts" values =
        some (some (.num (.ofNat (requestsSent noRetryEnv (answeredWith 500) sampleEmission)))) ↔
          RetriesUsedUp noRetryEnv (answeredWith 500) sampleEmission) := by
  obtain ⟨⟨values, h⟩, -⟩ := sample_first noRetryEnv.options 500 rfl (by decide)
  exact ⟨values, h, attempts_recorded_iff noRetryEnv (answeredWith 500) sampleEmission values h⟩

def defaultRetries : RetryOptions := ⟨.fin 3, .fin 500, .fin 10000⟩

/- An answer of status 400 is not retried, and the row says four attempts. -/
theorem refused_delivery_overcounted : ¬ ∀ (env : DeliveryEnv) (d : Delivery) (e : Emission)
    (values : List (String × Option Json)), emitWebhook env d e = .exhausted values →
    OrdMap.lookupL "attempts" values = some (some (.num (.ofNat (requestsSent env d e)))) := by
  intro h
  obtain ⟨⟨values, hrow⟩, hsent⟩ := sample_first defaultRetries 400 rfl (by decide)
  have hattempts := h _ _ _ values hrow
  obtain ⟨-, -, -, -, hvalue⟩ := emitWebhook_exhausted hrow
  rw [hvalue, hsent] at hattempts
  have hnumber := Json.num.inj (Option.some.inj (Option.some.inj hattempts))
  exact absurd hnumber (by decide +kernel)

end Liquifact.Webhooks
