import Liquifact.Contracts.BountyIds

/-!
# Solvency and single payout of the bounty contract

The contract holds, of every token, at least the sum of the stored amounts it has
not released; a release pays out exactly the stored amount; and between two
releases under one identifier there is a new deposit under it.
-/

namespace Liquifact.Contracts.BountyContract
open Liquifact.Lib

section Solvency
variable {Address : Type} [DecidableEq Address]

/- What a record binds of token `tok`. -/
def owed (tok : Address) (b : Bounty Address) : ℤ :=
  if b.released = false ∧ b.token = tok then b.amount.val else 0

def outstanding (s : State Address) (tok : Address) : ℤ := s.bounties.total (owed tok)

def Solvent (env : Env Address) (s : State Address) : Prop :=
  ∀ tok, outstanding s tok ≤ s.ledger.balance tok env.contract

def ContractNotCaller (env : Env Address) (_ : State Address) (c : Call Address) : Prop :=
  env.contract ∉ c.auths

theorem owed_nonneg (tok : Address) (b : Bounty Address) : 0 ≤ owed tok b := by
  have ha := b.amount_pos
  unfold owed
  split <;> omega

theorem owed_released (tok : Address) (b : Bounty Address) :
    owed tok { b with released := true } = 0 := by
  simp [owed]

theorem owed_get_nonneg (tok : Address) (o : Option (Bounty Address)) :
    0 ≤ (o.map (owed tok)).getD 0 := by
  cases o with
  | none => exact le_rfl
  | some b => exact owed_nonneg tok b

theorem move_credit (L : Ledger Address) (t : Transfer Address) (tok a : Address)
    (hs : t.source ≠ a) (ht : t.target = a) :
    (L.move t).balance tok a = L.balance tok a + if tok = t.token then t.amount else 0 := by
  simp [Ledger.move, Ne.symm hs, ht]

theorem move_debit_le (L : Ledger Address) (t : Transfer Address) (tok a : Address)
    (h : 0 ≤ t.amount) :
    L.balance tok a - (if tok = t.token then t.amount else 0) ≤ (L.move t).balance tok a := by
  by_cases htok : tok = t.token
  · simp only [Ledger.move, htok, true_and, if_true]
    split_ifs <;> omega
  · simp only [Ledger.move, htok, false_and, if_false]
    omega

theorem settle_balance_le (env : Env Address) (L : Ledger Address) (b : Bounty Address)
    (r tok a : Address) :
    L.balance tok a - (if tok = b.token then b.amount.val else 0) ≤
      (settle env L b r).balance tok a := by
  have hfee := fee_nonneg b
  have hpay : 0 ≤ b.payout := by
    have hle := fee_le_amount b
    unfold Bounty.payout
    omega
  have hsum : b.payout + b.fee = b.amount.val := by
    unfold Bounty.payout
    omega
  by_cases hpos : 0 < b.fee
  · have h1 := move_debit_le L ⟨b.token, env.contract, r, b.fee⟩ tok a hfee
    have h2 := move_debit_le (L.move ⟨b.token, env.contract, r, b.fee⟩)
      ⟨b.token, env.contract, b.hunter, b.payout⟩ tok a hpay
    simp only [settle, if_pos hpos] at h1 h2 ⊢
    split_ifs at h1 h2 ⊢ <;> omega
  · have h2 := move_debit_le L ⟨b.token, env.contract, b.hunter, b.payout⟩ tok a hpay
    simp only [settle, if_neg hpos] at h2 ⊢
    split_ifs at h2 ⊢ <;> omega

theorem step_solvent (env : Env Address) (s : State Address) (c : Call Address)
    (h : Solvent env s) (hc : ContractNotCaller env s c) : Solvent env (step env s c) := by
  have heff := step_effect env s c
  generalize step env s c = t at heff ⊢
  cases heff with
  | refused e hi => exact h
  | initialized r hop hnone => exact h
  | created b id next s' hi hauth hop hnew hid hnext hs =>
    intro tok
    have hne : b.creator ≠ env.contract := fun he => hc (he ▸ hauth)
    have hold := h tok
    -- `id` may be stored already; the overwritten record's share only lowers the sum
    have htotal := OrdMap.total_set (owed tok) s.bounties id b
    have hshare := owed_get_nonneg tok (s.bounties.get id)
    have hcredit := move_credit s.ledger ⟨b.token, b.creator, env.contract, b.amount.val⟩ tok
      env.contract hne rfl
    have howed : owed tok b = if tok = b.token then b.amount.val else 0 := by
      simp only [owed, hnew, true_and, eq_comm]
    rw [hs]
    simp only [outstanding] at hold ⊢
    rw [hcredit]
    simp only
    omega
  | released b r id s' hi hget hnew hr hs =>
    intro tok
    have hold := h tok
    have htotal := OrdMap.total_set (owed tok) s.bounties id { b with released := true }
    have hbal := settle_balance_le env s.ledger b r tok env.contract
    have howed : owed tok b = if tok = b.token then b.amount.val else 0 := by
      simp only [owed, hnew, true_and, eq_comm]
    rw [hget, owed_released, Option.map_some, Option.getD_some] at htotal
    rw [hs]
    simp only [outstanding] at hold ⊢
    omega

theorem initial_solvent (env : Env Address) (L : Ledger Address)
    (h : ∀ tok, 0 ≤ L.balance tok env.contract) : Solvent env (initial L) := h

theorem invoke_released {env : Env Address} {s s' : State Address} {c : Call Address} {id : U64}
    (h : invoke env s c = .ok (.released id, s')) :
    ∃ b r, s.bounties.get id = some b ∧ b.released = false ∧ s.feeRecipient = some r ∧
      s' = { s with
        bounties := s.bounties.set id { b with released := true }
        ledger := settle env s.ledger b r
        events := s.events ++ [.bountyReleased id b.payout b.fee] } := by
  have hstep := step_of_ok h
  have heff := step_effect env s c
  rw [hstep] at heff
  cases heff with
  | refused e hi =>
    rw [hi] at h
    cases h
  | initialized r hop hnone =>
    simp only [invoke, hop] at h
    obtain ⟨t, _, he⟩ := map_ok h
    cases he
  | created b j next s'' hi hauth hop hnew hid hnext hs =>
    rw [hi] at h
    cases h
  | released b r j s'' hi hget hnew hr hs =>
    rw [hi] at h
    cases h
    exact ⟨b, r, hget, hnew, hr, hs⟩

def payments (env : Env Address) (b : Bounty Address) (r : Address) : List (Transfer Address) :=
  (if 0 < b.fee then [⟨b.token, env.contract, r, b.fee⟩] else []) ++
    [⟨b.token, env.contract, b.hunter, b.payout⟩]

theorem settle_transfers (env : Env Address) (L : Ledger Address) (b : Bounty Address)
    (r : Address) : (settle env L b r).transfers = L.transfers ++ payments env b r := by
  unfold settle payments
  split <;> simp [Ledger.move]

omit [DecidableEq Address] in
theorem payments_sum (env : Env Address) (b : Bounty Address) (r : Address) :
    ((payments env b r).map Transfer.amount).sum = b.amount.val := by
  have hfee := fee_nonneg b
  unfold payments Bounty.payout
  split
  · simp
  · have hz : b.fee = 0 := by omega
    simp [hz]

theorem unreleased_by_creation (env : Env Address) (s : State Address) (c : Call Address) (id : U64)
    (hno : ¬ ∃ b, s.bounties.get id = some b ∧ b.released = false)
    (hyes : ∃ b, (step env s c).bounties.get id = some b ∧ b.released = false) :
    ∃ s', invoke env s c = .ok (.created id, s') := by
  have heff := step_effect env s c
  generalize step env s c = t at heff hyes
  cases heff with
  | refused e hi => exact absurd hyes hno
  | initialized r hop hnone => exact absurd hyes hno
  | created b j next s' hi hauth hop hnew hid hnext hs =>
    by_cases hj : j = id
    · exact ⟨_, hj ▸ hi⟩
    · rw [hs] at hyes
      simp only [OrdMap.get_set_of_ne _ _ hj] at hyes
      exact absurd hyes hno
  | released b r j s' hi hget hnew hr hs =>
    rw [hs] at hyes
    by_cases hj : j = id
    · obtain ⟨b', hb', hrel⟩ := hyes
      rw [hj] at hb'
      simp only [OrdMap.get_set_self, Option.some.injEq] at hb'
      rw [← hb'] at hrel
      cases hrel
    · simp only [OrdMap.get_set_of_ne _ _ hj] at hyes
      exact absurd hyes hno

/-- Conservation of the contract over every run: of each token it holds at least the
unreleased deposits, a release transfers from it exactly the stored amount (payout
and fee), and a second release under one identifier needs a new deposit under it. -/
theorem bounty_solvent_and_paid_once (env : Env Address) (L : Ledger Address)
    (hL : ∀ tok, 0 ≤ L.balance tok env.contract) (calls : List (Call Address))
    (hcaller : Along (step env) (ContractNotCaller env) (initial L) calls) :
    (∀ tok, outstanding (run (step env) (initial L) calls) tok ≤
      (run (step env) (initial L) calls).ledger.balance tok env.contract) ∧
    ∀ c id s', invoke env (run (step env) (initial L) calls) c = .ok (.released id, s') →
      (∃ b r, (run (step env) (initial L) calls).bounties.get id = some b ∧
        s'.ledger.transfers =
          (run (step env) (initial L) calls).ledger.transfers ++ payments env b r ∧
        ((payments env b r).map Transfer.amount).sum = b.amount.val ∧
        b.payout + b.fee = b.amount.val ∧ 0 ≤ b.payout ∧ 0 ≤ b.fee) ∧
      ∀ later c' s'', invoke env (run (step env) s' later) c' = .ok (.released id, s'') →
        ∃ pre d post t, later = pre ++ d :: post ∧
          invoke env (run (step env) s' pre) d = .ok (.created id, t) := by
  refine ⟨run_invariant (step env) (ContractNotCaller env) (Solvent env) (step_solvent env)
    (initial L) calls (initial_solvent env L hL) hcaller, ?_⟩
  intro c id s' hrel
  obtain ⟨b, r, hget, hnew, hr, hs⟩ := invoke_released hrel
  have hle := fee_le_amount b
  refine ⟨⟨b, r, hget, ?_, payments_sum env b r, ?_, ?_, fee_nonneg b⟩, ?_⟩
  · rw [hs]
    exact settle_transfers env _ b r
  · unfold Bounty.payout
    omega
  · unfold Bounty.payout
    omega
  · intro later c' s'' hrel'
    obtain ⟨b', r', hget', hnew', _, _⟩ := invoke_released hrel'
    have hno : ¬ ∃ b, s'.bounties.get id = some b ∧ b.released = false := by
      rintro ⟨b2, hb2, hrel2⟩
      rw [hs] at hb2
      simp only [OrdMap.get_set_self, Option.some.injEq] at hb2
      rw [← hb2] at hrel2
      cases hrel2
    obtain ⟨pre, d, post, hsplit, hbefore, hafter⟩ := run_turns (step env)
      (fun s => ∃ b, s.bounties.get id = some b ∧ b.released = false) s' later hno
      ⟨b', hget', hnew'⟩
    obtain ⟨t, ht⟩ := unreleased_by_creation env _ d id hbefore hafter
    exact ⟨pre, d, post, t, hsplit, ht⟩

end Solvency

theorem bounty_solvent_and_paid_once_sample :
    outstanding (run (step sampleEnv) (initial sampleLedger) [sampleInitialize, sampleCreate]) 9 ≤
      (run (step sampleEnv) (initial sampleLedger)
        [sampleInitialize, sampleCreate]).ledger.balance 9 0 := by
  have hL : ∀ tok, 0 ≤ sampleLedger.balance tok sampleEnv.contract := by
    intro tok
    simp [sampleLedger, sampleEnv]
  have hcaller : Along (step sampleEnv) (ContractNotCaller sampleEnv) (initial sampleLedger)
      [sampleInitialize, sampleCreate] := by
    simp [Along, ContractNotCaller, sampleEnv, sampleInitialize, sampleCreate]
  exact (bounty_solvent_and_paid_once sampleEnv sampleLedger hL
    [sampleInitialize, sampleCreate] hcaller).1 9

end Liquifact.Contracts.BountyContract
