import Liquifact.Contracts.BountyContract

/-!
# Bounty identifiers

`NextId` is written by `create_bounty`, which advances it, and by `initialize`,
which sets it back to zero. Identifiers are fresh, and records are kept, along
every run in which `initialize` is not accepted after a deposit.
-/

namespace Liquifact.Contracts.BountyContract
open Liquifact.Lib

section Ids
variable {Address : Type}

/-- Every stored identifier lies below the counter. -/
def IdsBelow (s : State Address) : Prop :=
  ∀ id b, s.bounties.get id = some b → id.val < (s.nextId.getD 0).val

/- An `initialize` that would be accepted finds no bounty stored. -/
def InitializeFirst (s : State Address) (c : Call Address) : Prop :=
  ∀ r, c.op = .initializeContract r → s.feeRecipient = none → s.bounties.entries = []

theorem initial_idsBelow (L : Ledger Address) : IdsBelow (initial L) := by
  intro id b h
  cases h

theorem idsBelow_fresh {s : State Address} (h : IdsBelow s) :
    s.bounties.get (s.nextId.getD 0) = none := by
  cases hg : s.bounties.get (s.nextId.getD 0) with
  | none => rfl
  | some b => exact absurd (h _ b hg) (lt_irrefl _)

variable [DecidableEq Address]

def NotReleasing (env : Env Address) (id : U64) (s : State Address) (c : Call Address) : Prop :=
  ∀ s', invoke env s c ≠ .ok (.released id, s')

theorem step_idsBelow (env : Env Address) (s : State Address) (c : Call Address)
    (h : IdsBelow s) (hc : InitializeFirst s c) : IdsBelow (step env s c) := by
  have heff := step_effect env s c
  generalize step env s c = t at heff ⊢
  cases heff with
  | refused e hi => exact h
  | initialized r hop hnone =>
    intro id b hg
    have hempty := hc r hop hnone
    simp only [OrdMap.get, hempty] at hg
    cases hg
  | created b id next s' hi hauth hop hnew hid hnext hs =>
    intro j bj hg
    rw [hs] at hg ⊢
    simp only [OrdMap.get_set] at hg
    simp only [Option.getD_some, hnext]
    by_cases hj : id = j
    · rw [hj]
      omega
    · rw [if_neg hj] at hg
      have hlt := h j bj hg
      rw [← hid] at hlt
      omega
  | released b r id s' hi hget hnew hr hs =>
    intro j bj hg
    rw [hs] at hg ⊢
    simp only [OrdMap.get_set] at hg
    by_cases hj : id = j
    · rw [← hj]
      exact h id b hget
    · rw [if_neg hj] at hg
      exact h j bj hg

theorem run_idsBelow (env : Env Address) (s : State Address) (calls : List (Call Address))
    (h : IdsBelow s) (hf : Along (step env) InitializeFirst s calls) :
    IdsBelow (run (step env) s calls) :=
  run_invariant (step env) InitializeFirst IdsBelow (step_idsBelow env) s calls h hf

theorem step_keeps_record (env : Env Address) (s : State Address) (c : Call Address) (id : U64)
    (b : Bounty Address) (hbelow : IdsBelow s) (hget : s.bounties.get id = some b)
    (hc : NotReleasing env id s c) : (step env s c).bounties.get id = some b := by
  have heff := step_effect env s c
  generalize step env s c = t at heff ⊢
  cases heff with
  | refused e hi => exact hget
  | initialized r hop hnone => exact hget
  | created b' j next s' hi hauth hop hnew hid hnext hs =>
    have hne : j ≠ id := by
      intro hj
      have hlt := hbelow id b hget
      rw [← hid, hj] at hlt
      exact lt_irrefl _ hlt
    rw [hs]
    simp only [OrdMap.get_set_of_ne _ _ hne, hget]
  | released b' r j s' hi hget' hnew hr hs =>
    have hne : j ≠ id := by
      intro hj
      exact hc _ (hj ▸ hi)
    rw [hs]
    simp only [OrdMap.get_set_of_ne _ _ hne, hget]

theorem run_keeps_record (env : Env Address) (s : State Address) (calls : List (Call Address))
    (id : U64) (b : Bounty Address) (hbelow : IdsBelow s) (hget : s.bounties.get id = some b)
    (hf : Along (step env) InitializeFirst s calls)
    (hq : Along (step env) (NotReleasing env id) s calls) :
    (run (step env) s calls).bounties.get id = some b := by
  induction calls generalizing s with
  | nil => exact hget
  | cons c calls ih =>
    have hkeep := step_keeps_record env s c id b hbelow hget hq.1
    exact ih (step env s c) (step_idsBelow env s c hbelow hf.1) hkeep hf.2 hq.2

theorem invoke_created {env : Env Address} {s s' : State Address} {c : Call Address} {id : U64}
    (h : invoke env s c = .ok (.created id, s')) :
    ∃ b next, b.released = false ∧ b.creator ∈ c.auths ∧
      c.op = .createBounty b.creator b.hunter b.token b.amount b.protocolFeeBps ∧
      id = s.nextId.getD 0 ∧ next.val = id.val + 1 ∧
      s' = { s with
        nextId := some next
        bounties := s.bounties.set id b
        ledger := s.ledger.move ⟨b.token, b.creator, env.contract, b.amount.val⟩
        events := s.events ++ [.bountyCreated id b.amount.val] } := by
  have hstep := step_of_ok h
  have heff := step_effect env s c
  rw [hstep] at heff
  cases heff with
  | refused e hi =>
    rw [hi] at h
    cases h
  | initialized r hop hnone =>
    simp only [invoke, hop] at h
    obtain ⟨t, _, he⟩ := map_ok h
    cases he
  | created b j next s'' hi hauth hop hnew hid hnext hs =>
    rw [hi] at h
    cases h
    exact ⟨b, next, hnew, hauth, hop, hid, hnext, hs⟩
  | released b r j s'' hi hget hnew hr hs =>
    rw [hi] at h
    cases h

/-- Along every run in which `initialize` is not accepted after a deposit, the
identifier `create_bounty` returns belongs to no stored bounty, and the record of
the accepted deposit stays as it is until that bounty is released. -/
theorem create_bounty_id_fresh (env : Env Address) (L : Ledger Address)
    (calls : List (Call Address)) (auths : List Address) (creator hunter token : Address)
    (amount : I128) (bps : U32) (id : U64) (s' : State Address)
    (hfirst : Along (step env) InitializeFirst (initial L) calls)
    (hcreate : invoke env (run (step env) (initial L) calls)
      ⟨auths, .createBounty creator hunter token amount bps⟩ = .ok (.created id, s')) :
    (run (step env) (initial L) calls).bounties.get id = none ∧
    ∃ b : Bounty Address, b.creator = creator ∧ b.hunter = hunter ∧ b.token = token ∧
      b.amount = amount ∧ b.protocolFeeBps = bps ∧ b.released = false ∧
      ∀ later, Along (step env) InitializeFirst s' later →
        Along (step env) (NotReleasing env id) s' later →
        (run (step env) s' later).bounties.get id = some b := by
  have hbelow := run_idsBelow env (initial L) calls (initial_idsBelow L) hfirst
  obtain ⟨b, next, hnew, hauth, hop, hid, hnext, hs⟩ := invoke_created hcreate
  obtain ⟨rfl, rfl, rfl, rfl, rfl⟩ := Op.createBounty.inj hop
  refine ⟨by rw [hid]; exact idsBelow_fresh hbelow, b, rfl, rfl, rfl, rfl, rfl, hnew, ?_⟩
  intro later hf hq
  have hbelow' : IdsBelow s' := by
    have hstep := step_idsBelow env _
      ⟨auths, .createBounty b.creator b.hunter b.token b.amount b.protocolFeeBps⟩ hbelow
      (by intro r hr; cases hr)
    rwa [step_of_ok hcreate] at hstep
  have hget : s'.bounties.get id = some b := by
    rw [hs]
    exact OrdMap.get_set_self _ _ _
  exact run_keeps_record env s' later id b hbelow' hget hf hq

end Ids

/-! ### A concrete host

Addresses are numbers, `0` is the contract; a transfer is refused when the source
does not hold the amount. -/

def sampleEnv : Env ℕ where
  contract := 0
  transferAccepted L t := decide (t.amount ≤ L.balance t.token t.source)

def sampleLedger : Ledger ℕ := ⟨fun _ a => if a = 1 then 1000 else 0, []⟩

def sampleAmount : I128 := ⟨500, by norm_num, by norm_num⟩

def sampleCreate : Call ℕ := ⟨[1], .createBounty 1 2 9 sampleAmount 100⟩

def sampleInitialize : Call ℕ := ⟨[], .initializeContract 3⟩

def createdId (env : Env ℕ) (s : State ℕ) (c : Call ℕ) : Option U64 :=
  match invoke env s c with
  | .ok (.created id, _) => some id
  | _ => none

theorem createdId_eq (env : Env ℕ) (s : State ℕ) (c : Call ℕ) (id : U64)
    (h : createdId env s c = some id) : ∃ s', invoke env s c = .ok (.created id, s') := by
  unfold createdId at h
  split at h
  · rename_i j s' hi
    cases h
    exact ⟨s', hi⟩
  · cases h

theorem create_bounty_id_fresh_second :
    ∃ s', invoke sampleEnv (run (step sampleEnv) (initial sampleLedger)
        [sampleInitialize, sampleCreate]) sampleCreate = .ok (.created 1, s') ∧
      (run (step sampleEnv) (initial sampleLedger)
        [sampleInitialize, sampleCreate]).bounties.get 1 = none := by
  obtain ⟨s', hs'⟩ := createdId_eq sampleEnv (run (step sampleEnv) (initial sampleLedger)
    [sampleInitialize, sampleCreate]) sampleCreate 1 (by decide)
  have hfirst : Along (step sampleEnv) InitializeFirst (initial sampleLedger)
      [sampleInitialize, sampleCreate] := by
    simp [Along, InitializeFirst, initial, OrdMap.empty, sampleCreate]
  exact ⟨s', hs', (create_bounty_id_fresh sampleEnv sampleLedger
    [sampleInitialize, sampleCreate] [1] 1 2 9 sampleAmount 100 1 s' hfirst hs').1⟩

/-- A deposit, then `initialize`, then a second deposit: the second one returns the
identifier under which the first is stored. -/
theorem create_bounty_reuses_id :
    ¬ ∀ (calls : List (Call ℕ)) (c : Call ℕ) (id : U64) (s' : State ℕ),
      invoke sampleEnv (run (step sampleEnv) (initial sampleLedger) calls) c =
        .ok (.created id, s') →
      (run (step sampleEnv) (initial sampleLedger) calls).bounties.get id = none := by
  intro h
  obtain ⟨s', hs'⟩ := createdId_eq sampleEnv (run (step sampleEnv) (initial sampleLedger)
    [sampleCreate, sampleInitialize]) sampleCreate 0 (by decide)
  have hnone := h [sampleCreate, sampleInitialize] sampleCreate 0 s' hs'
  have hsome : ((run (step sampleEnv) (initial sampleLedger)
      [sampleCreate, sampleInitialize]).bounties.get 0).isSome = true := by decide
  rw [hnone] at hsome
  cases hsome

end Liquifact.Contracts.BountyContract
