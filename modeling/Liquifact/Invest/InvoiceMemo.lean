import Liquifact.Invest.FundInvoice

/-!
# Which accepted invoices can be funded

The route takes an identifier of 3 to 64 characters (`src/routes/invest.js`, 38-71). In the
delegated and the custodial mode `submitFundEscrow` (`src/services/escrowSubmit.js`, 71-182) puts it
behind `lq:` into a memo of at most 28 bytes. The keys of the invoices table are UUIDs.
-/

namespace Liquifact.Invest
open Liquifact.Lib

/-! ### The length of a memo -/

theorem utf8Char_ascii {c : Char} (h : c.toNat < 128) : (utf8Char c).length = 1 := by
  unfold utf8Char
  rw [if_pos h]
  rfl

theorem flatMap_utf8Char_ascii {cs : List Char} (h : ∀ c ∈ cs, c.toNat < 128) :
    (cs.flatMap utf8Char).length = cs.length := by
  induction cs with
  | nil => rfl
  | cons c cs ih =>
    have hrest := ih fun d hd => h d (List.mem_cons_of_mem c hd)
    rw [List.flatMap_cons, List.length_append, utf8Char_ascii (h c List.mem_cons_self), hrest,
      List.length_cons, Nat.add_comm]

theorem utf8Bytes_append (s t : String) : utf8Bytes (s ++ t) = utf8Bytes s ++ utf8Bytes t := by
  rw [utf8Bytes, String.toList_append, List.flatMap_append]
  rfl

theorem memo_length (id : String) : (utf8Bytes ("lq:" ++ id)).length = 3 + (utf8Bytes id).length := by
  have hprefix : (utf8Bytes "lq:").length = 3 := by simp [utf8Bytes, utf8Char]
  rw [utf8Bytes_append, List.length_append, hprefix]

theorem buildMemo_ok_iff {id memo : String} :
    buildMemo id = .ok memo ↔ (utf8Bytes id).length ≤ 25 ∧ memo = "lq:" ++ id := by
  have hlength := memo_length id
  have hmax : memoMaxBytes = 28 := rfl
  simp only [buildMemo, hlength, hmax]
  by_cases hfits : 28 < 3 + (utf8Bytes id).length
  · rw [if_pos hfits]
    constructor
    · intro h
      cases h
    · intro h
      omega
  · rw [if_neg hfits]
    constructor
    · intro h
      cases h
      exact ⟨by omega, rfl⟩
    · rintro ⟨-, rfl⟩
      rfl

/-! ### Submitting under another memo -/

/- Two transactions for the same funding call, each under a memo of its own. -/
def Twins (chain : Chain) (tx tx' : String) : Prop :=
  ∃ escrow investor amount memo memo', chain.build escrow investor amount memo = .ok tx ∧
    chain.build escrow investor amount memo' = .ok tx'

/- Neither the SDK nor the server rejects a transaction for its memo. -/
structure BlindToMemo (chain : Chain) : Prop where
  build : ∀ escrow investor amount memo memo' tx, chain.build escrow investor amount memo = .ok tx →
    ∃ tx', chain.build escrow investor amount memo' = .ok tx'
  simulate : ∀ tx tx', Twins chain tx tx' → chain.simulate tx = .ok none → chain.simulate tx' = .ok none
  prepare : ∀ tx tx' p, Twins chain tx tx' → chain.prepare tx = .ok p → ∃ p', chain.prepare tx' = .ok p'
  send : ∀ tx tx' p p' response, Twins chain tx tx' → chain.prepare tx = .ok p →
    chain.prepare tx' = .ok p' → chain.send p = .ok response → response.status ≠ "ERROR" →
    ∃ response', chain.send p' = .ok response' ∧ response'.status ≠ "ERROR"

structure Fundable (id : String) : Prop where
  memo : ∃ memo, buildMemo id = .ok memo ∧ (utf8Bytes memo).length ≤ memoMaxBytes ∧
    ∀ other, buildMemo other = .ok memo → other = id
  submitted : ∀ env chain escrow investor amount, BlindToMemo chain →
    (signingMode env = "delegated" ∨ signingMode env = "custodial") →
    (∃ other r, submitFundEscrow env chain escrow investor amount other = .ok r) →
    ∃ r, submitFundEscrow env chain escrow investor amount id = .ok r

theorem prepareFundEscrow_ok_iff {chain : Chain} {escrow investor amount id p : String} :
    prepareFundEscrow chain escrow investor amount id = .ok p ↔
      ∃ n memo tx, bigIntOf amount = .ok n ∧ buildMemo id = .ok memo ∧
        chain.build escrow investor n memo = .ok tx ∧ chain.simulate tx = .ok none ∧
        chain.prepare tx = .ok p := by
  constructor
  · intro h
    obtain ⟨n, hn, h⟩ := bind_ok h
    obtain ⟨memo, hmemo, h⟩ := bind_ok h
    obtain ⟨tx, htx, h⟩ := bind_ok h
    obtain ⟨failure, hfailure, h⟩ := bind_ok h
    cases failure with
    | some err => cases h
    | none => exact ⟨n, memo, tx, hn, hmemo, htx, hfailure, h⟩
  · rintro ⟨n, memo, tx, hn, hmemo, htx, hfailure, hp⟩
    refine (bind_of hn).trans ((bind_of hmemo).trans ?_)
    exact (bind_of htx).trans ((bind_of hfailure).trans hp)

theorem signAndSubmit_ok_iff {env : SubmitEnv} {chain : Chain} {p escrow : String} :
    (∃ r, signAndSubmit env chain p escrow = .ok r) ↔
      ∃ secret response, truthy env.escrowPlatformSecret = some secret ∧
        chain.isSecretKey secret = true ∧ chain.send p = .ok response ∧ response.status ≠ "ERROR" := by
  constructor
  · rintro ⟨r, h⟩
    unfold signAndSubmit at h
    split at h
    · cases h
    · next secret hsecret =>
      split at h
      · next hkey =>
        obtain ⟨response, hsend, h⟩ := bind_ok h
        split at h
        · cases h
        · next hstatus => exact ⟨secret, response, hsecret, hkey, hsend, hstatus⟩
      · cases h
  · rintro ⟨secret, response, hsecret, hkey, hsend, hstatus⟩
    refine ⟨⟨.submitted, escrow, none, some response.hash,
      if response.latestLedger = 0 then none else some (Nat.repr response.latestLedger)⟩, ?_⟩
    unfold signAndSubmit
    simp only [hsecret]
    rw [if_pos hkey]
    refine (bind_of hsend).trans ?_
    rw [if_neg hstatus]

/- The identifier that got in hands its transaction over to every other that fits. -/
theorem prepareFundEscrow_twin {chain : Chain} (hblind : BlindToMemo chain)
    {escrow investor amount other id p memo : String} (hmemo : buildMemo id = .ok memo)
    (h : prepareFundEscrow chain escrow investor amount other = .ok p) :
    ∃ p', prepareFundEscrow chain escrow investor amount id = .ok p' ∧
      ∀ response, chain.send p = .ok response → response.status ≠ "ERROR" →
        ∃ response', chain.send p' = .ok response' ∧ response'.status ≠ "ERROR" := by
  obtain ⟨n, memo₀, tx, hn, -, htx, hsimulate, hp⟩ := prepareFundEscrow_ok_iff.mp h
  obtain ⟨tx', htx'⟩ := hblind.build escrow investor n memo₀ memo tx htx
  have htwins : Twins chain tx tx' := ⟨escrow, investor, n, memo₀, memo, htx, htx'⟩
  obtain ⟨p', hp'⟩ := hblind.prepare tx tx' p htwins hp
  refine ⟨p', ?_, ?_⟩
  · exact prepareFundEscrow_ok_iff.mpr
      ⟨n, memo, tx', hn, hmemo, htx', hblind.simulate tx tx' htwins hsimulate, hp'⟩
  · intro response hsend hstatus
    exact hblind.send tx tx' p p' response htwins hp hp' hsend hstatus

theorem submitFundEscrow_twin {env : SubmitEnv} {chain : Chain} (hblind : BlindToMemo chain)
    (hmode : signingMode env = "delegated" ∨ signingMode env = "custodial")
    {escrow investor amount other id memo : String} {r : SubmitResult} (hmemo : buildMemo id = .ok memo)
    (h : submitFundEscrow env chain escrow investor amount other = .ok r) :
    ∃ r', submitFundEscrow env chain escrow investor amount id = .ok r' := by
  have hlive : signingMode env ≠ "stubbed" := by
    rcases hmode with hmode | hmode
    · rw [hmode]; decide
    · rw [hmode]; decide
  unfold submitFundEscrow at h ⊢
  rw [if_neg hlive] at h ⊢
  obtain ⟨url, hurl, h⟩ := bind_ok h
  obtain ⟨passphrase, hpassphrase, h⟩ := bind_ok h
  obtain ⟨platform, hplatform, h⟩ := bind_ok h
  obtain ⟨_, hpreflight, h⟩ := bind_ok h
  obtain ⟨_, haccount, h⟩ := bind_ok h
  obtain ⟨p, hp, h⟩ := bind_ok h
  obtain ⟨p', hp', hsend⟩ := prepareFundEscrow_twin hblind hmemo hp
  rw [hurl, hpassphrase, hplatform]
  simp only [bind, Except.bind, hpreflight, haccount, hp']
  rcases hmode with hmode | hmode
  · rw [if_pos hmode]
    exact ⟨_, rfl⟩
  · have hdelegated : signingMode env ≠ "delegated" := by rw [hmode]; decide
    rw [if_neg hdelegated, if_pos hmode] at h ⊢
    obtain ⟨secret, response, hsecret, hkey, hresponse, hstatus⟩ := signAndSubmit_ok_iff.mp ⟨r, h⟩
    obtain ⟨response', hresponse', hstatus'⟩ := hsend response hresponse hstatus
    exact signAndSubmit_ok_iff.mpr ⟨secret, response', hsecret, hkey, hresponse', hstatus'⟩

/-! ### The identifiers the route takes -/

theorem ascii_of_matched {c : Char} (h : (c.isAlphanum || c = '_' || c = '-') = true) :
    c.toNat < 128 := by
  change ((decide (c.val ≥ 'A'.val ∧ c.val ≤ 'Z'.val) || (decide (c.val ≥ 'a'.val) &&
    decide (c.val ≤ 'z'.val))) || (decide (c.val ≥ '0'.val) && decide (c.val ≤ '9'.val)) ||
    decide (c = '_') || decide (c = '-')) = true at h
  simp only [Bool.or_eq_true, Bool.and_eq_true, decide_eq_true_eq, UInt32.le_iff_toNat_le,
    ge_iff_le] at h
  change ((((65 ≤ c.toNat ∧ c.toNat ≤ 90) ∨ (97 ≤ c.toNat ∧ c.toNat ≤ 122)) ∨
    (48 ≤ c.toNat ∧ c.toNat ≤ 57)) ∨ c = '_') ∨ c = '-' at h
  rcases h with (((hupper | hlower) | hdigit) | rfl) | rfl
  · omega
  · omega
  · omega
  · decide
  · decide

theorem matches_of_accepted {strKey : StrKey} {body : Option Json} {id : String}
    (hid : field "invoiceId" body = some (.str id)) (h : validateFundInvoiceBody strKey body = []) :
    matchesFundInvoiceId id = true := by
  unfold validateFundInvoiceBody at h
  split at h
  · rw [hid] at h
    have hcomplaint := (List.append_eq_nil_iff.mp (List.append_eq_nil_iff.mp h).1).1
    have htext : textOf (some (.str id)) = id := rfl
    rw [htext] at hcomplaint
    have hmatches := (Bool.or_eq_false_iff.mp (complain_eq_nil hcomplaint)).2
    rwa [Bool.not_eq_false'] at hmatches
  · cases h

theorem utf8Bytes_length_of_matches {id : String} (h : matchesFundInvoiceId id = true) :
    (utf8Bytes id).length = id.toList.length := by
  obtain ⟨-, hchars⟩ := Bool.and_eq_true_iff.mp h
  exact flatMap_utf8Char_ascii fun c hc => ascii_of_matched (List.all_eq_true.mp hchars c hc)

/-- For every body the route accepts with a string for its identifier: the identifier fits into a
memo from which it can be read back, and no delegated or custodial submission fails for its
sake, if and only if it has at most 25 characters. -/
theorem fundable_iff (strKey : StrKey) (body : Option Json) (id : String)
    (hid : field "invoiceId" body = some (.str id))
    (haccepted : validateFundInvoiceBody strKey body = []) :
    Fundable id ↔ id.toList.length ≤ 25 := by
  have hbytes := utf8Bytes_length_of_matches (matches_of_accepted hid haccepted)
  constructor
  · intro hfundable
    obtain ⟨memo, hmemo, -⟩ := hfundable.memo
    rw [← hbytes]
    exact (buildMemo_ok_iff.mp hmemo).1
  · intro hlength
    have hmemo : buildMemo id = .ok ("lq:" ++ id) := buildMemo_ok_iff.mpr ⟨hbytes.trans_le hlength, rfl⟩
    refine ⟨⟨"lq:" ++ id, hmemo, ?_, ?_⟩, ?_⟩
    · rw [memo_length, hbytes]
      exact Nat.add_le_add_left hlength 3
    · intro other hother
      exact ((String.append_right_inj "lq:").mp (buildMemo_ok_iff.mp hother).2).symm
    · rintro env chain escrow investor amount hblind hmode ⟨other, r, hr⟩
      exact submitFundEscrow_twin hblind hmode hmemo hr

/-! ### Short identifiers and UUIDs -/

def bodyFor (id : String) : Option Json :=
  some (.obj [("invoiceId", .str id), ("investorAddress", .str sampleInvestor),
    ("amountStroops", .num (.fin 100))])

theorem bodyFor_accepted {id : String} (h : matchesFundInvoiceId id = true) (hne : id ≠ "") :
    validateFundInvoiceBody sampleContext.strKey (bodyFor id) = [] := by
  have htext : ∀ s, (Json.str s).truthy = decide (s ≠ "") := fun _ => rfl
  have hamount : (Json.num (.fin 100)).truthy = true := by decide
  have hnumber : isPositiveInteger (Json.num (.fin 100)).toNumber = true := by decide
  simp [validateFundInvoiceBody, bodyFor, field, Json.member, OrdMap.lookupL, complain,
    truthyValue, htext, textOf, Json.text, h, hne, isAddress, isValidStellarAddress,
    sampleContext, sampleInvestor, numberOf, hamount, hnumber]

theorem fundable_short : field "invoiceId" (bodyFor "inv_1") = some (.str "inv_1") ∧
    validateFundInvoiceBody sampleContext.strKey (bodyFor "inv_1") = [] ∧
    (Fundable "inv_1" ↔ "inv_1".toList.length ≤ 25) := by
  have hid : field "invoiceId" (bodyFor "inv_1") = some (.str "inv_1") := rfl
  have hmatches : matchesFundInvoiceId "inv_1" = true := by decide
  have haccepted := bodyFor_accepted hmatches (by decide)
  exact ⟨hid, haccepted, fundable_iff _ _ _ hid haccepted⟩

/- The text of a `UUID` column. -/
def isUuidText (s : String) : Bool :=
  decide (s.toList.length = 36) && s.toList.zipIdx.all fun (c, i) =>
    if i = 8 ∨ i = 13 ∨ i = 18 ∨ i = 23 then c = '-'
    else c.isDigit || c = 'a' || c = 'b' || c = 'c' || c = 'd' || c = 'e' || c = 'f'

theorem uuid_char {s : String} (h : isUuidText s = true) :
    ∀ c ∈ s.toList, (c.isAlphanum || c = '_' || c = '-') = true := by
  obtain ⟨-, hchars⟩ := Bool.and_eq_true_iff.mp h
  intro c hc
  obtain ⟨i, hi⟩ := List.mem_iff_getElem?.mp hc
  have hchar := List.all_eq_true.mp hchars (c, i) (List.mem_zipIdx_iff_getElem?.mpr hi)
  dsimp only at hchar
  split at hchar
  · rw [of_decide_eq_true hchar]
    decide
  · simp only [Bool.or_eq_true, decide_eq_true_eq] at hchar
    rcases hchar with (((((hdigit | rfl) | rfl) | rfl) | rfl) | rfl) | rfl
    · have halphanum : c.isAlphanum = true := Bool.or_eq_true_iff.mpr (Or.inr hdigit)
      rw [halphanum]
      rfl
    all_goals decide

theorem uuid_unfundable {id : String} (h : isUuidText id = true) :
    matchesFundInvoiceId id = true ∧ ¬ Fundable id := by
  have hlength := of_decide_eq_true (Bool.and_eq_true_iff.mp h).1
  have hmatches : matchesFundInvoiceId id = true := by
    refine Bool.and_eq_true_iff.mpr ⟨decide_eq_true ⟨?_, ?_⟩, List.all_eq_true.mpr (uuid_char h)⟩
    · rw [hlength]; decide
    · rw [hlength]; decide
  refine ⟨hmatches, ?_⟩
  intro hfundable
  obtain ⟨memo, hmemo, -⟩ := hfundable.memo
  have hfits := (buildMemo_ok_iff.mp hmemo).1
  rw [utf8Bytes_length_of_matches hmatches, hlength] at hfits
  exact absurd hfits (by decide)

theorem uuid_not_fundable : ¬ ∀ (strKey : StrKey) (body : Option Json) (id : String),
    field "invoiceId" body = some (.str id) → validateFundInvoiceBody strKey body = [] →
    Fundable id := by
  intro h
  have huuid : isUuidText "550e8400-e29b-41d4-a716-446655440000" = true := by decide
  obtain ⟨hmatches, hunfundable⟩ := uuid_unfundable huuid
  exact hunfundable (h _ (bodyFor "550e8400-e29b-41d4-a716-446655440000") _ rfl
    (bodyFor_accepted hmatches (by decide)))

end Liquifact.Invest
