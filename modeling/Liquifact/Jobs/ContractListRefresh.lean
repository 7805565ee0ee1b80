import Liquifact.Lib.JsValue
import Liquifact.Lib.Numerals
import Liquifact.Lib.Run
import Liquifact.Lib.Separated
import Mathlib.Data.List.Induction

/-!
# Version-mismatch alerts (`jobs/contractListRefresh.js`, `config/escrowVersions.js`)

A run reads the schema version of a contract and compares it with the registry. Of each
contract the last alerted pair of versions is remembered, and forgotten when its version is
current again. What a run does after its read it does in one go, so a history lists the
runs in the order in which their reads end.
-/

namespace Liquifact.Jobs
open Liquifact.Lib

/-- The registry in the order of its entries, the environment, and `StrKey.isValidContract`. -/
structure RefreshEnv where
  registry : List (String × UInt32)
  escrowContractId : Option String
  isValidContract : String → Bool

/-- One call, with what the RPC reads or fails with. -/
structure RefreshRun where
  contractId : Option String
  rpc : Except String UInt32

structure RefreshError where
  message : String
  code : String

/- `contractId || process.env.ESCROW_CONTRACT_ID`. -/
def targetId (env : RefreshEnv) (contractId : Option String) : Option String :=
  (truthy contractId).or env.escrowContractId

def isValidContractId (env : RefreshEnv) (id : Option String) : Bool :=
  match id with
  | some id => env.isValidContract id
  | none => false

def getOnChainSchemaVersion (env : RefreshEnv) (r : RefreshRun) : Except RefreshError UInt32 :=
  if isValidContractId env (targetId env r.contractId) then
    match r.rpc with
    | .ok version => .ok version
    | .error message => .error ⟨"RPC read failed: " ++ message, "RPC_ERROR"⟩
  else .error ⟨"Invalid or missing ESCROW_CONTRACT_ID", "INVALID_CONTRACT_ID"⟩

inductive VersionStatus where
  | current
  | ahead
  | unknown
  deriving DecidableEq

structure Comparison where
  status : VersionStatus
  knownVersion : Option String

/- The first of the entries with the highest version. -/
def maxEntry (first : String × UInt32) (rest : List (String × UInt32)) : String × UInt32 :=
  rest.foldl (fun best cur => if best.2 < cur.2 then cur else best) first

def compareVersions (registry : List (String × UInt32)) (onChainVersion : UInt32) : Comparison :=
  match registry with
  | [] => ⟨.unknown, none⟩
  | first :: rest =>
    let highest := maxEntry first rest
    if onChainVersion = highest.2 then ⟨.current, some highest.1⟩
    else if highest.2 < onChainVersion then ⟨.ahead, some highest.1⟩
    else ⟨.unknown, (registry.find? fun e => e.2 == onChainVersion).map Prod.fst⟩

def MISMATCH_STATUSES : List VersionStatus := [.ahead, .unknown]

/-- The last alerted pair of versions, by contract. -/
abbrev AlertState := OrdMap String String

def dedupeMapKey (contractId : Option String) : String := (truthy contractId).getD "<default>"

structure VersionAlert where
  contractId : Option String
  expectedVersion : Option String
  observedVersion : UInt32
  status : VersionStatus

/- `${expectedVersion || 'none'}|${observedVersion}`. -/
def alertSignature (expectedVersion : Option String) (observedVersion : UInt32) : String :=
  (truthy expectedVersion).getD "none" ++ ("|" ++ observedVersion.toNat.repr)

/- The alert, if it is a new one, with the state after it. -/
def raiseVersionMismatchAlert (alerted : AlertState) (contractId : Option String)
    (observedVersion : UInt32) (expectedVersion : Option String) (status : VersionStatus) :
    Option VersionAlert × AlertState :=
  let mapKey := dedupeMapKey contractId
  let signature := alertSignature expectedVersion observedVersion
  if alerted.get mapKey = some signature then (none, alerted)
  else
    (some ⟨truthy contractId, truthy expectedVersion, observedVersion, status⟩,
      alerted.set mapKey signature)

structure RefreshResult where
  onChainVersion : UInt32
  comparison : Comparison

structure RefreshOutcome where
  result : Except RefreshError RefreshResult
  alert : Option VersionAlert
  alerted : AlertState

/- The contract a run is about. -/
def resolvedId (env : RefreshEnv) (r : RefreshRun) : Option String :=
  truthy (targetId env r.contractId)

def runContractListRefresh (env : RefreshEnv) (alerted : AlertState) (r : RefreshRun) :
    RefreshOutcome :=
  match getOnChainSchemaVersion env r with
  | .error e => ⟨.error e, none, alerted⟩
  | .ok onChainVersion =>
    let comparison := compareVersions env.registry onChainVersion
    if comparison.status ∈ MISMATCH_STATUSES then
      let (alert, alerted') := raiseVersionMismatchAlert alerted (resolvedId env r) onChainVersion
        comparison.knownVersion comparison.status
      ⟨.ok ⟨onChainVersion, comparison⟩, alert, alerted'⟩
    else
      ⟨.ok ⟨onChainVersion, comparison⟩, none, alerted.delete (dedupeMapKey (resolvedId env r))⟩

/- The state after a history that starts with the process. -/
def alertedAfter (env : RefreshEnv) (history : List RefreshRun) : AlertState :=
  run (fun alerted r => (runContractListRefresh env alerted r).alerted) OrdMap.empty history

/-! ### What the histories say -/

def IsMismatch (env : RefreshEnv) (version : UInt32) : Prop :=
  (compareVersions env.registry version).status ∈ MISMATCH_STATUSES

instance (env : RefreshEnv) (version : UInt32) : Decidable (IsMismatch env version) := by
  unfold IsMismatch
  infer_instance

/- The versions that were read of one contract, in order. -/
def versionsRead (env : RefreshEnv) (contract : Option String) (history : List RefreshRun) :
    List UInt32 :=
  history.filterMap fun r =>
    if resolvedId env r = contract then (getOnChainSchemaVersion env r).toOption else none

def lastRead (env : RefreshEnv) (contract : Option String) (history : List RefreshRun) :
    Option UInt32 :=
  (versionsRead env contract history).getLast?

/- What is remembered of a contract after a version of it was read. -/
def remembered (env : RefreshEnv) (version : UInt32) : Option String :=
  if IsMismatch env version then
    some (alertSignature (compareVersions env.registry version).knownVersion version)
  else none

theorem alertSignature_inj {known known' : Option String} {v w : UInt32}
    (h : alertSignature known v = alertSignature known' w) : v = w := by
  have hdigits : ∀ n : ℕ, '|' ∉ n.repr.toList := by
    intro n hbar
    rw [Nat.toList_repr] at hbar
    exact absurd (Nat.isDigit_of_mem_toDigits (by omega) (by omega) hbar) (by decide)
  obtain ⟨-, hnat⟩ := append_sep_inj_last (hdigits _) (hdigits _) h
  exact UInt32.toNat_inj.mp (repr_injective hnat)

theorem remembered_eq_signature_iff {env : RefreshEnv} {v w : UInt32} :
    remembered env w = some (alertSignature (compareVersions env.registry v).knownVersion v) ↔
      IsMismatch env w ∧ w = v := by
  unfold remembered
  split
  · rename_i hmismatch
    constructor
    · intro h
      exact ⟨hmismatch, alertSignature_inj (Option.some.inj h)⟩
    · rintro ⟨-, rfl⟩
      rfl
  · rename_i hmatch
    refine iff_of_false (by simp) ?_
    rintro ⟨h, -⟩
    exact hmatch h

/-! ### One run -/

section

variable {env : RefreshEnv}

/- A contract of which a version was read has an address. -/
theorem resolvedId_of_read (hempty : env.isValidContract "" = false) {r : RefreshRun} {v : UInt32}
    (h : getOnChainSchemaVersion env r = .ok v) :
    ∃ id, id ≠ "" ∧ resolvedId env r = some id := by
  unfold getOnChainSchemaVersion at h
  split at h
  · rename_i hvalid
    cases htarget : targetId env r.contractId with
    | none =>
      rw [htarget] at hvalid
      cases hvalid
    | some id =>
      rw [htarget] at hvalid
      have hne : id ≠ "" := by
        rintro rfl
        exact Bool.false_ne_true (hempty.symm.trans hvalid)
      exact ⟨id, hne, by rw [resolvedId, htarget, truthy_of_ne hne]⟩
  · cases h

theorem dedupeMapKey_some {id : String} (h : id ≠ "") : dedupeMapKey (some id) = id := by
  rw [dedupeMapKey, truthy_of_ne h, Option.getD_some]

/- A failed read. -/
theorem runContractListRefresh_of_error {alerted : AlertState} {r : RefreshRun} {e : RefreshError}
    (h : getOnChainSchemaVersion env r = .error e) :
    runContractListRefresh env alerted r = ⟨.error e, none, alerted⟩ := by
  rw [runContractListRefresh, h]

/- The alert and the state after a read of a version. -/
theorem runContractListRefresh_of_read {alerted : AlertState} {r : RefreshRun} {v : UInt32}
    {id : String} (hid : id ≠ "") (hresolved : resolvedId env r = some id)
    (h : getOnChainSchemaVersion env r = .ok v) :
    ((runContractListRefresh env alerted r).alert =
      if IsMismatch env v ∧ alerted.get id ≠ remembered env v then
        some ⟨some id, truthy (compareVersions env.registry v).knownVersion, v,
          (compareVersions env.registry v).status⟩
      else none) ∧
    ∀ key, (runContractListRefresh env alerted r).alerted.get key =
      if id = key then remembered env v else alerted.get key := by
  by_cases hmismatch : IsMismatch env v
  · have hremembered : remembered env v =
        some (alertSignature (compareVersions env.registry v).knownVersion v) := if_pos hmismatch
    have hstatus : (compareVersions env.registry v).status ∈ MISMATCH_STATUSES := hmismatch
    simp only [runContractListRefresh, h, if_pos hstatus, raiseVersionMismatchAlert, hresolved,
      dedupeMapKey_some hid, truthy_of_ne hid, ← hremembered, hmismatch, true_and]
    by_cases hknown : alerted.get id = remembered env v
    · simp only [hknown, if_true, ne_eq, not_true_eq_false, if_false, true_and]
      intro key
      by_cases hkey : id = key
      · rw [if_pos hkey, ← hkey, hknown]
      · rw [if_neg hkey]
    · simp only [hknown, if_false, ne_eq, not_false_eq_true, if_true, true_and]
      intro key
      rw [OrdMap.get_set, hremembered]
  · have hstatus : (compareVersions env.registry v).status ∉ MISMATCH_STATUSES := hmismatch
    have hremembered : remembered env v = none := if_neg hmismatch
    simp only [runContractListRefresh, h, if_neg hstatus, hresolved, dedupeMapKey_some hid,
      hmismatch, false_and, if_false, true_and, hremembered]
    intro key
    rw [OrdMap.get_delete]

/-! ### Histories -/

theorem versionsRead_append (contract : Option String) (history : List RefreshRun) (r : RefreshRun) :
    versionsRead env contract (history ++ [r]) = versionsRead env contract history ++
      (if resolvedId env r = contract then (getOnChainSchemaVersion env r).toOption
        else none).toList := by
  rw [versionsRead, List.filterMap_append, ← versionsRead]
  cases h : (if resolvedId env r = contract then (getOnChainSchemaVersion env r).toOption
      else none) with
  | none => simp [h]
  | some v => simp [h]

theorem lastRead_append (contract : Option String) (history : List RefreshRun) (r : RefreshRun) :
    lastRead env contract (history ++ [r]) =
      (if resolvedId env r = contract then (getOnChainSchemaVersion env r).toOption
        else none).or (lastRead env contract history) := by
  rw [lastRead, versionsRead_append, List.getLast?_append, ← lastRead]
  cases (if resolvedId env r = contract then (getOnChainSchemaVersion env r).toOption
      else none) with
  | none => rfl
  | some v => rfl

/- Only the runs of a contract count for it. -/
theorem lastRead_filter (contract : Option String) (history : List RefreshRun) :
    lastRead env contract (history.filter fun q => resolvedId env q = contract) =
      lastRead env contract history := by
  rw [lastRead, lastRead, versionsRead, versionsRead, List.filterMap_filter]
  congr 1
  refine List.filterMap_congr fun r _ => ?_
  by_cases h : resolvedId env r = contract
  · simp [h]
  · simp [h]

/-- The state holds of each contract what is remembered of its last read version. -/
theorem alertedAfter_get (hempty : env.isValidContract "" = false) (history : List RefreshRun)
    (id : String) :
    (alertedAfter env history).get id =
      (lastRead env (some id) history).bind (remembered env) := by
  induction history using List.reverseRecOn with
  | nil => rfl
  | append_singleton history r ih =>
    have hstep : alertedAfter env (history ++ [r]) =
        (runContractListRefresh env (alertedAfter env history) r).alerted := by
      rw [alertedAfter, run_append]
      rfl
    rw [hstep, lastRead_append]
    cases hread : getOnChainSchemaVersion env r with
    | error e =>
      rw [runContractListRefresh_of_error hread, ih]
      simp [Except.toOption]
    | ok v =>
      obtain ⟨own, hne, hresolved⟩ := resolvedId_of_read hempty hread
      rw [(runContractListRefresh_of_read hne hresolved hread).2, hresolved, ih]
      by_cases hown : own = id
      · simp [hown, Except.toOption]
      · simp [hown]

end

/-- Whether a run raises an alert, over whole histories: it reads a mismatching version that is not
the one last read of the same contract. A failed read raises none and changes no state, and the
runs of other contracts change nothing. -/
theorem runContractListRefresh_alerts (env : RefreshEnv) (hempty : env.isValidContract "" = false)
    (history : List RefreshRun) (r : RefreshRun) :
    ((runContractListRefresh env (alertedAfter env history) r).alert.isSome = true ↔
      ∃ v, getOnChainSchemaVersion env r = .ok v ∧ IsMismatch env v ∧
        lastRead env (resolvedId env r) history ≠ some v) ∧
    (∀ e, getOnChainSchemaVersion env r = .error e →
      (runContractListRefresh env (alertedAfter env history) r).alert = none ∧
      (runContractListRefresh env (alertedAfter env history) r).alerted =
        alertedAfter env history) ∧
    (runContractListRefresh env (alertedAfter env history) r).alert =
      (runContractListRefresh env (alertedAfter env
        (history.filter fun q => resolvedId env q = resolvedId env r)) r).alert := by
  cases hread : getOnChainSchemaVersion env r with
  | error e =>
    simp only [runContractListRefresh_of_error hread]
    refine ⟨iff_of_false Bool.false_ne_true ?_, fun _ _ => ⟨trivial, trivial⟩, trivial⟩
    rintro ⟨v, hv, -⟩
    cases hv
  | ok v =>
    obtain ⟨id, hne, hresolved⟩ := resolvedId_of_read hempty hread
    have hsame := @lastRead_filter env (some id) history
    rw [(runContractListRefresh_of_read hne hresolved hread).1,
      (runContractListRefresh_of_read hne hresolved hread).1, alertedAfter_get hempty,
      alertedAfter_get hempty, hresolved, hsame]
    refine ⟨?_, fun e he => (by cases he), rfl⟩
    have hnew : IsMismatch env v →
        ((lastRead env (some id) history).bind (remembered env) ≠ remembered env v ↔
          lastRead env (some id) history ≠ some v) := by
      intro hmismatch
      refine not_congr ?_
      rw [remembered.eq_def env v, if_pos hmismatch]
      cases lastRead env (some id) history with
      | none => simp
      | some w =>
        rw [Option.bind_some, remembered_eq_signature_iff, Option.some_inj]
        constructor
        · rintro ⟨-, hwv⟩
          exact hwv
        · rintro rfl
          exact ⟨hmismatch, rfl⟩
    constructor
    · intro h
      split at h
      · rename_i hcond
        exact ⟨v, rfl, hcond.1, (hnew hcond.1).mp hcond.2⟩
      · cases h
    · rintro ⟨w, hw, hmismatch, hlast⟩
      cases hw
      rw [if_pos ⟨hmismatch, (hnew hmismatch).mpr hlast⟩]
      rfl

def sampleEnv : RefreshEnv where
  registry := [("1.0.0", 1), ("1.1.0", 2), ("1.2.0", 3)]
  escrowContractId := none
  isValidContract id := id.length == 56

def sampleAddress : String := "CAAAAAAAAAAAAAAAAAAAAAAAAAAAAAAAAAAAAAAAAAAAAAAAAAAABSC4"

theorem sampleAddress_read :
    getOnChainSchemaVersion sampleEnv ⟨some sampleAddress, .ok 4⟩ = .ok 4 := by
  rw [getOnChainSchemaVersion, if_pos (by decide)]

/- A version ahead of the registry, after a run in which the contract was current. -/
theorem runContractListRefresh_sample :
    (runContractListRefresh sampleEnv (alertedAfter sampleEnv [⟨some sampleAddress, .ok 3⟩])
      ⟨some sampleAddress, .ok 4⟩).alert.isSome = true := by
  refine (runContractListRefresh_alerts sampleEnv (by decide) [⟨some sampleAddress, .ok 3⟩]
    ⟨some sampleAddress, .ok 4⟩).1.mpr ⟨4, sampleAddress_read, by decide, by decide⟩

end Liquifact.Jobs
