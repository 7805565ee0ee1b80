import Liquifact.Lib.JsMath
import Liquifact.Lib.Run
import Liquifact.Lib.WorkerPool
import Liquifact.Soroban.ErrorClassification

/-!
# The batched escrow read (`src/services/escrowBatchRead.js`)

`batchReadEscrowStates` (53-115) starts workers on a copy of the identifiers. A worker takes
the next one that is not empty, starts `readEscrowState` on it and waits for the race of that
read with a timer (`withTimeout`, 22-37); it goes on with the state or the error and takes the
next one. A read that has lost its race runs on.

Reads are numbered in the order in which they are started. What a read resolves with is a value
of any type, what it rejects with any value of the language.
-/

namespace Liquifact.Escrow
open Liquifact.Lib
open Liquifact.Soroban (isNullish)

/- A read with the way it has settled and the way its race was decided. -/
structure RacedRead (σ : Type) where
  invoiceId : String
  settled : Option (Except JsValue σ)
  race : Option (Except JsValue σ)

structure BatchFailure where
  invoiceId : String
  error : JsValue
  code : JsValue

/- The variables of a call; a worker waits for the read with its number or has ended. -/
structure BatchRead (σ : Type) where
  remainingIds : List String
  workers : List (Option ℕ)
  reads : List (RacedRead σ)
  results : List σ
  errors : List BatchFailure
  rejected : Bool

inductive BatchEvent (σ : Type) where
  | settles (read : ℕ) (how : Except JsValue σ)
  | timesOut (read : ℕ)
  | goesOn (worker : ℕ)

variable {σ : Type}

/- What the runtime brings about by itself: timers fire, and workers go on. -/
def BatchEvent.due : BatchEvent σ → Bool
  | .settles _ _ => false
  | _ => true

namespace RacedRead

def start (id : String) : RacedRead σ := ⟨id, none, none⟩

def settle (how : Except JsValue σ) (r : RacedRead σ) : RacedRead σ :=
  match r.settled with
  | some _ => r
  | none => { r with settled := some how, race := r.race.or (some how) }

def timeoutError (ms : JsNumber) (id : String) : JsValue :=
  .object [("message", .string ("On-chain read timed out after " ++ numberText ms ++ "ms" ++
      if id = "" then "" else " for " ++ id)),
    ("code", .string "ETIMEDOUT"), ("status", .number (.ofNat 504))]

/- The timer is cleared once the race is decided. -/
def timeOut (ms : JsNumber) (r : RacedRead σ) : RacedRead σ :=
  { r with race := r.race.or (some (.error (timeoutError ms r.invoiceId))) }

/- The `catch` block; reading `err.message` throws when there is no object. -/
def caughtError (id : String) (err : JsValue) : Option BatchFailure :=
  if isNullish err then none
  else some {
    invoiceId := id
    error := (err.get "message").or (.string "Unknown error")
    code := (err.get "code").or (.string "INTERNAL_ERROR") }

/- The entry for `results`. -/
def state (r : RacedRead σ) : Option σ :=
  match r.race with
  | some (.ok state) => some state
  | _ => none

/- The entry for `errors`. -/
def failure (r : RacedRead σ) : Option BatchFailure :=
  match r.race with
  | some (.error err) => caughtError r.invoiceId err
  | _ => none

/- What the race gave is what the read settled with or an error, and an error is something. -/
structure Fair (r : RacedRead σ) : Prop where
  clean : ∀ err, r.race = some (.error err) → isNullish err = false
  won : ∀ state, r.race = some (.ok state) → r.settled = some (.ok state)

end RacedRead

namespace BatchRead

/- `if (!id) { continue; }`. -/
def named (id : String) : Bool := decide (id ≠ "")

def nextId (b : BatchRead σ) : Option String := (Pool.takeNext named b.remainingIds).1

/- The loop of a worker up to the next race, if there is one. -/
def startNext (b : BatchRead σ) : BatchRead σ :=
  { b with
    remainingIds := (Pool.takeNext named b.remainingIds).2
    reads := b.reads ++ (b.nextId.map RacedRead.start).toList }

def awaited (b : BatchRead σ) : Option ℕ := b.nextId.map fun _ => b.reads.length

/- `workers.push(worker())`. -/
def startWorker (b : BatchRead σ) : BatchRead σ :=
  { b.startNext with workers := b.workers ++ [b.awaited] }

def goOn (b : BatchRead σ) (w : ℕ) : BatchRead σ :=
  { b.startNext with workers := b.workers.set w b.awaited }

def launch (invoiceIds : List String) : ℕ → BatchRead σ
  | 0 => ⟨invoiceIds, [], [], [], [], false⟩
  | n + 1 => (launch invoiceIds n).startWorker

/- The call up to its `await`. -/
def batchReadEscrowStates (invoiceIds : List String) (concurrency : JsNumber) : BatchRead σ :=
  launch invoiceIds (concurrency.rounds invoiceIds.length)

/- What a worker writes down of the read it has waited for. -/
def record (b : BatchRead σ) (r : RacedRead σ) : BatchRead σ :=
  { b with
    results := b.results ++ r.state.toList
    errors := b.errors ++ r.failure.toList }

def resume (b : BatchRead σ) (w : ℕ) (r : RacedRead σ) : BatchRead σ :=
  match r.race with
  | none => b
  | some (.error err) =>
    if isNullish err then { b with workers := b.workers.set w none, rejected := true }
    else (b.record r).goOn w
  | some (.ok _) => (b.record r).goOn w

def step (ms : JsNumber) (b : BatchRead σ) : BatchEvent σ → BatchRead σ
  | .settles read how => { b with reads := b.reads.modify read (RacedRead.settle how) }
  | .timesOut read => { b with reads := b.reads.modify read (RacedRead.timeOut ms) }
  | .goesOn w =>
    match b.workers[w]? with
    | some (some read) =>
      match b.reads[read]? with
      | some r => b.resume w r
      | none => b
    | _ => b

/- All workers have ended, and `Promise.all` has settled. -/
def Ended (b : BatchRead σ) : Prop := ∀ worker ∈ b.workers, worker = none

/- The calls of `readEscrowState` that run. -/
def running (b : BatchRead σ) : ℕ := b.reads.countP fun r => r.settled.isNone

/-! ### As a pool of workers -/

def pool (b : BatchRead σ) : Pool String := ⟨b.remainingIds, b.reads.map RacedRead.invoiceId, b.workers⟩

theorem map_startNext (b : BatchRead σ) : b.startNext.reads.map RacedRead.invoiceId =
    b.reads.map RacedRead.invoiceId ++ b.nextId.toList := by
  rw [startNext, List.map_append]
  cases b.nextId with
  | none => rfl
  | some id => rfl

theorem pool_startWorker (b : BatchRead σ) : b.startWorker.pool = b.pool.hire named := by
  have hlength : b.awaited = b.pool.hand named := by
    rw [awaited, Pool.hand, pool, List.length_map]
    rfl
  rw [pool, startWorker, map_startNext, hlength]
  rfl

theorem pool_goOn (b : BatchRead σ) (w : ℕ) : (b.goOn w).pool = b.pool.next named w := by
  have hlength : b.awaited = b.pool.hand named := by
    rw [awaited, Pool.hand, pool, List.length_map]
    rfl
  rw [pool, goOn, map_startNext, hlength]
  rfl

theorem pool_launch (invoiceIds : List String) (n : ℕ) :
    (launch invoiceIds n : BatchRead σ).pool = Pool.launch named invoiceIds n := by
  induction n with
  | zero => rfl
  | succ n ih => rw [launch, pool_startWorker, ih, Pool.launch]

/-! ### What a step can do -/

section Steps
variable {ms : JsNumber} {b : BatchRead σ}

/- The changes of a read: it stays the same read, and a decided race stays decided. -/
structure Changes (f : RacedRead σ → RacedRead σ) : Prop where
  invoiceId : ∀ r, (f r).invoiceId = r.invoiceId
  race : ∀ r, r.race ≠ none → (f r).race = r.race
  settled : ∀ r, r.settled ≠ none → (f r).settled = r.settled

theorem changes_settle (how : Except JsValue σ) : Changes (RacedRead.settle how) := by
  refine ⟨?_, ?_, ?_⟩
  · intro r
    unfold RacedRead.settle
    split <;> rfl
  · intro r hr
    unfold RacedRead.settle
    split
    · rfl
    · exact Option.or_of_isSome (Option.isSome_iff_ne_none.mpr hr)
  · intro r hr
    unfold RacedRead.settle
    split
    · rfl
    · next hnone => exact absurd hnone hr

theorem changes_timeOut (ms : JsNumber) : Changes (@RacedRead.timeOut σ ms) :=
  ⟨fun _ => rfl, fun _ hr => Option.or_of_isSome (Option.isSome_iff_ne_none.mpr hr), fun _ _ => rfl⟩

theorem getElem?_modify_reads (f : RacedRead σ → RacedRead σ) (k j : ℕ) :
    (b.reads.modify k f)[j]? = (b.reads[j]?).map fun r => if k = j then f r else r := by
  rw [List.getElem?_modify]
  rfl

theorem Changes.pool_modify {f : RacedRead σ → RacedRead σ} (hf : Changes f) (k : ℕ) :
    ({ b with reads := b.reads.modify k f } : BatchRead σ).pool = b.pool := by
  have hids : (b.reads.modify k f).map RacedRead.invoiceId = b.reads.map RacedRead.invoiceId := by
    refine List.ext_getElem? fun j => ?_
    rw [List.getElem?_map, List.getElem?_map, getElem?_modify_reads, Option.map_map]
    congr 1
    funext r
    simp only [Function.comp_apply]
    split
    · exact hf.invoiceId r
    · rfl
  rw [pool, pool, hids]

/- What it is for a worker to go on: nothing, when no race that it waits for is decided. -/
inductive Resumed (b : BatchRead σ) (w : ℕ) : BatchRead σ → Prop where
  | idle : Resumed b w b
  | throws {k : ℕ} {r : RacedRead σ} {err : JsValue} (hw : b.workers[w]? = some (some k))
      (hk : b.reads[k]? = some r) (hrace : r.race = some (.error err)) (hnull : isNullish err = true) :
      Resumed b w { b with workers := b.workers.set w none, rejected := true }
  | records {k : ℕ} {r : RacedRead σ} (hw : b.workers[w]? = some (some k))
      (hk : b.reads[k]? = some r) (hrace : r.race ≠ none)
      (hclean : ∀ err, r.race = some (.error err) → isNullish err = false) :
      Resumed b w ((b.record r).goOn w)

theorem resumed_resume {w k : ℕ} {r : RacedRead σ} (hw : b.workers[w]? = some (some k))
    (hk : b.reads[k]? = some r) : Resumed b w (b.resume w r) := by
  unfold resume
  split
  · exact .idle
  · next err hrace =>
    split
    · next hnull => exact .throws hw hk hrace hnull
    · next hnull =>
      refine .records hw hk (by rw [hrace]; exact Option.some_ne_none _) fun err' herr => ?_
      rw [hrace] at herr
      cases herr
      exact Bool.eq_false_iff.mpr hnull
  · next state hrace =>
    refine .records hw hk (by rw [hrace]; exact Option.some_ne_none _) fun err herr => ?_
    rw [hrace] at herr
    cases herr

theorem step_goesOn (w : ℕ) : Resumed b w (b.step ms (.goesOn w)) := by
  simp only [step]
  split
  · next k hw =>
    split
    · next r hk => exact resumed_resume hw hk
    · exact .idle
  · exact .idle

theorem getElem?_startNext {k : ℕ} (hk : k < b.reads.length) :
    b.startNext.reads[k]? = b.reads[k]? := List.getElem?_append_left hk

theorem mem_startNext {r : RacedRead σ} (hr : r ∈ b.startNext.reads) :
    r ∈ b.reads ∨ r.race = none ∧ r.settled = none := by
  rcases List.mem_append.mp hr with hold | hnew
  · exact .inl hold
  · rw [Option.mem_toList, Option.map_eq_some_iff] at hnew
    obtain ⟨id, -, rfl⟩ := hnew
    exact .inr ⟨rfl, rfl⟩

end Steps

/-! ### Runs in which no read fails with nothing -/

structure Running (invoiceIds : List String) (done : List ℕ) (b : BatchRead σ) : Prop where
  sound : Pool.Sound named invoiceIds done b.pool
  results : b.results = done.filterMap fun k => b.reads[k]?.bind RacedRead.state
  errors : b.errors = done.filterMap fun k => b.reads[k]?.bind RacedRead.failure
  decided : ∀ k ∈ done, ∀ r, b.reads[k]? = some r → r.race ≠ none
  fair : ∀ r ∈ b.reads, r.Fair
  rejected : b.rejected = false

section Running
variable {ms : JsNumber} {b : BatchRead σ} {invoiceIds : List String} {done : List ℕ}

theorem Running.lt_length (h : Running invoiceIds done b) {k : ℕ} (hk : k ∈ done) :
    k < b.reads.length := by
  have hmem := h.sound.numbers.subset (List.mem_append_left _ hk)
  rw [List.mem_range, pool, List.length_map] at hmem
  exact hmem

theorem Running.modify (h : Running invoiceIds done b) {f : RacedRead σ → RacedRead σ}
    (hf : Changes f) (k : ℕ) (hfair : ∀ r, b.reads[k]? = some r → r.Fair → (f r).Fair) :
    Running invoiceIds done { b with reads := b.reads.modify k f } := by
  have hsame : ∀ {τ : Type} (g : RacedRead σ → Option τ), (∀ r, r.race ≠ none → g (f r) = g r) →
      (done.filterMap fun j => (b.reads.modify k f)[j]?.bind g) =
        done.filterMap fun j => b.reads[j]?.bind g := by
    intro τ g hg
    refine List.filterMap_congr fun j hj => ?_
    rw [getElem?_modify_reads]
    cases hr : b.reads[j]? with
    | none => rfl
    | some r =>
      simp only [Option.map_some, Option.bind_some]
      split
      · exact hg r (h.decided j hj r hr)
      · rfl
  refine ⟨?_, ?_, ?_, ?_, ?_, h.rejected⟩
  · rw [hf.pool_modify k]
    exact h.sound
  · refine h.results.trans (hsame _ fun r hr => ?_).symm
    rw [RacedRead.state, RacedRead.state, hf.race r hr]
  · refine h.errors.trans (hsame _ fun r hr => ?_).symm
    rw [RacedRead.failure, RacedRead.failure, hf.race r hr, hf.invoiceId r]
  · intro j hj r hr
    rw [getElem?_modify_reads, Option.map_eq_some_iff] at hr
    obtain ⟨r', hr', rfl⟩ := hr
    have hdecided := h.decided j hj r' hr'
    split
    · rwa [hf.race r' hdecided]
    · exact hdecided
  · intro r hr
    obtain ⟨j, hj⟩ := List.mem_iff_getElem?.mp hr
    rw [getElem?_modify_reads, Option.map_eq_some_iff] at hj
    obtain ⟨r', hr', rfl⟩ := hj
    have hold := h.fair r' (List.mem_of_getElem? hr')
    split
    · next heq =>
      subst heq
      exact hfair r' hr' hold
    · exact hold

theorem fair_of_open {r : RacedRead σ} (h : r.race = none) : r.Fair := by
  refine ⟨?_, ?_⟩
  · intro err herr
    rw [h] at herr
    cases herr
  · intro state hstate
    rw [h] at hstate
    cases hstate

theorem fair_timeOut {r : RacedRead σ} (h : r.Fair) : (r.timeOut ms).Fair := by
  cases hrace : r.race with
  | some how =>
    have hsame := (changes_timeOut ms).race r (by rw [hrace]; exact Option.some_ne_none _)
    exact ⟨fun err herr => h.clean err (hsame ▸ herr), fun state hstate => h.won state (hsame ▸ hstate)⟩
  | none =>
    have hlost : (r.timeOut ms).race = some (.error (RacedRead.timeoutError ms r.invoiceId)) := by
      rw [RacedRead.timeOut, hrace]
      rfl
    refine ⟨?_, ?_⟩
    · intro err herr
      rw [hlost] at herr
      cases herr
      rfl
    · intro state hstate
      rw [hlost] at hstate
      cases hstate

theorem fair_settle {how : Except JsValue σ} {r : RacedRead σ} (h : r.Fair)
    (hclean : r.settled = none → r.race = none → ∀ err, how = .error err → isNullish err = false) :
    (r.settle how).Fair := by
  unfold RacedRead.settle
  split
  · exact h
  · next hnone =>
    cases hrace : r.race with
    | some how' =>
      refine ⟨?_, ?_⟩
      · intro err herr
        exact h.clean err (hrace.trans herr)
      · intro state hstate
        have hwon := h.won state (hrace.trans hstate)
        rw [hnone] at hwon
        cases hwon
    | none =>
      refine ⟨?_, ?_⟩
      · intro err herr
        exact hclean hnone hrace err (Option.some.inj herr)
      · intro state hstate
        exact hstate

/- A worker writes down what its race gave and takes the next identifier. -/
theorem Running.goOn (h : Running invoiceIds done b) {w k : ℕ} {r : RacedRead σ}
    (hw : b.workers[w]? = some (some k)) (hk : b.reads[k]? = some r) (hrace : r.race ≠ none) :
    Running invoiceIds (done ++ [k]) ((b.record r).goOn w) := by
  obtain ⟨hlt, -⟩ := List.getElem?_eq_some_iff.mp hk
  have hreads : ∀ j ∈ done ++ [k], ((b.record r).goOn w).reads[j]? = b.reads[j]? := by
    intro j hj
    refine getElem?_startNext (b := b.record r) ?_
    rcases List.mem_append.mp hj with hj | hj
    · exact h.lt_length hj
    · rwa [List.mem_singleton.mp hj]
  have hlast : ∀ {τ : Type} (g : RacedRead σ → Option τ) (l : List τ),
      (l = done.filterMap fun j => b.reads[j]?.bind g) → l ++ (g r).toList =
        (done ++ [k]).filterMap fun j => ((b.record r).goOn w).reads[j]?.bind g := by
    intro τ g l hl
    have hcongr : ((done ++ [k]).filterMap fun j => ((b.record r).goOn w).reads[j]?.bind g) =
        (done ++ [k]).filterMap fun j => b.reads[j]?.bind g :=
      List.filterMap_congr fun j hj => by rw [hreads j hj]
    rw [hcongr, List.filterMap_append, ← hl]
    congr 1
    simp only [List.filterMap_cons, hk, Option.bind_some, List.filterMap_nil]
    cases g r with
    | none => rfl
    | some x => rfl
  refine ⟨?_, hlast _ _ h.results, hlast _ _ h.errors, ?_, ?_, h.rejected⟩
  · rw [pool_goOn]
    exact h.sound.next hw
  · intro j hj r' hr'
    rw [hreads j hj] at hr'
    rcases List.mem_append.mp hj with hj | hj
    · exact h.decided j hj r' hr'
    · rw [List.mem_singleton.mp hj, hk] at hr'
      cases hr'
      exact hrace
  · intro r' hr'
    rcases mem_startNext (b := b.record r) hr' with hold | ⟨hnone, -⟩
    · exact h.fair r' hold
    · exact fair_of_open hnone

theorem launch_open (invoiceIds : List String) (n : ℕ) :
    ∀ r ∈ (launch invoiceIds n : BatchRead σ).reads, r.race = none ∧ r.settled = none := by
  induction n with
  | zero => simp [launch]
  | succ n ih =>
    intro r hr
    rcases mem_startNext hr with hold | hnew
    · exact ih r hold
    · exact hnew

theorem launch_empty (invoiceIds : List String) (n : ℕ) :
    (launch invoiceIds n : BatchRead σ).results = [] ∧
      (launch invoiceIds n : BatchRead σ).errors = [] ∧
      (launch invoiceIds n : BatchRead σ).rejected = false := by
  induction n with
  | zero => exact ⟨rfl, rfl, rfl⟩
  | succ n ih => exact ih

theorem running_launch (invoiceIds : List String) (n : ℕ) :
    Running invoiceIds [] (launch invoiceIds n : BatchRead σ) := by
  obtain ⟨hresults, herrors, hrejected⟩ := @launch_empty σ invoiceIds n
  refine ⟨?_, hresults, herrors, ?_, ?_, hrejected⟩
  · rw [pool_launch]
    exact Pool.launch_sound invoiceIds n
  · intro k hk
    cases hk
  · intro r hr
    exact fair_of_open (launch_open invoiceIds n r hr).1

end Running

/- No read whose race is open fails with null or undefined. -/
def FailsWithSomething (b : BatchRead σ) : BatchEvent σ → Prop
  | .settles read how => ∀ r, b.reads[read]? = some r → r.settled = none → r.race = none →
      ∀ err, how = .error err → isNullish err = false
  | _ => True

section Runs
variable {ms : JsNumber} {b : BatchRead σ} {invoiceIds : List String}

theorem Running.step {done : List ℕ} (h : Running invoiceIds done b) (e : BatchEvent σ)
    (he : FailsWithSomething b e) : ∃ done', Running invoiceIds done' (b.step ms e) := by
  cases e with
  | settles k how =>
    exact ⟨done, h.modify (changes_settle how) k fun r hr hfair => fair_settle hfair (he r hr)⟩
  | timesOut k => exact ⟨done, h.modify (changes_timeOut ms) k fun r _ hfair => fair_timeOut hfair⟩
  | goesOn w =>
    have hresumed : Resumed b w (b.step ms (.goesOn w)) := step_goesOn w
    generalize b.step ms (.goesOn w) = b' at hresumed ⊢
    cases hresumed with
    | idle => exact ⟨done, h⟩
    | throws hw hk hrace hnull =>
      have hclean := (h.fair _ (List.mem_of_getElem? hk)).clean _ hrace
      rw [hnull] at hclean
      cases hclean
    | records hw hk hrace hclean => exact ⟨done ++ [_], h.goOn hw hk hrace⟩

/- A read whose race is open has a worker that waits for it. -/
structure Held (b : BatchRead σ) : Prop where
  waited : ∀ k r, b.reads[k]? = some r → r.race = none → some k ∈ b.workers
  known : ∀ k, some k ∈ b.workers → k < b.reads.length

theorem mem_set_of_ne {workers : List (Option ℕ)} {w k j : ℕ} (hw : workers[w]? = some (some k))
    (hne : j ≠ k) (hj : some j ∈ workers) (x : Option ℕ) : some j ∈ workers.set w x := by
  obtain ⟨v, hv⟩ := List.mem_iff_getElem?.mp hj
  have hvw : w ≠ v := by
    rintro rfl
    rw [hw] at hv
    cases hv
    exact hne rfl
  exact List.mem_iff_getElem?.mpr ⟨v, by rwa [List.getElem?_set_ne hvw]⟩

theorem awaited_spec {k : ℕ} (h : b.awaited = some k) :
    k = b.reads.length ∧ k < b.startNext.reads.length := by
  rw [awaited, Option.map_eq_some_iff] at h
  obtain ⟨id, hid, rfl⟩ := h
  rw [startNext, hid, List.length_append]
  exact ⟨rfl, Nat.lt_succ_self _⟩

theorem waited_startNext {k : ℕ} {r : RacedRead σ} (hr : b.startNext.reads[k]? = some r) :
    b.reads[k]? = some r ∨ b.awaited = some k := by
  rcases Nat.lt_or_ge k b.reads.length with hlt | hge
  · rw [getElem?_startNext hlt] at hr
    exact .inl hr
  · right
    obtain ⟨hlt, -⟩ := List.getElem?_eq_some_iff.mp hr
    rw [startNext, List.length_append] at hlt
    rw [awaited]
    cases hid : b.nextId with
    | none =>
      rw [hid, Option.map_none, Option.toList_none, List.length_nil] at hlt
      omega
    | some id =>
      rw [hid, Option.map_some, Option.toList_some, List.length_singleton] at hlt
      rw [Option.map_some, Option.some.injEq]
      omega

/- A worker turns from a read whose race is decided. -/
theorem Held.set (h : Held b) {w k : ℕ} {r : RacedRead σ} (hw : b.workers[w]? = some (some k))
    (hk : b.reads[k]? = some r) (hrace : r.race ≠ none) :
    ∀ j r', b.reads[j]? = some r' → r'.race = none → ∀ x, some j ∈ b.workers.set w x := by
  intro j r' hj hopen x
  refine mem_set_of_ne hw ?_ (h.waited j r' hj hopen) x
  rintro rfl
  rw [hk] at hj
  cases hj
  exact hrace hopen

theorem Held.startWorker (h : Held b) : Held b.startWorker := by
  refine ⟨?_, ?_⟩
  · intro k r hr hopen
    rcases waited_startNext hr with hold | hnew
    · exact List.mem_append_left _ (h.waited k r hold hopen)
    · exact List.mem_append_right _ (hnew ▸ List.mem_singleton_self _)
  · intro k hk
    rcases List.mem_append.mp hk with hold | hnew
    · exact Nat.lt_of_lt_of_le (h.known k hold) (by simp [BatchRead.startWorker, startNext])
    · exact (awaited_spec (List.mem_singleton.mp hnew).symm).2

theorem held_launch (invoiceIds : List String) (n : ℕ) :
    Held (launch invoiceIds n : BatchRead σ) := by
  induction n with
  | zero =>
    refine ⟨?_, ?_⟩
    · intro k r hr
      cases hr
    · intro k hk
      cases hk
  | succ n ih => exact ih.startWorker

theorem Held.modify (h : Held b) {f : RacedRead σ → RacedRead σ} (hf : Changes f) (k : ℕ) :
    Held { b with reads := b.reads.modify k f } := by
  refine ⟨?_, ?_⟩
  · intro j r hr hopen
    rw [getElem?_modify_reads, Option.map_eq_some_iff] at hr
    obtain ⟨r', hr', rfl⟩ := hr
    refine h.waited j r' hr' ?_
    by_contra hdecided
    have hkeeps := hf.race r' hdecided
    split at hopen
    · exact hdecided (hkeeps ▸ hopen)
    · exact hdecided hopen
  · intro j hj
    rw [List.length_modify]
    exact h.known j hj

theorem Held.step (h : Held b) (e : BatchEvent σ) : Held (b.step ms e) := by
  cases e with
  | settles k how => exact h.modify (changes_settle how) k
  | timesOut k => exact h.modify (changes_timeOut ms) k
  | goesOn w =>
    have hresumed : Resumed b w (b.step ms (.goesOn w)) := step_goesOn w
    generalize b.step ms (.goesOn w) = b' at hresumed ⊢
    cases hresumed with
    | idle => exact h
    | throws hw hk hrace hnull =>
      refine ⟨fun j r' hj hopen => ?_, fun j hj => ?_⟩
      · exact h.set hw hk (by rw [hrace]; exact Option.some_ne_none _) j r' hj hopen none
      · rcases List.mem_or_eq_of_mem_set hj with hold | hnew
        · exact h.known j hold
        · cases hnew
    | records hw hk hrace hclean =>
      refine ⟨fun j r' hj hopen => ?_, fun j hj => ?_⟩
      · rcases waited_startNext hj with hold | hnew
        · exact h.set hw hk hrace j r' hold hopen _
        · obtain ⟨hlt, -⟩ := List.getElem?_eq_some_iff.mp hw
          exact List.mem_iff_getElem?.mpr ⟨_, (List.getElem?_set_self hlt).trans (congrArg some hnew)⟩
      · rcases List.mem_or_eq_of_mem_set hj with hold | hnew
        · exact Nat.lt_of_lt_of_le (h.known j hold) (by simp [BatchRead.goOn, startNext, record])
        · exact (awaited_spec hnew.symm).2

/- A worker has thrown out of its `catch` block, or will when it goes on. -/
def Doomed (b : BatchRead σ) : Prop :=
  b.rejected = true ∨ ∃ (w k : ℕ) (r : RacedRead σ) (err : JsValue), b.workers[w]? = some (some k) ∧
    b.reads[k]? = some r ∧ r.race = some (.error err) ∧ isNullish err = true

theorem Doomed.modify (h : Doomed b) {f : RacedRead σ → RacedRead σ} (hf : Changes f) (j : ℕ) :
    Doomed { b with reads := b.reads.modify j f } := by
  rcases h with hrejected | ⟨w, k, r, err, hw, hk, hrace, hnull⟩
  · exact .inl hrejected
  · have hkeeps := hf.race r (by rw [hrace]; exact Option.some_ne_none _)
    refine .inr ⟨w, k, if j = k then f r else r, err, hw, ?_, ?_, hnull⟩
    · rw [getElem?_modify_reads, hk]
      rfl
    · split
      · rw [hkeeps, hrace]
      · exact hrace

theorem Doomed.step (h : Doomed b) (e : BatchEvent σ) : Doomed (b.step ms e) := by
  cases e with
  | settles k how => exact h.modify (changes_settle how) k
  | timesOut k => exact h.modify (changes_timeOut ms) k
  | goesOn v =>
    have hresumed : Resumed b v (b.step ms (.goesOn v)) := step_goesOn v
    generalize b.step ms (.goesOn v) = b' at hresumed ⊢
    cases hresumed with
    | idle => exact h
    | throws hv hj hrace hnull => exact .inl rfl
    | records hv hj hrace hclean =>
      rcases h with hrejected | ⟨w, k, r, err, hw, hk, hlost, hnull⟩
      · exact .inl hrejected
      · -- another worker: this one would have thrown
        have hvw : v ≠ w := by
          rintro rfl
          rw [hw] at hv
          cases hv
          rw [hk] at hj
          cases hj
          rw [hclean err hlost] at hnull
          cases hnull
        obtain ⟨hlt, -⟩ := List.getElem?_eq_some_iff.mp hk
        refine .inr ⟨w, k, r, err, (List.getElem?_set_ne hvw).trans hw, ?_, hlost, hnull⟩
        exact (getElem?_startNext (b := b.record _) hlt).trans hk

theorem doomed_of_nothing (h : Held b) {e : BatchEvent σ} (he : ¬ FailsWithSomething b e) :
    Doomed (b.step ms e) := by
  cases e with
  | settles k how =>
    simp only [FailsWithSomething, not_forall, Bool.not_eq_false] at he
    obtain ⟨r, hr, hsettled, hopen, err, rfl, hnull⟩ := he
    obtain ⟨w, hw⟩ := List.mem_iff_getElem?.mp (h.waited k r hr hopen)
    refine .inr ⟨w, k, r.settle (.error err), err, hw, ?_, ?_, hnull⟩
    · change (b.reads.modify k _)[k]? = _
      rw [getElem?_modify_reads, hr]
      simp only [if_true, Option.map_some]
    · simp only [RacedRead.settle, hsettled, hopen]
      rfl
  | timesOut k => exact absurd trivial he
  | goesOn w => exact absurd trivial he

/-- The call has returned, and each occurrence of a non-empty identifier has one entry: the
state that its read settled with in `results`, or a failure of its name in `errors`. -/
structure Accounted (invoiceIds : List String) (b : BatchRead σ) : Prop where
  returns : b.rejected = false
  reads : b.reads.map RacedRead.invoiceId = invoiceIds.filter named
  entry : ∀ r ∈ b.reads,
    (∃ state, r.state = some state ∧ r.settled = some (.ok state) ∧ r.failure = none) ∨
      ∃ failure, r.failure = some failure ∧ failure.invoiceId = r.invoiceId ∧ r.state = none
  results : b.results.Perm (b.reads.filterMap RacedRead.state)
  errors : b.errors.Perm (b.reads.filterMap RacedRead.failure)

theorem entry_of_fair {r : RacedRead σ} (h : r.Fair) (hrace : r.race ≠ none) :
    (∃ state, r.state = some state ∧ r.settled = some (.ok state) ∧ r.failure = none) ∨
      ∃ failure, r.failure = some failure ∧ failure.invoiceId = r.invoiceId ∧ r.state = none := by
  unfold RacedRead.state RacedRead.failure
  cases hhow : r.race with
  | none => exact absurd hhow hrace
  | some how =>
    cases how with
    | ok state => exact .inl ⟨state, rfl, h.won state hhow, rfl⟩
    | error err =>
      have hclean : ¬ isNullish err = true := by
        rw [h.clean err hhow]
        exact Bool.false_ne_true
      exact .inr ⟨_, if_neg hclean, rfl, rfl⟩

/- When the workers of a call without a throw have ended, nothing is lost. -/
theorem Running.accounted {done : List ℕ} (h : Running invoiceIds done b) (hended : b.Ended)
    (hworkers : b.workers ≠ [] ∨ invoiceIds.filter named = []) : Accounted invoiceIds b := by
  obtain ⟨htaken, hdone⟩ := h.sound.done_perm hended hworkers
  have hrange : done.Perm (List.range b.reads.length) := by
    rw [pool, List.length_map] at hdone
    exact hdone
  refine ⟨h.rejected, htaken, ?_, ?_, ?_⟩
  · intro r hr
    obtain ⟨k, hk⟩ := List.mem_iff_getElem?.mp hr
    obtain ⟨hlt, -⟩ := List.getElem?_eq_some_iff.mp hk
    have hmem : k ∈ done := hrange.symm.subset (List.mem_range.mpr hlt)
    exact entry_of_fair (h.fair r hr) (h.decided k hmem r hk)
  · rw [h.results]
    exact Pool.filterMap_numbers hrange _
  · rw [h.errors]
    exact Pool.filterMap_numbers hrange _

/-! ### A call ends -/

/- What is left to do, for a read to be started two: its race, and the worker to go on. -/
def load (b : BatchRead σ) : ℕ := 2 * b.pool.load named + b.reads.countP fun r => r.race.isNone

theorem countP_modify_le {p : RacedRead σ → Bool} {f : RacedRead σ → RacedRead σ}
    (h : ∀ r, p (f r) = true → p r = true) (reads : List (RacedRead σ)) (k : ℕ) :
    (reads.modify k f).countP p ≤ reads.countP p := by
  induction reads generalizing k with
  | nil => cases k <;> exact le_rfl
  | cons r reads ih =>
    cases k with
    | zero =>
      rw [List.modify_zero_cons, List.countP_cons, List.countP_cons]
      by_cases hf : p (f r) = true
      · rw [if_pos hf, if_pos (h r hf)]
      · rw [if_neg hf]
        exact Nat.add_le_add_left (Nat.zero_le _) _
    | succ k =>
      rw [List.modify_succ_cons, List.countP_cons, List.countP_cons]
      exact Nat.add_le_add_right (ih k) _

theorem countP_modify_lt {p : RacedRead σ → Bool} {f : RacedRead σ → RacedRead σ}
    {reads : List (RacedRead σ)} {k : ℕ} {r : RacedRead σ} (hk : reads[k]? = some r)
    (hp : p r = true) (hf : p (f r) = false) : (reads.modify k f).countP p < reads.countP p := by
  induction reads generalizing k with
  | nil => cases hk
  | cons x reads ih =>
    cases k with
    | zero =>
      cases hk
      rw [List.modify_zero_cons, List.countP_cons_of_neg (by rw [hf]; exact Bool.false_ne_true),
        List.countP_cons_of_pos hp]
      exact Nat.lt_succ_self _
    | succ k =>
      rw [List.modify_succ_cons, List.countP_cons, List.countP_cons]
      exact Nat.add_lt_add_right (ih hk) _

theorem load_modify_le {f : RacedRead σ → RacedRead σ} (hf : Changes f) (k : ℕ) :
    ({ b with reads := b.reads.modify k f } : BatchRead σ).load ≤ b.load := by
  rw [load, load, hf.pool_modify]
  refine Nat.add_le_add_left (countP_modify_le (fun r hr => ?_) _ _) _
  rw [Option.isNone_iff_eq_none] at hr ⊢
  by_contra hdecided
  exact hdecided (hf.race r hdecided ▸ hr)

theorem load_goOn_lt {w k : ℕ} (r : RacedRead σ) (hw : b.workers[w]? = some (some k)) :
    ((b.record r).goOn w).load < b.load := by
  have hpool : ((b.record r).pool.next named w).load named + 1 = (b.record r).pool.load named :=
    Pool.load_next hw
  have hopen : ((b.record r).goOn w).reads.countP (fun r => r.race.isNone) ≤
      b.reads.countP (fun r => r.race.isNone) + 1 := by
    change (b.reads ++ ((b.record r).nextId.map RacedRead.start).toList).countP _ ≤ _
    rw [List.countP_append]
    refine Nat.add_le_add_left (Nat.le_trans List.countP_le_length ?_) _
    cases (b.record r).nextId <;> simp
  have hsame : (b.record r).pool = b.pool := rfl
  rw [load, load, pool_goOn, hsame]
  rw [hsame] at hpool
  omega

theorem load_throw_lt {w k : ℕ} (hw : b.workers[w]? = some (some k)) :
    ({ b with workers := b.workers.set w none, rejected := true } : BatchRead σ).load < b.load := by
  have hset := (Pool.hands_set hw none).length_eq
  rw [List.length_cons] at hset
  change 2 * ((b.workers.set w none).reduceOption.length + (b.remainingIds.filter named).length) +
      b.reads.countP (fun r => r.race.isNone) <
    2 * (b.workers.reduceOption.length + (b.remainingIds.filter named).length) +
      b.reads.countP (fun r => r.race.isNone)
  rw [Option.toList_none, List.nil_append] at hset
  omega

theorem load_resume_lt {w k : ℕ} {r : RacedRead σ} (hw : b.workers[w]? = some (some k))
    (hrace : r.race ≠ none) : (b.resume w r).load < b.load := by
  unfold resume
  split
  · next hopen => exact absurd hopen hrace
  · split
    · exact load_throw_lt hw
    · exact load_goOn_lt r hw
  · exact load_goOn_lt r hw

theorem load_step_le (e : BatchEvent σ) : (b.step ms e).load ≤ b.load := by
  cases e with
  | settles k how => exact load_modify_le (changes_settle how) k
  | timesOut k => exact load_modify_le (changes_timeOut ms) k
  | goesOn w =>
    have hresumed : Resumed b w (b.step ms (.goesOn w)) := step_goesOn w
    generalize b.step ms (.goesOn w) = b' at hresumed ⊢
    cases hresumed with
    | idle => exact le_rfl
    | throws hw hk hrace hnull => exact (load_throw_lt hw).le
    | records hw hk hrace hclean => exact (load_goOn_lt _ hw).le

/- While a worker waits, its timer is to fire or it is to go on. -/
theorem exists_due (h : Held b) (hwaits : ¬ b.Ended) :
    ∃ e : BatchEvent σ, e.due = true ∧ (b.step ms e).load < b.load := by
  simp only [Ended, not_forall] at hwaits
  obtain ⟨hand, hmem, hne⟩ := hwaits
  obtain ⟨k, rfl⟩ := Option.ne_none_iff_exists'.mp hne
  obtain ⟨w, hw⟩ := List.mem_iff_getElem?.mp hmem
  obtain ⟨r, hk⟩ : ∃ r, b.reads[k]? = some r := ⟨_, List.getElem?_eq_getElem (h.known k hmem)⟩
  cases hrace : r.race with
  | none =>
    refine ⟨.timesOut k, rfl, ?_⟩
    change load { b with reads := b.reads.modify k (RacedRead.timeOut ms) } < b.load
    rw [load, load, (changes_timeOut ms).pool_modify]
    refine Nat.add_lt_add_left (countP_modify_lt hk (by rw [hrace]; rfl) ?_) _
    rw [RacedRead.timeOut, hrace]
    rfl
  | some how =>
    refine ⟨.goesOn w, rfl, ?_⟩
    have hstep : b.step ms (.goesOn w) = b.resume w r := by
      simp only [step, hw, hk]
    rw [hstep]
    exact load_resume_lt hw (by rw [hrace]; exact Option.some_ne_none _)

end Runs

/-! ### Nothing is lost -/

/- The state after the launch and the events. -/
def after (ms : JsNumber) (invoiceIds : List String) (concurrency : JsNumber)
    (events : List (BatchEvent σ)) : BatchRead σ :=
  run (step ms) (batchReadEscrowStates invoiceIds concurrency) events

section Calls
variable {ms concurrency : JsNumber} {invoiceIds : List String} {events : List (BatchEvent σ)}

theorem held_after : Held (after ms invoiceIds concurrency events) :=
  run_keeps (step ms) Held (fun _ e h => h.step e) _ events (held_launch invoiceIds _)

theorem length_workers_step (b : BatchRead σ) (e : BatchEvent σ) :
    (b.step ms e).workers.length = b.workers.length := by
  cases e with
  | settles k how => rfl
  | timesOut k => rfl
  | goesOn w =>
    have hresumed : Resumed b w (b.step ms (.goesOn w)) := step_goesOn w
    generalize b.step ms (.goesOn w) = b' at hresumed ⊢
    cases hresumed with
    | idle => rfl
    | throws hw hk hrace hnull => exact List.length_set
    | records hw hk hrace hclean => exact List.length_set

theorem length_workers : (after ms invoiceIds concurrency events).workers.length =
    concurrency.rounds invoiceIds.length := by
  have hlaunch : (batchReadEscrowStates invoiceIds concurrency : BatchRead σ).workers.length =
      concurrency.rounds invoiceIds.length :=
    (congrArg (fun p => p.hands.length) (pool_launch invoiceIds _)).trans (Pool.launch_length ..)
  exact run_keeps (step ms) (fun b => b.workers.length = _)
    (fun b e h => (length_workers_step b e).trans h) _ events hlaunch

theorem workers_suffice (hc : (JsNumber.ofNat 1).le concurrency = true) :
    (after ms invoiceIds concurrency events).workers ≠ [] ∨ invoiceIds.filter named = [] := by
  cases invoiceIds with
  | nil => exact .inr rfl
  | cons id ids =>
    left
    intro hnil
    have hpos := JsNumber.rounds_pos hc (Nat.succ_pos ids.length)
    have hlength := @length_workers σ ms concurrency (id :: ids) events
    rw [hnil] at hlength
    exact absurd hlength.symm hpos.ne'

theorem accounted_of_along (hc : (JsNumber.ofNat 1).le concurrency = true)
    (hended : (after ms invoiceIds concurrency events).Ended)
    (h : Along (step ms) FailsWithSomething (batchReadEscrowStates invoiceIds concurrency) events) :
    Accounted invoiceIds (after ms invoiceIds concurrency events) := by
  obtain ⟨done, hrunning⟩ := run_invariant (step ms) FailsWithSomething
    (fun b => ∃ done, Running invoiceIds done b)
    (fun _ e ⟨_, hb⟩ he => hb.step e he) _ events ⟨[], running_launch invoiceIds _⟩ h
  exact hrunning.accounted hended (workers_suffice hc)

theorem along_of_returns (hended : (after ms invoiceIds concurrency events).Ended)
    (h : (after ms invoiceIds concurrency events).rejected = false) :
    Along (step ms) FailsWithSomething (batchReadEscrowStates invoiceIds concurrency) events := by
  rw [along_iff_forall]
  rintro pre e post rfl
  by_contra hnothing
  have hstart : Doomed ((after ms invoiceIds concurrency pre).step ms e) :=
    doomed_of_nothing held_after hnothing
  have hdoomed := run_keeps (step ms) Doomed (fun _ e hb => hb.step e) _ post hstart
  have hend : Doomed (after ms invoiceIds concurrency (pre ++ e :: post)) := by
    rw [after, run_append]
    exact hdoomed
  rcases hend with hrejected | ⟨w, k, r, err, hw, -⟩
  · rw [h] at hrejected
    cases hrejected
  · cases hended _ (List.mem_of_getElem? hw)

/-- A call whose workers have not all ended goes on: a timer fires or a worker goes on, which
brings it nearer to its end, and no event takes it further away. Once they have, the call has
returned with one entry for each occurrence of a non-empty identifier if and only if no read
whose race was open failed with null or undefined. -/
theorem batch_loses_nothing_iff (ms : JsNumber) (invoiceIds : List String)
    (hc : (JsNumber.ofNat 1).le concurrency = true) (events : List (BatchEvent σ)) :
    ((after ms invoiceIds concurrency events).Ended ∨ ∃ e : BatchEvent σ, e.due = true ∧
      ((after ms invoiceIds concurrency events).step ms e).load <
        (after ms invoiceIds concurrency events).load) ∧
    (∀ e, ((after ms invoiceIds concurrency events).step ms e).load ≤
      (after ms invoiceIds concurrency events).load) ∧
    ((after ms invoiceIds concurrency events).Ended →
      (Accounted invoiceIds (after ms invoiceIds concurrency events) ↔ Along (step ms)
        FailsWithSomething (batchReadEscrowStates invoiceIds concurrency) events)) := by
  refine ⟨?_, fun e => load_step_le e, fun hended => ⟨?_, accounted_of_along hc hended⟩⟩
  · by_cases hended : (after ms invoiceIds concurrency events).Ended
    · exact .inl hended
    · exact .inr (exists_due held_after hended)
  · intro haccounted
    exact along_of_returns hended haccounted.returns

end Calls

/- The second read settles after its time is up. -/
def sampleEvents : List (BatchEvent String) :=
  [.settles 0 (.ok "funded"), .timesOut 1, .goesOn 1, .goesOn 0, .settles 1 (.ok "settled")]

theorem batch_loses_nothing_sample :
    Accounted ["inv_1", "", "inv_2"]
      (after (.ofNat 5000) ["inv_1", "", "inv_2"] (.ofNat 2) sampleEvents) ∧
    (after (.ofNat 5000) ["inv_1", "", "inv_2"] (.ofNat 2) sampleEvents).results = ["funded"] := by
  have hc : (JsNumber.ofNat 1).le (.ofNat 2) = true := by decide
  have hended : (after (.ofNat 5000) ["inv_1", "", "inv_2"] (.ofNat 2) sampleEvents).Ended := by
    unfold Ended
    decide
  have hresults : (after (.ofNat 5000) ["inv_1", "", "inv_2"] (.ofNat 2) sampleEvents).results =
      ["funded"] := by
    decide
  refine ⟨?_, hresults⟩
  refine ((batch_loses_nothing_iff (.ofNat 5000) ["inv_1", "", "inv_2"] hc sampleEvents).2.2
    hended).mpr ⟨?_, trivial, trivial, trivial, ?_, trivial⟩
  · intro r _ _ _ err herr
    cases herr
  · intro r _ _ _ err herr
    cases herr

/- Reading `err.message` of null throws in the `catch` block. -/
theorem null_failure_crashes_batch : ¬ ∀ (ms concurrency : JsNumber) (invoiceIds : List String)
    (events : List (BatchEvent String)), (JsNumber.ofNat 1).le concurrency = true →
    (after ms invoiceIds concurrency events).Ended →
      Accounted invoiceIds (after ms invoiceIds concurrency events) := by
  intro h
  have hended : (after (.ofNat 5000) ["inv_1"] (.ofNat 1)
      [.settles 0 (.error .null), .goesOn 0] : BatchRead String).Ended := by
    unfold Ended
    decide
  have hreturns := (h _ _ _ _ (by decide) hended).returns
  exact absurd hreturns (by decide)

end BatchRead
end Liquifact.Escrow
