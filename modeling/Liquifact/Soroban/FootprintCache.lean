import Liquifact.Lib.Fallible
import Liquifact.Lib.JsValue
import Liquifact.Lib.LruMap
import Liquifact.Lib.Run

/-!
# Simulation with a footprint cache (`src/services/sorobanSim.js`)

`generateCacheKey` (80-82), `getCachedFootprint` (93-119), `cacheFootprint` (129-145),
`validateSimulationParams` (213-239) and `simulateOrThrow` (270-346). The simulation is an
arbitrary function of the transaction and the ledger at which it runs: it fails, or gives a
footprint, with or without naming its ledger. An entry carries the simulation it came from,
and the state the list of the simulations cached so far, newest first.
-/

namespace Liquifact.Soroban
open Liquifact.Lib

/- What a simulation at a ledger comes to; `named` tells whether `ledgerSequence` is given. -/
inductive Outcome where
  | failed (message : String)
  | simulated (footprint : Json) (named : Bool)

structure Simulation where
  transactionXdr : String
  ledger : ℕ
  footprint : Json
  named : Bool

def Simulation.ledgerSequence (m : Simulation) : Option ℕ := if m.named then some m.ledger else none

structure FootprintEntry where
  footprint : Json
  timestamp : ℕ
  ledgerSequence : Option ℕ
  simulation : Simulation

structure Config where
  maxCacheSize : JsNumber
  cacheTtlMs : JsNumber

structure SimulateParams where
  operation : JsValue
  invoiceId : JsValue
  funderPublicKey : JsValue
  transactionXdr : String
  useCache : Bool
  currentLedger : Option ℕ

/- A call with the ledger of the moment and its two readings of the clock. -/
structure SimulateCall where
  params : SimulateParams
  ledger : ℕ
  now : ℕ
  now' : ℕ

inductive SimulationAnswer where
  | cached (footprint : Json)
  | fresh (footprint : Json)
  | failure (message : String)

/- A call answered from the cache, with the simulation the footprint came from. -/
structure Hit where
  params : SimulateParams
  footprint : Json
  simulation : Simulation

structure Simulator where
  footprintCache : OrdMap String FootprintEntry
  cachedUnder : List (String × Simulation)
  hits : List Hit

/-- `validateSimulationParams`: the missing fields, in order. -/
def validateSimulationParams (p : SimulateParams) : List String :=
  (if (truthy p.operation.asString).isSome then [] else ["operation is required and must be a string."]) ++
  (if (truthy p.invoiceId.asString).isSome then [] else ["invoiceId is required and must be a string."]) ++
  (if (truthy p.funderPublicKey.asString).isSome then []
    else ["funderPublicKey is required and must be a string."]) ++
  (if p.transactionXdr = "" then ["transactionXdr is required."] else [])

def generateCacheKey (p : SimulateParams) : String :=
  (truthy p.operation.asString).getD "" ++ ":" ++ (truthy p.invoiceId.asString).getD "" ++ ":" ++
    (truthy p.funderPublicKey.asString).getD ""

namespace Simulator
variable (config : Config)

def initial : Simulator := ⟨.empty, [], []⟩

def expired (e : FootprintEntry) (now : ℕ) : Bool :=
  JsNumber.lt config.cacheTtlMs (.fin ((now : ℚ) - e.timestamp))

/- Both ledgers have to be known for an entry to be stale. -/
def staleLedger (e : FootprintEntry) (currentLedger : Option ℕ) : Bool :=
  match currentLedger, e.ledgerSequence with
  | some current, some sequence => decide (sequence < current)
  | _, _ => false

def usable (e : FootprintEntry) (currentLedger : Option ℕ) (now : ℕ) : Bool :=
  !(expired config e now || staleLedger e currentLedger)

def getCachedFootprint (m : OrdMap String FootprintEntry) (key : String)
    (currentLedger : Option ℕ) (now : ℕ) : Option FootprintEntry × OrdMap String FootprintEntry :=
  match m.get key with
  | none => (none, m)
  | some entry =>
    if usable config entry currentLedger now then (some entry, m.reinsert key entry)
    else (none, m.delete key)

def deleteFirst (m : OrdMap String FootprintEntry) : OrdMap String FootprintEntry :=
  match m.keys with
  | [] => m
  | lruKey :: _ => m.delete lruKey

def cacheFootprint (m : OrdMap String FootprintEntry) (key : String) (simulation : Simulation)
    (now : ℕ) : OrdMap String FootprintEntry :=
  let room :=
    if m.has key then m.delete key
    else if JsNumber.le config.maxCacheSize (.ofNat m.size) then deleteFirst m
    else m
  room.set key ⟨simulation.footprint, now, simulation.ledgerSequence, simulation⟩

variable (simulate : String → ℕ → Outcome)

/- The call after the lookup: simulate, and cache a footprint if there is one. -/
def simulateAndCache (s : Simulator) (c : SimulateCall) : SimulationAnswer × Simulator :=
  match simulate c.params.transactionXdr c.ledger with
  | .failed message => (.failure message, s)
  | .simulated footprint named =>
    if c.params.useCache && footprint.truthy then
      let m : Simulation := ⟨c.params.transactionXdr, c.ledger, footprint, named⟩
      (.fresh footprint, { s with
        footprintCache := cacheFootprint config s.footprintCache (generateCacheKey c.params) m c.now'
        cachedUnder := (generateCacheKey c.params, m) :: s.cachedUnder })
    else (.fresh footprint, s)

def simulateOrThrow (s : Simulator) (c : SimulateCall) : SimulationAnswer × Simulator :=
  if validateSimulationParams c.params ≠ [] then
    (.failure (" ".intercalate (validateSimulationParams c.params)), s)
  else if c.params.useCache then
    let r := getCachedFootprint config s.footprintCache (generateCacheKey c.params)
      c.params.currentLedger c.now
    let s' := { s with footprintCache := r.2 }
    match r.1 with
    | some entry =>
      if entry.footprint.truthy then
        (.cached entry.footprint,
          { s' with hits := s.hits ++ [⟨c.params, entry.footprint, entry.simulation⟩] })
      else s'.simulateAndCache config simulate c
    | none => s'.simulateAndCache config simulate c
  else s.simulateAndCache config simulate c

def step (s : Simulator) (c : SimulateCall) : Simulator := (s.simulateOrThrow config simulate c).2

end Simulator

/-! ### What a cached answer should be -/

def lastCached (key : String) (cachedUnder : List (String × Simulation)) : Option Simulation :=
  (cachedUnder.find? fun e => decide (e.1 = key)).map Prod.snd

section Faithful
variable (simulate : String → ℕ → Outcome)

/-- The footprint came from a successful simulation of the same transaction, at the current
ledger of the call or a later one if the call has one. -/
structure Faithful (h : Hit) : Prop where
  simulated : simulate h.simulation.transactionXdr h.simulation.ledger =
    .simulated h.footprint h.simulation.named
  transaction : h.simulation.transactionXdr = h.params.transactionXdr
  ledger : ∀ current, h.params.currentLedger = some current → current ≤ h.simulation.ledger

variable (config : Config)

/-- The call finds an entry it may use only if the last simulation cached under its
operation, invoice and funder was of the transaction of the call and, where the call names
the current ledger, had named its own or ran no earlier. -/
def SameTransaction (s : Simulator) (c : SimulateCall) : Prop :=
  validateSimulationParams c.params = [] → c.params.useCache = true →
    ∀ entry, s.footprintCache.get (generateCacheKey c.params) = some entry →
      Simulator.usable config entry c.params.currentLedger c.now = true →
      ∀ m, lastCached (generateCacheKey c.params) s.cachedUnder = some m →
        m.transactionXdr = c.params.transactionXdr ∧
        ∀ current, c.params.currentLedger = some current → m.named = true ∨ current ≤ m.ledger

/-- An entry is what the last simulation cached under its key gave. -/
structure Tracked (s : Simulator) : Prop where
  last : ∀ k e, s.footprintCache.get k = some e → lastCached k s.cachedUnder = some e.simulation
  simulated : ∀ k e, s.footprintCache.get k = some e →
    simulate e.simulation.transactionXdr e.simulation.ledger =
      .simulated e.footprint e.simulation.named
  sequence : ∀ k e, s.footprintCache.get k = some e →
    e.ledgerSequence = e.simulation.ledgerSequence
  truthy : ∀ k e, s.footprintCache.get k = some e → e.footprint.truthy = true

end Faithful

section Steps
variable {simulate : String → ℕ → Outcome} {config : Config} {s : Simulator}

theorem of_getCachedFootprint {m : OrdMap String FootprintEntry} {key k : String}
    {currentLedger : Option ℕ} {now : ℕ} {e : FootprintEntry}
    (h : (Simulator.getCachedFootprint config m key currentLedger now).2.get k = some e) :
    m.get k = some e := by
  unfold Simulator.getCachedFootprint at h
  cases hget : m.get key with
  | none =>
    simp only [hget] at h
    exact h
  | some entry =>
    simp only [hget] at h
    split at h
    · rw [OrdMap.get_reinsert] at h
      split at h
      · rename_i hk
        rw [← hk, hget]
        exact h
      · exact h
    · rw [OrdMap.get_delete] at h
      split at h
      · cases h
      · exact h

theorem getCachedFootprint_fst {m : OrdMap String FootprintEntry} {key : String}
    {currentLedger : Option ℕ} {now : ℕ} {e : FootprintEntry} :
    (Simulator.getCachedFootprint config m key currentLedger now).1 = some e ↔
      m.get key = some e ∧ Simulator.usable config e currentLedger now = true := by
  unfold Simulator.getCachedFootprint
  cases m.get key with
  | none => simp
  | some entry =>
    by_cases hu : Simulator.usable config entry currentLedger now = true
    · simp only [hu, if_true, Option.some.injEq]
      constructor
      · rintro rfl
        exact ⟨rfl, hu⟩
      · exact fun h => h.1
    · simp only [hu, Bool.false_eq_true, if_false, reduceCtorEq, Option.some.injEq, false_iff,
        not_and]
      rintro rfl
      exact hu

theorem of_cacheFootprint {m : OrdMap String FootprintEntry} {key k : String} {g : Simulation}
    {now : ℕ} {e : FootprintEntry}
    (h : (Simulator.cacheFootprint config m key g now).get k = some e) :
    key = k ∧ e = ⟨g.footprint, now, g.ledgerSequence, g⟩ ∨ key ≠ k ∧ m.get k = some e := by
  have hdelete : ∀ j, (m.delete j).get k = some e → m.get k = some e := by
    intro j hj
    rw [OrdMap.get_delete] at hj
    split at hj
    · cases hj
    · exact hj
  unfold Simulator.cacheFootprint at h
  rw [OrdMap.get_set] at h
  split at h
  · rename_i hk
    exact .inl ⟨hk, (Option.some.inj h).symm⟩
  · rename_i hk
    refine .inr ⟨hk, ?_⟩
    split at h
    · exact hdelete _ h
    · split at h
      · unfold Simulator.deleteFirst at h
        split at h
        · exact h
        · exact hdelete _ h
      · exact h

theorem Tracked.fewer (h : Tracked simulate s) {m : OrdMap String FootprintEntry}
    (hm : ∀ k e, m.get k = some e → s.footprintCache.get k = some e) (hits : List Hit) :
    Tracked simulate { s with footprintCache := m, hits := hits } :=
  ⟨fun k e hk => h.last k e (hm k e hk), fun k e hk => h.simulated k e (hm k e hk),
    fun k e hk => h.sequence k e (hm k e hk), fun k e hk => h.truthy k e (hm k e hk)⟩

theorem Tracked.simulateAndCache (h : Tracked simulate s) (c : SimulateCall) :
    Tracked simulate (s.simulateAndCache config simulate c).2 := by
  unfold Simulator.simulateAndCache
  cases hsim : simulate c.params.transactionXdr c.ledger with
  | failed message => exact h
  | simulated footprint named =>
    simp only
    split
    · rename_i hcache
      have htruthy : footprint.truthy = true := (Bool.and_eq_true_iff.mp hcache).2
      refine ⟨?_, ?_, ?_, ?_⟩
      · intro k e hk
        rcases of_cacheFootprint hk with ⟨hkey, rfl⟩ | ⟨hne, hold⟩
        · simp [lastCached, hkey]
        · have hlast := h.last k e hold
          simpa [lastCached, hne] using hlast
      · intro k e hk
        rcases of_cacheFootprint hk with ⟨-, rfl⟩ | ⟨-, hold⟩
        · exact hsim
        · exact h.simulated k e hold
      · intro k e hk
        rcases of_cacheFootprint hk with ⟨-, rfl⟩ | ⟨-, hold⟩
        · rfl
        · exact h.sequence k e hold
      · intro k e hk
        rcases of_cacheFootprint hk with ⟨-, rfl⟩ | ⟨-, hold⟩
        · exact htruthy
        · exact h.truthy k e hold
    · exact h

theorem simulateAndCache_hits (s : Simulator) (c : SimulateCall) :
    (s.simulateAndCache config simulate c).2.hits = s.hits := by
  unfold Simulator.simulateAndCache
  cases simulate c.params.transactionXdr c.ledger with
  | failed message => rfl
  | simulated footprint named =>
    simp only
    split <;> rfl

/- A call either finds a usable entry, which it hands out, or adds no hit. -/
theorem step_cases (h : Tracked simulate s) (c : SimulateCall) :
    (∃ entry, validateSimulationParams c.params = [] ∧ c.params.useCache = true ∧
      s.footprintCache.get (generateCacheKey c.params) = some entry ∧
      Simulator.usable config entry c.params.currentLedger c.now = true ∧
      (s.step config simulate c).hits = s.hits ++ [⟨c.params, entry.footprint, entry.simulation⟩]) ∨
    ((s.step config simulate c).hits = s.hits ∧
      (validateSimulationParams c.params = [] → c.params.useCache = true →
        ∀ entry, s.footprintCache.get (generateCacheKey c.params) = some entry →
          Simulator.usable config entry c.params.currentLedger c.now = false)) := by
  unfold Simulator.step Simulator.simulateOrThrow
  by_cases hv : validateSimulationParams c.params = []
  · rw [if_neg (not_not.mpr hv)]
    by_cases hu : c.params.useCache = true
    · rw [if_pos hu]
      simp only
      cases hr : (Simulator.getCachedFootprint config s.footprintCache (generateCacheKey c.params)
          c.params.currentLedger c.now).1 with
      | none =>
        refine .inr ⟨simulateAndCache_hits .., fun _ _ entry hget => ?_⟩
        by_contra husable
        have hsome := getCachedFootprint_fst.mpr ⟨hget, Bool.not_eq_false _ ▸ husable⟩
        rw [hr] at hsome
        cases hsome
      | some entry =>
        obtain ⟨hget, husable⟩ := getCachedFootprint_fst.mp hr
        simp only [h.truthy _ entry hget, if_true]
        exact .inl ⟨entry, hv, hu, hget, husable, rfl⟩
    · rw [if_neg hu]
      exact .inr ⟨simulateAndCache_hits .., fun _ huse => absurd huse hu⟩
  · rw [if_pos hv]
    exact .inr ⟨rfl, fun hvalid => absurd hvalid hv⟩

theorem Tracked.step (h : Tracked simulate s) (c : SimulateCall) :
    Tracked simulate (s.step config simulate c) := by
  unfold Simulator.step Simulator.simulateOrThrow
  split
  · exact h
  · split
    · have hfewer := h.fewer (m := (Simulator.getCachedFootprint config s.footprintCache
        (generateCacheKey c.params) c.params.currentLedger c.now).2)
        fun k e hk => of_getCachedFootprint hk
      simp only
      split
      · split
        · exact hfewer _
        · exact (hfewer s.hits).simulateAndCache c
      · exact (hfewer s.hits).simulateAndCache c
    · exact h.simulateAndCache c

/- A named ledger that is not stale is not before the current one. -/
theorem le_of_usable {e : FootprintEntry} {current now : ℕ}
    (hseq : e.ledgerSequence = e.simulation.ledgerSequence)
    (hu : Simulator.usable config e (some current) now = true) (hnamed : e.simulation.named = true) :
    current ≤ e.simulation.ledger := by
  simp only [Simulator.usable, Simulator.staleLedger, hseq, Simulation.ledgerSequence, hnamed,
    if_true, Bool.not_or, Bool.and_eq_true, Bool.not_eq_true', decide_eq_false_iff_not,
    not_lt] at hu
  exact hu.2

theorem faithful_iff (h : Tracked simulate s) {p : SimulateParams} {entry : FootprintEntry}
    {now : ℕ} (hget : s.footprintCache.get (generateCacheKey p) = some entry)
    (husable : Simulator.usable config entry p.currentLedger now = true) :
    Faithful simulate ⟨p, entry.footprint, entry.simulation⟩ ↔
      entry.simulation.transactionXdr = p.transactionXdr ∧
        ∀ current, p.currentLedger = some current →
          entry.simulation.named = true ∨ current ≤ entry.simulation.ledger := by
  constructor
  · intro hf
    exact ⟨hf.transaction, fun current hc => .inr (hf.ledger current hc)⟩
  · rintro ⟨hxdr, hledger⟩
    refine ⟨h.simulated _ entry hget, hxdr, ?_⟩
    intro current hc
    rcases hledger current hc with hnamed | hle
    · rw [hc] at husable
      exact le_of_usable (h.sequence _ entry hget) husable hnamed
    · exact hle

theorem step_faithful_iff (h : Tracked simulate s) (hs : ∀ hit ∈ s.hits, Faithful simulate hit)
    (c : SimulateCall) : (∀ hit ∈ (s.step config simulate c).hits, Faithful simulate hit) ↔
      SameTransaction config s c := by
  rcases step_cases h c with ⟨entry, hv, hu, hget, husable, hhits⟩ | ⟨hhits, hnone⟩
  · have hlast := h.last _ entry hget
    have hiff := faithful_iff h hget husable
    rw [hhits]
    constructor
    · intro hall _ _ entry' hget' _ m hm
      rw [hget] at hget'
      rw [hlast] at hm
      cases hget'
      cases hm
      exact hiff.mp (hall _ (List.mem_append_right _ (List.mem_singleton_self _)))
    · intro hok hit hhit
      rcases List.mem_append.mp hhit with hhit | hhit
      · exact hs hit hhit
      · rw [List.mem_singleton.mp hhit]
        exact hiff.mpr (hok hv hu entry hget husable entry.simulation hlast)
  · rw [hhits]
    refine ⟨fun _ hv hu entry hget husable => ?_, fun _ => hs⟩
    rw [hnone hv hu entry hget] at husable
    cases husable

end Steps

theorem tracked_initial (simulate : String → ℕ → Outcome) : Tracked simulate .initial := by
  refine ⟨?_, ?_, ?_, ?_⟩ <;>
  · intro k e hk
    cases hk

/-- In every sequence of calls, every answer from the cache is faithful exactly when every
call that finds a usable entry is for the transaction last cached under its key, with its
ledger known where the call asks for one. -/
theorem cached_answers_faithful_iff (config : Config) (simulate : String → ℕ → Outcome)
    (calls : List SimulateCall) :
    (∀ pre, pre <+: calls →
        ∀ hit ∈ (run (Simulator.step config simulate) .initial pre).hits, Faithful simulate hit) ↔
      Along (Simulator.step config simulate) (SameTransaction config) .initial calls := by
  have htracked : ∀ pre, Tracked simulate (run (Simulator.step config simulate) .initial pre) :=
    fun pre => run_keeps _ (Tracked simulate) (fun _ c hs => hs.step c) _ pre
      (tracked_initial simulate)
  have hiff := forall_prefix_iff_along (Simulator.step config simulate) (SameTransaction config)
    (fun s => Tracked simulate s ∧ ∀ hit ∈ s.hits, Faithful simulate hit)
    (fun s c hs => ⟨fun h => (step_faithful_iff hs.1 hs.2 c).mp h.2,
      fun h => ⟨hs.1.step c, (step_faithful_iff hs.1 hs.2 c).mpr h⟩⟩)
    .initial calls ⟨tracked_initial simulate, fun hit hhit => (by cases hhit)⟩
  rw [← hiff]
  exact forall₂_congr fun pre _ => ⟨fun h => ⟨htracked pre, h⟩, fun h => h.2⟩

def sampleCall (transactionXdr : String) (now : ℕ) : SimulateCall :=
  ⟨⟨.string "fund_escrow", .string "inv-1", .string "GFUNDER", transactionXdr, true, none⟩, 100,
    now, now⟩

/- The simulator of the source: a transaction that is too short fails. -/
def sampleSimulate (transactionXdr : String) (_ : ℕ) : Outcome :=
  if transactionXdr.toList.length < 10 then .failed "Invalid transaction XDR: too short"
  else .simulated (.obj []) false

/-- A second transaction for the same operation, invoice and funder, one that would fail, is
answered with the footprint of the first. -/
theorem other_transaction_answered :
    ¬ ∀ (config : Config) (simulate : String → ℕ → Outcome) (calls pre : List SimulateCall),
      pre <+: calls → ∀ hit ∈ (run (Simulator.step config simulate) .initial pre).hits,
        Faithful simulate hit := by
  intro hall
  have hrun := hall ⟨.fin 1000, .fin 300000⟩ sampleSimulate
    [sampleCall "AAAAAgAAAAA=" 0, sampleCall "bad" 1] _ (List.prefix_refl _)
  have hhits : (run (Simulator.step ⟨.fin 1000, .fin 300000⟩ sampleSimulate) .initial
      [sampleCall "AAAAAgAAAAA=" 0, sampleCall "bad" 1]).hits.map
      (fun hit => (hit.simulation.transactionXdr, hit.params.transactionXdr)) =
      [("AAAAAgAAAAA=", "bad")] := by
    decide +kernel
  obtain ⟨hit, hmem, heq⟩ := List.mem_map.mp (hhits ▸ List.mem_singleton_self _)
  simp only [Prod.mk.injEq] at heq
  have hsame := (hrun hit hmem).transaction
  rw [heq.1, heq.2] at hsame
  exact absurd hsame (by decide)

end Liquifact.Soroban
