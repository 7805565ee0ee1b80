import Liquifact.Escrow.BatchRead

/-!
# Reads that run at a time (`src/services/escrowBatchRead.js`)

At most `concurrency` calls of `readEscrowState` are meant to run at a time. A worker that has
timed out takes the next identifier while its read still runs, so that more of them can run
than there are workers; and a limit that is no whole number is rounded up.
-/

namespace Liquifact.Escrow
open Liquifact.Lib
open Liquifact.Soroban (isNullish)

variable {σ : Type}

namespace BatchRead

def runsStill (b : BatchRead σ) (k : ℕ) : Bool := b.reads[k]?.any fun r => r.settled.isNone

/- A read that runs and that no worker waits for. -/
def abandonedAt (b : BatchRead σ) (k : ℕ) : Bool := b.runsStill k && !decide (some k ∈ b.workers)

def abandoned (b : BatchRead σ) : ℕ := (List.range b.reads.length).countP b.abandonedAt

def endedWorkers (b : BatchRead σ) : ℕ := b.workers.countP Option.isNone

/- A worker that takes another identifier has a read that has settled. -/
def TakesWhenSettled (b : BatchRead σ) : BatchEvent σ → Prop
  | .goesOn w => ∀ k r, b.workers[w]? = some (some k) → b.reads[k]? = some r → r.race ≠ none →
      r.settled ≠ none ∨ b.nextId = none
  | _ => True

section Bound
variable {b : BatchRead σ}

theorem running_eq (b : BatchRead σ) :
    b.running = (List.range b.reads.length).countP b.runsStill :=
  (Pool.countP_numbers b.reads fun r => r.settled.isNone).symm

theorem running_le (b : BatchRead σ) : b.running ≤ b.abandoned + b.workers.reduceOption.length := by
  have hheld : (List.range b.reads.length).countP (fun k => decide (some k ∈ b.workers)) ≤
      b.workers.reduceOption.length := by
    rw [List.countP_eq_length_filter]
    refine ((List.nodup_range.filter _).subperm fun k hk => ?_).length_le
    rw [List.reduceOption_mem_iff]
    exact of_decide_eq_true (List.mem_filter.mp hk).2
  rw [running_eq, List.countP_eq_countP_filter_add _ _ fun k => decide (some k ∈ b.workers), Nat.add_comm]
  refine Nat.add_le_add ?_ (List.countP_le_length.trans ?_)
  · rw [List.countP_filter]
    exact List.countP_mono_left fun k _ hk => hk
  · rw [← List.countP_eq_length_filter]
    exact hheld

theorem countP_le_of_except {p q : ℕ → Bool} (l : List ℕ) (hnodup : l.Nodup) (k : ℕ)
    (h : ∀ j, j ≠ k → p j = true → q j = true) : l.countP p ≤ l.countP q + 1 := by
  have hone : l.countP (fun j => decide (j = k)) ≤ 1 := by
    have hcount := List.nodup_iff_count_le_one.mp hnodup k
    refine Nat.le_trans (Nat.le_of_eq ?_) hcount
    exact List.countP_congr fun j _ => by simp
  rw [List.countP_eq_countP_filter_add l p fun j => decide (j = k), Nat.add_comm]
  refine Nat.add_le_add ?_ ((List.countP_le_length).trans ?_)
  · rw [List.countP_filter]
    refine List.countP_mono_left fun j _ hj => ?_
    simp only [Bool.and_eq_true, Bool.not_eq_true', decide_eq_false_iff_not] at hj
    exact h j hj.2 hj.1
  · rwa [← List.countP_eq_length_filter]

theorem abandonedAt_modify {f : RacedRead σ → RacedRead σ} (hf : Changes f) (k j : ℕ)
    (h : ({ b with reads := b.reads.modify k f } : BatchRead σ).abandonedAt j = true) :
    b.abandonedAt j = true := by
  unfold abandonedAt runsStill at h ⊢
  rw [Bool.and_eq_true] at h ⊢
  refine ⟨?_, h.2⟩
  have hstill := h.1
  rw [getElem?_modify_reads] at hstill
  cases hr : b.reads[j]? with
  | none =>
    rw [hr] at hstill
    cases hstill
  | some r =>
    rw [hr, Option.map_some, Option.any_some] at hstill
    rw [Option.any_some, Option.isNone_iff_eq_none]
    rw [Option.isNone_iff_eq_none] at hstill
    by_contra hsettled
    split at hstill
    · exact hsettled ((hf.settled r hsettled) ▸ hstill)
    · exact hsettled hstill

theorem abandonedAt_of_set {b' : BatchRead σ} {w k j : ℕ} {x : Option ℕ}
    (hw : b.workers[w]? = some (some k)) (hworkers : b'.workers = b.workers.set w x)
    (hreads : b'.reads[j]? = b.reads[j]?) (hne : j ≠ k) (h : b'.abandonedAt j = true) :
    b.abandonedAt j = true := by
  unfold abandonedAt runsStill at h ⊢
  rw [hreads, hworkers, Bool.and_eq_true] at h
  rw [Bool.and_eq_true]
  refine ⟨h.1, ?_⟩
  simp only [Bool.not_eq_true', decide_eq_false_iff_not] at h ⊢
  exact fun hj => h.2 (mem_set_of_ne hw hne hj x)

theorem endedWorkers_set {b' : BatchRead σ} {w k : ℕ} {x : Option ℕ}
    (hw : b.workers[w]? = some (some k)) (hworkers : b'.workers = b.workers.set w x) :
    b'.endedWorkers = b.endedWorkers + if x.isNone then 1 else 0 := by
  obtain ⟨hlt, hk⟩ := List.getElem?_eq_some_iff.mp hw
  rw [endedWorkers, hworkers, List.countP_set hlt, hk, endedWorkers]
  simp

/- Turning from one read abandons at most that one. -/
theorem abandoned_le_of_set {b' : BatchRead σ} {w k : ℕ} {x : Option ℕ}
    (hw : b.workers[w]? = some (some k)) (hworkers : b'.workers = b.workers.set w x)
    (hreads : b'.reads = b.reads) : b'.abandoned ≤ b.abandoned + 1 := by
  rw [abandoned, abandoned, hreads]
  refine countP_le_of_except _ List.nodup_range k fun j hne hj => ?_
  exact abandonedAt_of_set hw hworkers (by rw [hreads]) hne hj

/- Nothing is abandoned when the read has settled; the next one is waited for. -/
theorem abandoned_goOn_le {w k : ℕ} {r : RacedRead σ} (hw : b.workers[w]? = some (some k))
    (hk : b.reads[k]? = some r) (hsettled : r.settled ≠ none) :
    ((b.record r).goOn w).abandoned ≤ b.abandoned := by
  have hold : ∀ j ∈ List.range b.reads.length, ((b.record r).goOn w).abandonedAt j = true →
      b.abandonedAt j = true := by
    intro j hj h
    have hreads : ((b.record r).goOn w).reads[j]? = b.reads[j]? :=
      getElem?_startNext (b := b.record r) (List.mem_range.mp hj)
    refine abandonedAt_of_set hw rfl hreads ?_ h
    rintro rfl
    unfold abandonedAt runsStill at h
    rw [hreads, hk, Option.any_some, Bool.and_eq_true, Option.isNone_iff_eq_none] at h
    exact hsettled h.1
  have hnumbers : List.range ((b.record r).goOn w).reads.length =
      List.range b.reads.length ++ ((b.record r).awaited).toList := by
    change List.range (b.reads ++ ((b.record r).nextId.map RacedRead.start).toList).length = _
    rw [List.length_append, awaited]
    cases (b.record r).nextId with
    | none => simp
    | some id => exact List.range_succ
  have hnew : ((b.record r).awaited).toList.countP ((b.record r).goOn w).abandonedAt = 0 := by
    rw [List.countP_eq_zero]
    intro j hj h
    rw [Option.mem_toList] at hj
    obtain ⟨hlt, -⟩ := List.getElem?_eq_some_iff.mp hw
    have hwaits : some j ∈ ((b.record r).goOn w).workers :=
      List.mem_iff_getElem?.mpr ⟨w, (List.getElem?_set_self hlt).trans (congrArg some hj)⟩
    unfold abandonedAt at h
    rw [decide_eq_true hwaits, Bool.not_true, Bool.and_false] at h
    cases h
  rw [abandoned, hnumbers, List.countP_append, hnew, Nat.add_zero]
  exact List.countP_mono_left hold

def Bounded (b : BatchRead σ) : Prop := b.abandoned ≤ b.endedWorkers

theorem Bounded.modify (h : Bounded b) {f : RacedRead σ → RacedRead σ} (hf : Changes f) (k : ℕ) :
    Bounded { b with reads := b.reads.modify k f } := by
  refine Nat.le_trans ?_ h
  rw [abandoned, abandoned, List.length_modify]
  exact List.countP_mono_left fun j _ => abandonedAt_modify hf k j

theorem Bounded.step {ms : JsNumber} (h : Bounded b) (e : BatchEvent σ) (he : TakesWhenSettled b e) :
    Bounded (b.step ms e) := by
  cases e with
  | settles k how => exact h.modify (changes_settle how) k
  | timesOut k => exact h.modify (changes_timeOut ms) k
  | goesOn w =>
    have hresumed : Resumed b w (b.step ms (.goesOn w)) := step_goesOn w
    generalize b.step ms (.goesOn w) = b' at hresumed ⊢
    cases hresumed with
    | idle => exact h
    | throws hw hk hrace hnull =>
      rw [Bounded, endedWorkers_set hw rfl]
      refine Nat.le_trans (abandoned_le_of_set (x := none) hw ?_ ?_) (Nat.add_le_add_right h 1)
      · rfl
      · rfl
    | @records k r hw hk hrace hclean =>
      rcases he k r hw hk hrace with hsettled | hnone
      · rw [Bounded, endedWorkers_set hw rfl]
        exact (abandoned_goOn_le hw hk hsettled).trans (Nat.le_add_right_of_le h)
      · have hawaited : (b.record r).awaited = none := by
          rw [awaited]
          exact congrArg (Option.map _) hnone
        have hreads : ((b.record r).goOn w).reads = b.reads := by
          change b.reads ++ (Option.map RacedRead.start b.nextId).toList = b.reads
          rw [hnone]
          exact List.append_nil _
        rw [Bounded, endedWorkers_set hw rfl, hawaited]
        exact (abandoned_le_of_set hw rfl hreads).trans (Nat.add_le_add_right h 1)

end Bound

/-! ### The limit -/

section Limit
variable {ms concurrency : JsNumber} {invoiceIds : List String} {events : List (BatchEvent σ)}

theorem bounded_launch (invoiceIds : List String) (n : ℕ) :
    Bounded (launch invoiceIds n : BatchRead σ) := by
  have hnone : (launch invoiceIds n : BatchRead σ).abandoned = 0 := by
    refine List.countP_eq_zero.mpr fun k hk h => ?_
    have hlt := List.mem_range.mp hk
    obtain ⟨r, hr⟩ : ∃ r, (launch invoiceIds n : BatchRead σ).reads[k]? = some r :=
      ⟨_, List.getElem?_eq_getElem hlt⟩
    have hopen := (launch_open invoiceIds n r (List.mem_of_getElem? hr)).1
    unfold abandonedAt at h
    rw [decide_eq_true ((held_launch invoiceIds n).waited k r hr hopen), Bool.not_true,
      Bool.and_false] at h
    cases h
  rw [Bounded, hnone]
  exact Nat.zero_le _

/- The identifiers are taken in their order, whatever happens. -/
theorem inOrder_after :
    Pool.InOrder named invoiceIds (after ms invoiceIds concurrency events).pool := by
  have hlaunch : Pool.InOrder named invoiceIds
      (batchReadEscrowStates invoiceIds concurrency : BatchRead σ).pool := by
    rw [batchReadEscrowStates, pool_launch]
    exact (Pool.launch_sound invoiceIds _).inOrder
  refine run_keeps (step ms) (fun b => Pool.InOrder named invoiceIds b.pool) (fun b e h => ?_)
    _ events hlaunch
  cases e with
  | settles k how => exact (congrArg _ ((changes_settle how).pool_modify k)).mpr h
  | timesOut k => exact (congrArg _ ((changes_timeOut ms).pool_modify k)).mpr h
  | goesOn w =>
    have hresumed : Resumed b w (b.step ms (.goesOn w)) := step_goesOn w
    generalize b.step ms (.goesOn w) = b' at hresumed ⊢
    cases hresumed with
    | idle => exact h
    | throws hw hk hrace hnull => exact h
    | records hw hk hrace hclean =>
      rw [pool_goOn]
      exact Pool.InOrder.draw h

theorem running_le_workers (h : Along (step ms) TakesWhenSettled
    (batchReadEscrowStates invoiceIds concurrency) events) :
    (after ms invoiceIds concurrency events).running ≤ concurrency.rounds invoiceIds.length := by
  have hbounded : Bounded (after ms invoiceIds concurrency events) :=
    run_invariant (step ms) TakesWhenSettled Bounded (fun _ e hb he => hb.step e he) _ events
      (bounded_launch invoiceIds _) h
  have hcount := List.length_eq_reduceOption_length_add_filter_none
    (l := (after ms invoiceIds concurrency events).workers)
  have hended : (after ms invoiceIds concurrency events).endedWorkers =
      ((after ms invoiceIds concurrency events).workers.filter Option.isNone).length :=
    List.countP_eq_length_filter
  rw [length_workers] at hcount
  rw [Bounded, hended] at hbounded
  have hle := running_le (after ms invoiceIds concurrency events)
  omega

theorem running_le_named : (after ms invoiceIds concurrency events).running ≤
    (invoiceIds.filter named).length := by
  have hinOrder := (@inOrder_after σ ms concurrency invoiceIds events).length_le
  rw [pool, List.length_map] at hinOrder
  exact List.countP_le_length.trans hinOrder

theorem along_of_initial {pre : List (BatchEvent σ)} (hpre : pre <+: events)
    (h : Along (step ms) TakesWhenSettled (batchReadEscrowStates invoiceIds concurrency) events) :
    Along (step ms) TakesWhenSettled (batchReadEscrowStates invoiceIds concurrency) pre := by
  obtain ⟨post, rfl⟩ := hpre
  rw [along_iff_forall] at h ⊢
  rintro front e back rfl
  exact h front e (back ++ post) (by rw [List.append_assoc, List.cons_append])

/-- With a limit that is a whole number, or no less than the number of non-empty identifiers,
and as long as no worker takes another identifier while its own read still runs, the reads
that run never exceed the limit. -/
theorem batch_reads_bounded (ms : JsNumber) (invoiceIds : List String) (concurrency : JsNumber)
    (events : List (BatchEvent σ))
    (hlimit : (∃ n, concurrency = .ofNat n) ∨
      concurrency.lt (.ofNat (invoiceIds.filter named).length) = false)
    (h : Along (step ms) TakesWhenSettled (batchReadEscrowStates invoiceIds concurrency) events) :
    ∀ pre, pre <+: events →
      concurrency.lt (.ofNat (after ms invoiceIds concurrency pre).running) = false := by
  intro pre hpre
  rcases hlimit with ⟨n, rfl⟩ | hfew
  · have hrunning := (running_le_workers (along_of_initial hpre h)).trans
      (JsNumber.rounds_le (JsNumber.le_ofNat le_rfl) _)
    rw [JsNumber.lt_ofNat]
    exact decide_eq_false (Nat.not_lt.mpr hrunning)
  · rw [← Bool.not_eq_true]
    intro hexceeds
    have hmore := JsNumber.lt_of_lt_of_le hexceeds (JsNumber.le_ofNat running_le_named)
    rw [hfew] at hmore
    cases hmore

end Limit

theorem batch_reads_bounded_sample : (JsNumber.ofNat 1).lt (.ofNat (after (.ofNat 5000)
    ["inv_1", "inv_2"] (.ofNat 1) [.settles 0 (.ok "funded"), .goesOn 0]).running) = false := by
  refine batch_reads_bounded (.ofNat 5000) ["inv_1", "inv_2"] (.ofNat 1)
    [.settles 0 (.ok "funded"), .goesOn 0] (.inl ⟨1, rfl⟩) ⟨trivial, ?_, trivial⟩ _
    (List.prefix_refl _)
  have hsettled : ∀ r : RacedRead String, r ∈ (after (.ofNat 5000) ["inv_1", "inv_2"] (.ofNat 1)
      [.settles 0 (.ok "funded")]).reads → r.settled.isSome = true := by
    decide
  intro k r _ hr _
  exact .inl (Option.isSome_iff_ne_none.mp (hsettled r (List.mem_of_getElem? hr)))

/- One worker, and two reads run: the first was given up and not ended. -/
theorem timed_out_read_runs_on : ¬ ∀ (ms concurrency : JsNumber) (invoiceIds : List String)
    (events : List (BatchEvent String)),
    concurrency.lt (.ofNat (after ms invoiceIds concurrency events).running) = false := by
  intro h
  have hbound := h (.ofNat 5000) (.ofNat 1) ["inv_1", "inv_2"] [.timesOut 0, .goesOn 0]
  have hrunning : (after (.ofNat 5000) ["inv_1", "inv_2"] (.ofNat 1)
      [.timesOut 0, .goesOn 0] : BatchRead String).running = 2 := by
    decide
  rw [hrunning] at hbound
  exact absurd hbound (by decide)

end BatchRead
end Liquifact.Escrow
