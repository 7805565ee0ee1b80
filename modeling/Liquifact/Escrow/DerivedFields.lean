import Liquifact.Lib.Date

/-!
# Display fields of an escrow state (`src/services/escrowDerived.js`)

`computeEscrowDerivedFields` (335-353) derives a yield, a funded share and the whole days to
maturity. The reference time of the days is the ledger close time where it passes for one
(`validateLedgerCloseTimeUnit`, 97-138), else `now`, else the wall clock (`resolveReferenceTime`,
204-232). Every operation on numbers is rounded to a double.

`parse` is the date parser of strings and `clock` is `new Date()`.
-/

namespace Liquifact.Escrow
open Liquifact.Lib JsNumber

def epochSecondsThreshold : ℚ := 100000000000

def maxFutureDays : ℤ := 50 * 365

def maxOverdueDays : ℤ := 365

/-! ### The reference time -/

/- A close time that is neither null nor undefined; `other` is a value that is no number, by its
`Number(value)`. -/
inductive LedgerCloseTime where
  | date (d : Date)
  | number (x : JsNumber)
  | other (num : JsNumber)

inductive ValidatedTime where
  | date (d : Date)
  | seconds (q : ℚ)

def validatedSeconds : JsNumber → Option ValidatedTime
  | .fin q => if q < 0 ∨ epochSecondsThreshold ≤ q then none else some (.seconds q)
  | _ => none

def validateLedgerCloseTimeUnit : Option LedgerCloseTime → Option ValidatedTime
  | none => none
  | some (.date d) => some (.date d)
  | some (.number x) => if x = .fin 0 then none else validatedSeconds x
  | some (.other num) => validatedSeconds num

def ValidatedTime.toDate : ValidatedTime → Date
  | .date d => d
  | .seconds q => ⟨timeClip ((JsNumber.fin q).times 1000)⟩

/- `now` is `none` when it is no `Date`. -/
structure ReferenceOptions where
  ledgerCloseTime : Option LedgerCloseTime
  now : Option Date

def ledgerTime (value : Option LedgerCloseTime) : Option TimeValue :=
  ((validateLedgerCloseTimeUnit value).bind fun validated => validated.toDate.getTime).filter
    fun t => 0 < t.ms

def fallbackTime (clock : TimeValue) (now : Option Date) : TimeValue :=
  (now.bind Date.getTime).getD clock

def resolveReferenceTime (clock : TimeValue) (opts : ReferenceOptions) : TimeValue :=
  match ledgerTime opts.ledgerCloseTime with
  | some t => t
  | none => fallbackTime clock opts.now

/-! ### The fields -/

/- A value given to `new Date`, when it is neither null nor undefined; what is neither a date nor
a string counts as its number. -/
inductive DateValue where
  | date (d : Date)
  | string (s : String)
  | number (x : JsNumber)

def DateValue.toDate (parse : String → Option TimeValue) : DateValue → Date
  | .date d => d
  | .string s => ⟨parse s⟩
  | .number x => ⟨timeClip x⟩

/- An amount or a rate is `none` when it is no number. -/
structure RawEscrowState where
  fundedAmount : Option JsNumber
  totalAmount : Option JsNumber
  annualRatePercent : Option JsNumber
  maturityDate : Option DateValue
  maturityTimestamp : Option DateValue

inductive DerivedOptions where
  | date (d : Date)
  | object (opts : ReferenceOptions)

def DerivedOptions.toReference : DerivedOptions → ReferenceOptions
  | .date d => ⟨none, some d⟩
  | .object opts => opts

structure DerivedFields where
  apyPercent : Option JsNumber
  fundedPercent : Option JsNumber
  daysToMaturity : Option JsNumber

def computeApyPercent : Option JsNumber → Option JsNumber
  | some (.fin q) => if q < 0 then none else some (((JsNumber.fin q).times 100).round.quotient 100)
  | _ => none

def computeFundedPercent : Option JsNumber → Option JsNumber → Option JsNumber
  | some (.fin funded), some (.fin total) =>
    if total ≤ 0 then none
    else some ((((JsNumber.fin funded).quotient total).times 10000).round.quotient 100)
  | _, _ => none

def validateMaturityDateBounds (maturity reference : TimeValue) : Bool :=
  !lt (.fin maxFutureDays) (wholeDays maturity reference) &&
    !lt (wholeDays maturity reference) (.fin (-maxOverdueDays : ℤ))

def computeDaysToMaturity (parse : String → Option TimeValue) (clock : TimeValue)
    (maturityDate : Option DateValue) (opts : DerivedOptions) : Option JsNumber :=
  (maturityDate.bind fun value => (value.toDate parse).getTime).bind fun maturity =>
    let reference := resolveReferenceTime clock opts.toReference
    if validateMaturityDateBounds maturity reference then some (wholeDays maturity reference) else none

def computeEscrowDerivedFields (parse : String → Option TimeValue) (clock : TimeValue)
    (state : RawEscrowState) (opts : DerivedOptions) : DerivedFields where
  apyPercent := computeApyPercent state.annualRatePercent
  fundedPercent := computeFundedPercent state.fundedAmount state.totalAmount
  daysToMaturity :=
    computeDaysToMaturity parse clock (state.maturityDate.orElse fun _ => state.maturityTimestamp) opts

/-! ### Which close times count -/

/- The instant of a close time: a positive whole number of seconds below the threshold, or a
date after the epoch. -/
inductive LedgerInstant : LedgerCloseTime → TimeValue → Prop
  | seconds (s : ℕ) (t : TimeValue) : 0 < s → (s : ℚ) < epochSecondsThreshold → t.ms = s * 1000 →
      LedgerInstant (.number (.fin s)) t
  | date (t : TimeValue) : 0 < t.ms → LedgerInstant (.date ⟨some t⟩) t

/- A close time that is zero, negative, no number or of the magnitude of milliseconds. -/
def NoSeconds (x : JsNumber) : Prop :=
  x = .nan ∨ le x (.fin 0) = true ∨ le (.fin epochSecondsThreshold) x = true

inductive NoLedgerInstant : Option LedgerCloseTime → Prop
  | absent : NoLedgerInstant none
  | number (x : JsNumber) : NoSeconds x → NoLedgerInstant (some (.number x))
  | other (x : JsNumber) : NoSeconds x → NoLedgerInstant (some (.other x))
  | invalid : NoLedgerInstant (some (.date ⟨none⟩))
  | date (t : TimeValue) : t.ms ≤ 0 → NoLedgerInstant (some (.date ⟨some t⟩))

theorem ledgerTime_of_instant {value : LedgerCloseTime} {t : TimeValue} (h : LedgerInstant value t) :
    ledgerTime (some value) = some t := by
  cases h with
  | seconds s t hpos hbelow ht =>
    have hpositive : (0 : ℚ) < s := by exact_mod_cast hpos
    have hs : s < 100000000000 := by
      unfold epochSecondsThreshold at hbelow
      exact_mod_cast hbelow
    have hnonzero : JsNumber.fin (s : ℚ) ≠ .fin 0 := by
      intro hzero
      exact hpositive.ne' (JsNumber.fin.inj hzero)
    have hunit : validatedSeconds (.fin s) = some (.seconds s) :=
      if_neg (not_or.mpr ⟨hpositive.le.not_gt, hbelow.not_ge⟩)
    have hproduct : (s : ℚ) * 1000 = ((s * 1000 : ℤ) : ℚ) := by push_cast; ring
    have hexact : (JsNumber.fin (s : ℚ)).times 1000 = .fin ((s * 1000 : ℤ) : ℚ) := by
      rw [JsNumber.times, hproduct, roundDouble_intCast (by omega)]
    have hrange : (s * 1000 : ℤ).natAbs ≤ maxTime := by
      unfold maxTime
      omega
    have htime : (⟨s * 1000, hrange⟩ : TimeValue) = t := by
      cases t
      simp only at ht
      simp only [ht]
    rw [ledgerTime, validateLedgerCloseTimeUnit, if_neg hnonzero, hunit, Option.bind_some,
      ValidatedTime.toDate, hexact, timeClip_intCast hrange, htime]
    exact Option.filter_some_pos (by rw [ht]; exact decide_eq_true (by omega))
  | date t hpos => exact Option.filter_some_pos (decide_eq_true hpos)

theorem validatedSeconds_of_none {x : JsNumber} (h : NoSeconds x) :
    validatedSeconds x = none ∨ validatedSeconds x = some (.seconds 0) := by
  cases x with
  | fin q =>
    rcases h with h | h | h
    · cases h
    · have hle : q ≤ 0 := of_decide_eq_true h
      rcases eq_or_lt_of_le hle with rfl | hneg
      · exact Or.inr rfl
      · exact Or.inl (if_pos (Or.inl hneg))
    · exact Or.inl (if_pos (Or.inr (of_decide_eq_true h)))
  | nan => exact Or.inl rfl
  | posInf => exact Or.inl rfl
  | negInf => exact Or.inl rfl

theorem ledgerTime_of_validated {value : Option LedgerCloseTime}
    (h : validateLedgerCloseTimeUnit value = none ∨
      validateLedgerCloseTimeUnit value = some (.seconds 0)) : ledgerTime value = none := by
  rcases h with h | h
  · rw [ledgerTime, h]
    rfl
  · have hepoch : timeClip (.fin ((0 : ℤ) : ℚ)) = some ⟨0, Nat.zero_le _⟩ := timeClip_intCast _
    have hzero : (JsNumber.fin 0).times 1000 = .fin ((0 : ℤ) : ℚ) := by
      rw [JsNumber.times, zero_mul]
      rfl
    rw [ledgerTime, h, Option.bind_some, ValidatedTime.toDate, hzero, hepoch]
    rfl

theorem ledgerTime_of_none {value : Option LedgerCloseTime} (h : NoLedgerInstant value) :
    ledgerTime value = none := by
  cases h with
  | absent => rfl
  | number x hx =>
    refine ledgerTime_of_validated ?_
    by_cases hzero : x = .fin 0
    · exact Or.inl (if_pos hzero)
    · rw [validateLedgerCloseTimeUnit, if_neg hzero]
      exact validatedSeconds_of_none hx
  | other x hx => exact ledgerTime_of_validated (validatedSeconds_of_none hx)
  | invalid => rfl
  | date t ht => exact Option.filter_some_neg (by simpa using ht)

/-! ### Counting the days -/

def dayCount (maturity reference : TimeValue) : Option JsNumber :=
  let n := (maturity.ms - reference.ms) / (msPerDay : ℤ)
  if -365 ≤ n ∧ n ≤ 18250 then some (.fin n) else none

theorem eq_of_le_of_le {x : JsNumber} {q : ℚ} (hle : le (.fin q) x = true) (hge : le x (.fin q) = true) :
    x = .fin q := by
  cases x with
  | nan => cases hle
  | negInf => cases hle
  | posInf => cases hge
  | fin r => rw [le_antisymm (of_decide_eq_true hge) (of_decide_eq_true hle)]

theorem bounded_days (maturity reference : TimeValue) :
    (if validateMaturityDateBounds maturity reference then some (wholeDays maturity reference)
      else none) = dayCount maturity reference := by
  unfold dayCount validateMaturityDateBounds
  dsimp only
  have hfuture : maxFutureDays = 18250 := rfl
  have hoverdue : maxOverdueDays = 365 := rfl
  rw [hfuture, hoverdue]
  rcases lt_or_ge ((maturity.ms - reference.ms) / (msPerDay : ℤ)) (-365) with hpast | hrecent
  · have hdays := wholeDays_lt (by decide) hpast
    have hlt : lt (wholeDays maturity reference) (.fin (-365 : ℤ)) = true :=
      lt_of_le_of_lt hdays (by decide)
    rw [hlt, Bool.not_true, Bool.and_false, if_neg (by decide), if_neg (by omega)]
  · rcases lt_or_ge 18250 ((maturity.ms - reference.ms) / (msPerDay : ℤ)) with hfar | hnear
    · have hdays := le_wholeDays (c := 18251) (by decide) hfar
      have hlt : lt (.fin (18250 : ℤ)) (wholeDays maturity reference) = true :=
        lt_of_lt_of_le (by decide) hdays
      rw [hlt, Bool.not_true, Bool.false_and, if_neg (by decide), if_neg (by omega)]
    · have hle := le_wholeDays (by omega) (le_refl ((maturity.ms - reference.ms) / (msPerDay : ℤ)))
      have hge := wholeDays_lt (by omega) (Int.lt_add_one_of_le (le_refl
        ((maturity.ms - reference.ms) / (msPerDay : ℤ))))
      rw [add_sub_cancel_right] at hge
      have hbelow : lt (.fin (18250 : ℤ)) (wholeDays maturity reference) = false := by
        rw [eq_of_le_of_le hle hge, lt_fin]
        exact decide_eq_false (not_lt.mpr (by exact_mod_cast hnear))
      have habove : lt (wholeDays maturity reference) (.fin (-365 : ℤ)) = false := by
        rw [eq_of_le_of_le hle hge, lt_fin]
        exact decide_eq_false (not_lt.mpr (by exact_mod_cast hrecent))
      rw [hbelow, habove, if_pos (by decide), if_pos ⟨hrecent, hnear⟩, eq_of_le_of_le hle hge]

def maturityInstant (parse : String → Option TimeValue) (state : RawEscrowState) : Option TimeValue :=
  (state.maturityDate.orElse fun _ => state.maturityTimestamp).bind fun value =>
    (value.toDate parse).getTime

theorem daysToMaturity_eq {parse : String → Option TimeValue} {state : RawEscrowState}
    {maturity : TimeValue} (h : maturityInstant parse state = some maturity) (clock : TimeValue)
    (opts : DerivedOptions) : (computeEscrowDerivedFields parse clock state opts).daysToMaturity =
      dayCount maturity (resolveReferenceTime clock opts.toReference) := by
  unfold maturityInstant at h
  rw [computeEscrowDerivedFields, computeDaysToMaturity, h, Option.bind_some]
  exact bounded_days _ _

/-- For every maturity instant: with the instant of a ledger close time the days are those to the
maturity from there, whatever the clock and `now` are, and without one they are those from `now`,
or from the clock where `now` is no valid date. -/
theorem days_follow_ledger (parse : String → Option TimeValue) (state : RawEscrowState)
    (maturity : TimeValue) (hmaturity : maturityInstant parse state = some maturity) :
    (∀ value t, LedgerInstant value t → ∀ clock now,
      (computeEscrowDerivedFields parse clock state (.object ⟨some value, now⟩)).daysToMaturity =
        dayCount maturity t) ∧
    (∀ value, NoLedgerInstant value → ∀ clock now,
      (computeEscrowDerivedFields parse clock state (.object ⟨value, now⟩)).daysToMaturity =
        dayCount maturity (fallbackTime clock now)) := by
  constructor
  · intro value t ht clock now
    rw [daysToMaturity_eq hmaturity, DerivedOptions.toReference, resolveReferenceTime,
      ledgerTime_of_instant ht]
  · intro value hvalue clock now
    rw [daysToMaturity_eq hmaturity, DerivedOptions.toReference, resolveReferenceTime,
      ledgerTime_of_none hvalue]

def maturing (maturity : TimeValue) : RawEscrowState :=
  ⟨some (.fin 5000), some (.fin 10000), some (.fin (17 / 2)), some (.date ⟨some maturity⟩), none⟩

/- A millisecond short of nine days after the ledger closed, on a host whose clock is at the
epoch; and without a close time on one that is a day and a millisecond late. -/
theorem days_skewed_clock :
    (computeEscrowDerivedFields (fun _ => none) ⟨0, by decide⟩ (maturing ⟨1700777599999, by decide⟩)
      (.object ⟨some (.number (.fin 1700000000)), none⟩)).daysToMaturity = some (.fin 8) ∧
    (computeEscrowDerivedFields (fun _ => none) ⟨1700864000000, by decide⟩
      (maturing ⟨1700777599999, by decide⟩) (.object ⟨none, none⟩)).daysToMaturity = some (.fin (-2)) := by
  have hmaturity : maturityInstant (fun _ => none) (maturing ⟨1700777599999, by decide⟩) =
      some ⟨1700777599999, by decide⟩ := rfl
  obtain ⟨hledger, hfallback⟩ := days_follow_ledger _ _ _ hmaturity
  have hinstant : LedgerInstant (.number (.fin (1700000000 : ℕ))) ⟨1700000000000, by decide⟩ :=
    .seconds 1700000000 _ (by decide) (by unfold epochSecondsThreshold; norm_num) rfl
  constructor
  · exact (hledger _ _ hinstant _ _).trans (by decide)
  · exact (hfallback none .absent _ _).trans (by decide)

end Liquifact.Escrow
