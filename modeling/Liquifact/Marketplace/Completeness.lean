import Liquifact.Marketplace.Traversal

/-!
# Which rows a cursor walk yields

By amount the predicate is the order of the rows, so that the walk is the offset scan. A
nullable column loses the rows on the other side of the NULL boundary, and `created_at`,
carried in whole milliseconds, makes the predicate start before the row it stands for.
-/

namespace Liquifact.Marketplace
open Liquifact.Lib

section Exact
variable (hmacSha256 : String → String → List UInt8) {env : CursorEnv} {driver : Driver}
  (client : Client env) {t : InvoicesTable} {tenantId : String} (q : MarketplaceQuery)

theorem yieldsOnce_iff_exact {carry : ℚ → ℚ} (h : driver.Carries (sortFieldOf q) carry t)
    (htenant : tenantId ≠ "")
    (hside : Widens (sortedRows t tenantId q) (seek (ascending q) (sortFieldOf q) carry) (pageSize q) ∨
      Narrows (sortedRows t tenantId q) (seek (ascending q) (sortFieldOf q) carry) (pageSize q)) :
    YieldsOnce hmacSha256 driver client t tenantId q ↔
      ∀ k r, IsBoundary (sortedRows t tenantId q) (pageSize q) k r → ∀ x ∈ sortedRows t tenantId q,
        (seek (ascending q) (sortFieldOf q) carry r x = true ↔
          Follows (ascending q) (sortFieldOf q) r x) := by
  rw [yieldsOnce_iff_seenOnce hmacSha256 client q h htenant,
    seenOnce_iff_exact (sortedRows_nodup q) (pageSize_pos q) hside]
  refine forall_congr' fun k => forall_congr' fun r => imp_congr_right fun hr => ?_
  exact exactAt_iff follows_asymm (sortedRows_follows q) (pageSize_pos q) hr

end Exact

/-! ### Amounts -/

theorem seek_amount (asc : Bool) (r x : Invoice) :
    seek asc .amount id r x = true ↔ Follows asc .amount r x := by
  have hr : r.column .amount = some r.amount := rfl
  have hx : x.column .amount = some x.amount := rfl
  rw [seek_value_value hr hx, follows_value_value hr hx, id]

theorem sortFieldOf_amount {q : MarketplaceQuery} (h : q.sortBy = some "amount") :
    sortFieldOf q = .amount := by
  rw [sortFieldOf, h]
  decide

/-- Sorted by amount, the walk ends; its pages are the offset pages 1, 2, ...; together they
hold each matching row once, in the order of amount and identifier; and the last one says
that no rows follow. -/
theorem amount_walk_complete (hmacSha256 : String → String → List UInt8) {env : CursorEnv}
    (driver : Driver) (client : Client env) (t : InvoicesTable) (tenantId : String)
    (q : MarketplaceQuery) (htenant : tenantId ≠ "") (hsort : q.sortBy = some "amount")
    (hexact : driver.Carries .amount id t) :
    ∃ pages, walk hmacSha256 driver client t tenantId q pages.length = some pages ∧
      (pages.flatMap Page.data).Perm (t.matching tenantId q.filters) ∧
      (pages.flatMap Page.data).Pairwise (Follows (ascending q) .amount) ∧
      (∃ last, pages.getLast? = some last ∧ last.hasMore = false) ∧
      ∀ i k, ∃ page, offsetRequest hmacSha256 driver client t tenantId q i k = .ok page ∧
        page.data = (pages[k]?.map Page.data).getD [] := by
  have hfield := sortFieldOf_amount hsort
  have hcarries : driver.Carries (sortFieldOf q) id t := hfield ▸ hexact
  have hboundaries : ExactBoundaries (sortedRows t tenantId q)
      (seek (ascending q) (sortFieldOf q) id) (pageSize q) := by
    intro k r hr
    rw [exactAt_iff follows_asymm (sortedRows_follows q) (pageSize_pos q) hr, hfield]
    intro x _
    exact seek_amount (ascending q) r x
  obtain ⟨n, hfollow, hflat, hcovered⟩ := seenOnce_of_exact (pageSize_pos q) hboundaries
  rw [← walk_eq_follow hmacSha256 client q hcarries htenant] at hfollow
  obtain ⟨pages, hwalk, hdata⟩ := Option.map_eq_some_iff.mp hfollow
  have hlength : pages.length = n + 1 := by
    have := congrArg List.length hdata
    simpa using this
  rw [← hdata, ← List.flatMap_def] at hflat
  refine ⟨pages, by rw [hlength]; exact hwalk, ?_, ?_, ?_, ?_⟩
  · rw [hflat]
    exact orderBy_perm _
  · rw [hflat, ← hfield]
    exact sortedRows_follows q
  · exact traverse_last (fun i cursor page hpage => getMarketplaceInvoices_next hmacSha256 _ hpage) hwalk
  · intro i k
    obtain ⟨page, hpage, hanswers⟩ :=
      offsetRequest_answers hmacSha256 client q hcarries htenant i k
    refine ⟨page, hpage, ?_⟩
    rw [hanswers.data, ← List.getElem?_map, hdata, List.getElem?_map]
    by_cases hk : k < n + 1
    · rw [List.getElem?_range hk]
      rfl
    · -- past the last page the offset scan is empty
      have hpast : (n + 1) * pageSize q ≤ k * pageSize q := Nat.mul_le_mul_right _ (by omega)
      rw [List.drop_eq_nil_of_le (hcovered.trans hpast), List.take_nil,
        List.getElem?_eq_none (by simpa using hk)]
      rfl

/- Sample data: a service with a secret and no expiry check, a driver that returns a
`NUMERIC` as text, an `INTEGER` as a number and a time in the first second of 1970 as its
ISO text, and two invoices of the same amount. -/
def sampleEnv : CursorEnv := ⟨some "secret", none, none, false, .fin 3600⟩

def sampleClient : Client sampleEnv where
  clock := fun _ => 0
  secret := "secret"
  configured := rfl
  safe := fun _ => by decide
  fresh := fun _ => rfl

def sampleHash (_ _ : String) : List UInt8 := List.replicate 32 0

def padded (width n : ℕ) : String :=
  String.ofList (List.replicate (width - (Nat.toDigits 10 n).length) '0' ++ Nat.toDigits 10 n)

def sampleJson : SortField → ℚ → Json
  | .yieldBps, v => .num (.fin v)
  | .amount, v => .str (Nat.repr ⌊v⌋.toNat ++ "." ++ padded 2 (⌊v * 100⌋.toNat % 100))
  | .fundedRatio, v => .str (Nat.repr ⌊v⌋.toNat ++ "." ++ padded 2 (⌊v * 100⌋.toNat % 100))
  | .createdAt, v => .str ("1970-01-01T00:00:00." ++ padded 3 ⌊v / 1000⌋.toNat ++ "Z")
  | .maturityDate, v => .str ("1970-01-" ++ padded 2 (⌊v⌋.toNat + 1) ++ "T00:00:00.000Z")

def sampleCast : SortField → Json → Option ℚ
  | .yieldBps, .num (.fin v) => some v
  | .amount, .str s => some (Nat.ofDigitChars 10 (s.toList.filter Char.isDigit) 0 / 100)
  | .fundedRatio, .str s => some (Nat.ofDigitChars 10 (s.toList.filter Char.isDigit) 0 / 100)
  | .createdAt, .str s => some (1000 * Nat.ofDigitChars 10 ((s.toList.drop 20).take 3) 0)
  | .maturityDate, .str s => some (Nat.ofDigitChars 10 ((s.toList.drop 8).take 2) 0 - 1)
  | _, _ => none

def sampleDriver : Driver := ⟨sampleJson, sampleCast⟩

def sampleTenant : String := "11111111-1111-4111-8111-111111111111"

def sampleInvoice (id : String) (createdAt : ℤ) (yieldBps : Option ℤ) : Invoice where
  id := id
  tenantId := sampleTenant
  status := "verified"
  deletedAt := none
  amount := 100
  createdAt := createdAt
  yieldBps := yieldBps
  fundedRatio := some 0
  maturityDate := none

def sampleTable (yieldBps : Option ℤ) : InvoicesTable where
  rows := [sampleInvoice "00000000-0000-4000-8000-000000000001" 500 (some 250),
    sampleInvoice "00000000-0000-4000-8000-000000000002" 700 yieldBps]
  distinct := by simp [sampleInvoice]
  named := by simp [sampleInvoice]

def sampleQuery (sortBy order : Option String) (limit : ℤ) : MarketplaceQuery where
  filters := ⟨none, none, none, none, none, none, none⟩
  sortBy := sortBy
  order := order
  cursor := none
  page := none
  limit := some limit

/- The rows of the sample table, one by one. -/
theorem sampleTable_carries {f : SortField} {carry : ℚ → ℚ} (yieldBps : Option ℤ)
    (h : ∀ y ∈ [some 250, yieldBps], ∀ at₀ ∈ [500, 700], ∀ v ∈ (sampleInvoice "" at₀ y).column f,
      (sampleJson f v).Plain ∧ sampleJson f v ≠ .null ∧
        sampleCast f (sampleJson f v) = some (carry v)) :
    sampleDriver.Carries f carry (sampleTable yieldBps) := by
  have hcolumn : ∀ id at₀ y, (sampleInvoice id at₀ y).column f = (sampleInvoice "" at₀ y).column f := by
    intro id at₀ y
    cases f <;> rfl
  intro r hr v hv
  simp only [sampleTable, List.mem_cons, List.not_mem_nil, or_false] at hr
  rcases hr with rfl | rfl
  · rw [hcolumn] at hv
    exact h _ (by simp) _ (by simp) v hv
  · rw [hcolumn] at hv
    exact h _ (by simp) _ (by simp) v hv

theorem sampleTable_carries_amount : sampleDriver.Carries .amount id (sampleTable none) := by
  refine sampleTable_carries none fun y _ at₀ _ v hv => ?_
  cases hv
  refine ⟨trivial, by simp [sampleJson], ?_⟩
  show sampleCast .amount (sampleJson .amount 100) = some 100
  decide +kernel

theorem amount_walk_complete_sample :
    sampleTenant ≠ "" ∧ ∃ pages, walk sampleHash sampleDriver sampleClient (sampleTable none)
        sampleTenant (sampleQuery (some "amount") none 1) pages.length = some pages ∧
      (pages.flatMap Page.data).Perm ((sampleTable none).matching sampleTenant
        (sampleQuery (some "amount") none 1).filters) := by
  obtain ⟨pages, hwalk, hperm, -⟩ := amount_walk_complete sampleHash sampleDriver sampleClient
    (sampleTable none) sampleTenant (sampleQuery (some "amount") none 1) (by decide) rfl sampleTable_carries_amount
  exact ⟨by decide, pages, hwalk, hperm⟩

/-! ### Nullable columns -/

section Nullable
variable {asc : Bool} {field : SortField} {r x y : Invoice}

/- The predicate stays on the side of the NULL boundary on which the cursor is. -/
theorem seek_id_iff : seek asc field id r x = true ↔
    (r.column field).isSome = (x.column field).isSome ∧ Follows asc field r x := by
  cases hr : r.column field with
  | none =>
    cases hx : x.column field with
    | none => simp [follows_null_null hr hx, seek_null_null hr hx]
    | some w => simp [seek_null_value hr hx]
  | some v =>
    cases hx : x.column field with
    | none => simp [seek_value_null hr hx]
    | some w => simp [follows_value_value hr hx, seek_value_value hr hx]

theorem follows_trans (h : Follows asc field r x) (h' : Follows asc field x y) :
    Follows asc field r y := by
  cases asc
  · exact lt_trans (a := sortKey field y) h' h
  · exact lt_trans (a := sortKey field r) h h'

/- The rows that come first: those with a value ascending, those with NULL descending. -/
def sortsFirst (asc : Bool) (field : SortField) (r : Invoice) : Bool :=
  (r.column field).isSome == asc

theorem follows_of_sortsFirst (hr : sortsFirst asc field r = true) (hx : sortsFirst asc field x = false) :
    Follows asc field r x := by
  cases hcr : r.column field with
  | none =>
    cases hcx : x.column field with
    | none => simp_all [sortsFirst]
    | some w =>
      rw [follows_null_value hcr hcx]
      simpa [sortsFirst, hcr] using hr
  | some v =>
    cases hcx : x.column field with
    | none =>
      rw [follows_value_null hcr hcx]
      simpa [sortsFirst, hcr] using hr
    | some w => simp_all [sortsFirst]

theorem sortsFirst_of_follows (h : Follows asc field r x) (hx : sortsFirst asc field x = true) :
    sortsFirst asc field r = true := by
  by_contra hr
  have hxr := follows_of_sortsFirst hx (Bool.eq_false_iff.mpr hr)
  exact follows_asymm r x h hxr

theorem sameSide_iff (asc : Bool) : (r.column field).isSome = (x.column field).isSome ↔
    sortsFirst asc field r = sortsFirst asc field x := by
  cases asc <;> cases hr : (r.column field).isSome <;> cases hx : (x.column field).isSome <;>
    simp [sortsFirst, hr, hx]

theorem narrows_id {rows : List Invoice} {limit : ℕ} (hrows : rows.Pairwise (Follows asc field))
    (hlimit : 0 < limit) : Narrows rows (seek asc field id) limit := by
  refine ⟨?_, ?_⟩
  · intro k r hr x hx hseek
    exact (mem_drop_iff follows_asymm hrows hr hx hlimit).mpr (seek_id_iff.mp hseek).2
  · intro r _ x _ y _ hrx hxy
    obtain ⟨hside, hfollows⟩ := seek_id_iff.mp hrx
    obtain ⟨hside', hfollows'⟩ := seek_id_iff.mp hxy
    exact seek_id_iff.mpr ⟨hside.trans hside', follows_trans hfollows hfollows'⟩

/- The predicate is exact at a row unless rows of the other side still follow. -/
theorem seek_id_exact_iff (rows : List Invoice) (r : Invoice) :
    (∀ x ∈ rows, (seek asc field id r x = true ↔ Follows asc field r x)) ↔
      (sortsFirst asc field r = true → ∀ x ∈ rows, sortsFirst asc field x = true) := by
  constructor
  · intro h hr x hx
    by_contra hfirst
    have hfollows := follows_of_sortsFirst hr (Bool.eq_false_iff.mpr hfirst)
    have hsame := (seek_id_iff.mp ((h x hx).mpr hfollows)).1
    rw [sameSide_iff asc, hr] at hsame
    exact hfirst hsame.symm
  · intro h x hx
    rw [seek_id_iff, sameSide_iff asc]
    refine ⟨fun hboth => hboth.2, fun hfollows => ⟨?_, hfollows⟩⟩
    cases hr : sortsFirst asc field r with
    | true => rw [h hr x hx]
    | false =>
      symm
      rw [Bool.eq_false_iff]
      intro hfirst
      rw [sortsFirst_of_follows hfollows hfirst] at hr
      cases hr

end Nullable

theorem sortFieldOf_name {q : MarketplaceQuery} {f : SortField} (h : q.sortBy = some f.name) :
    sortFieldOf q = f := by
  rw [sortFieldOf, h]
  cases f <;> decide

/-- A walk over a column that may be NULL, whose values the cursor carries exactly, yields
every matching row once if and only if all of them are on the side that sorts first (values
ascending, NULLs descending), or those that are do not fill a page. -/
theorem nullable_walk_complete_iff (hmacSha256 : String → String → List UInt8) {env : CursorEnv}
    (driver : Driver) (client : Client env) (t : InvoicesTable) (tenantId : String)
    (q : MarketplaceQuery) (f : SortField) (htenant : tenantId ≠ "") (hsort : q.sortBy = some f.name)
    (hexact : driver.Carries f id t) :
    YieldsOnce hmacSha256 driver client t tenantId q ↔
      (∀ r ∈ t.matching tenantId q.filters, sortsFirst (ascending q) f r = true) ∨
        (t.matching tenantId q.filters).countP (sortsFirst (ascending q) f) < pageSize q := by
  obtain rfl := sortFieldOf_name hsort
  have hfollows : (sortedRows t tenantId q).Pairwise (Follows (ascending q) (sortFieldOf q)) :=
    sortedRows_follows q
  have hperm : (sortedRows t tenantId q).Perm (t.matching tenantId q.filters) := orderBy_perm _
  rw [yieldsOnce_iff_exact hmacSha256 client q hexact htenant (.inr (narrows_id hfollows (pageSize_pos q)))]
  simp only [seek_id_exact_iff]
  rw [boundary_first_class_iff (pageSize_pos q) (hfollows.imp fun h => sortsFirst_of_follows h),
    hperm.countP_eq]
  exact or_congr_left ⟨fun h x hx => h x (hperm.symm.subset hx), fun h x hx => h x (hperm.subset hx)⟩

theorem sampleTable_carries_yieldBps (yieldBps : Option ℤ) (h : ∀ y ∈ yieldBps, y.natAbs < 2 ^ 53) :
    sampleDriver.Carries .yieldBps id (sampleTable yieldBps) := by
  refine sampleTable_carries yieldBps fun y hy at₀ _ v hv => ?_
  obtain ⟨n, rfl, rfl⟩ := Option.map_eq_some_iff.mp hv
  refine ⟨⟨n, rfl, ?_⟩, by simp [sampleJson], rfl⟩
  rcases List.mem_cons.mp hy with heq | hy
  · cases heq
    decide
  · exact h n (List.mem_singleton.mp hy).symm

theorem nullable_walk_complete_sample :
    sampleTenant ≠ "" ∧ YieldsOnce sampleHash sampleDriver sampleClient (sampleTable (some 300))
      sampleTenant (sampleQuery (some "yield_bps") (some "asc") 1) :=
  ⟨by decide, (nullable_walk_complete_iff sampleHash sampleDriver sampleClient (sampleTable (some 300))
    sampleTenant (sampleQuery (some "yield_bps") (some "asc") 1) .yieldBps (by decide) rfl
    (sampleTable_carries_yieldBps (some 300) (by decide))).mpr (.inl (by decide))⟩

/- Yields 250 and NULL, ascending, one row a page: the NULL row is never shown. -/
theorem nullable_walk_incomplete :
    ¬ YieldsOnce sampleHash sampleDriver sampleClient (sampleTable none) sampleTenant
      (sampleQuery (some "yield_bps") (some "asc") 1) := by
  intro h
  rw [yieldsOnce_iff_exact sampleHash sampleClient _ (sampleTable_carries_yieldBps none (by decide))
    (by decide) (.inr (narrows_id (sortedRows_follows _) (pageSize_pos _)))] at h
  have hexact := h 1 (sampleInvoice "00000000-0000-4000-8000-000000000001" 500 (some 250))
    ⟨by decide, by decide, by decide⟩
    (sampleInvoice "00000000-0000-4000-8000-000000000002" 700 none) (by decide)
  exact absurd (hexact.mpr ((follows_value_null rfl rfl).mpr rfl)) (by decide)

/-! ### Creation times -/

/- A time in microseconds cut to the millisecond, on column values and on rows. -/
def toMillis (v : ℚ) : ℚ := 1000 * ⌊v / 1000⌋

def millis (n : ℤ) : ℤ := 1000 * (n / 1000)

theorem toMillis_intCast (n : ℤ) : toMillis n = millis n := by
  have hfloor : ⌊(n : ℚ) / 1000⌋ = n / 1000 := by
    have := Rat.floor_intCast_div_natCast n 1000
    exact_mod_cast this
  rw [toMillis, hfloor, millis]
  push_cast
  rfl

theorem after_intCast (asc : Bool) (a b : ℤ) : after asc (a : ℚ) (b : ℚ) ↔ after asc a b := by
  cases asc <;> simp [after]

section CreatedAt
variable {asc : Bool} {r x y : Invoice}

theorem seek_createdAt : seek asc .createdAt toMillis r x = true ↔
    after asc x.createdAt (millis r.createdAt) ∨
      (x.createdAt = millis r.createdAt ∧ after asc (utf16 x.id) (utf16 r.id)) := by
  have hr : r.column .createdAt = some (r.createdAt : ℚ) := rfl
  have hx : x.column .createdAt = some (x.createdAt : ℚ) := rfl
  rw [seek_value_value hr hx, toMillis_intCast, after_intCast, Int.cast_inj]

theorem follows_createdAt : Follows asc .createdAt r x ↔ after asc x.createdAt r.createdAt ∨
    (x.createdAt = r.createdAt ∧ after asc (utf16 x.id) (utf16 r.id)) := by
  have hr : r.column .createdAt = some (r.createdAt : ℚ) := rfl
  have hx : x.column .createdAt = some (x.createdAt : ℚ) := rfl
  rw [follows_value_value hr hx, after_intCast, Int.cast_inj]

theorem millis_bounds (n : ℤ) : millis n ≤ n ∧ (millis n = n ↔ n % 1000 = 0) := by
  unfold millis
  omega

/- Ascending, the predicate starts at or before the row: it repeats rows, but loses none. -/
theorem widens_createdAt {rows : List Invoice} {limit : ℕ}
    (hrows : rows.Pairwise (Follows true .createdAt)) (hlimit : 0 < limit) :
    Widens rows (seek true .createdAt toMillis) limit := by
  intro k r hr x hx
  have hfollows := (mem_drop_iff follows_asymm hrows hr (List.mem_of_mem_drop hx) hlimit).mp hx
  obtain ⟨hle, -⟩ := millis_bounds r.createdAt
  rw [seek_createdAt]
  rcases follows_createdAt.mp hfollows with hlater | ⟨heq, hid⟩
  · have hlt : r.createdAt < x.createdAt := hlater
    exact .inl (lt_of_le_of_lt hle hlt)
  · rcases hle.lt_or_eq with hlt | hwhole
    · exact .inl (heq ▸ hlt)
    · exact .inr ⟨by rw [heq, hwhole], hid⟩

/- Descending, it starts at or after the row: it loses rows, and they stay lost. -/
theorem seek_createdAt_trans (hrx : seek false .createdAt toMillis r x = true)
    (hxy : seek false .createdAt toMillis x y = true) :
    seek false .createdAt toMillis r y = true := by
  rw [seek_createdAt] at hrx hxy ⊢
  obtain ⟨hle, -⟩ := millis_bounds x.createdAt
  have hwhole : x.createdAt = millis r.createdAt → millis x.createdAt = x.createdAt := by
    intro heq
    rw [(millis_bounds x.createdAt).2, heq, millis]
    omega
  simp only [after, Bool.false_eq_true, if_false] at hrx hxy ⊢
  rcases hrx with hlt | ⟨heq, hid⟩
  · left
    rcases hxy with hlt' | ⟨heq', -⟩
    · omega
    · omega
  · have hx := hwhole heq
    rcases hxy with hlt' | ⟨heq', hid'⟩
    · left
      omega
    · exact .inr ⟨by omega, hid'.trans hid⟩

theorem narrows_createdAt {rows : List Invoice} {limit : ℕ}
    (hrows : rows.Pairwise (Follows false .createdAt)) (hlimit : 0 < limit) :
    Narrows rows (seek false .createdAt toMillis) limit := by
  refine ⟨?_, fun r _ x _ y _ => seek_createdAt_trans⟩
  intro k r hr x hx hseek
  rw [mem_drop_iff follows_asymm hrows hr hx hlimit, follows_createdAt]
  obtain ⟨hle, -⟩ := millis_bounds r.createdAt
  rw [seek_createdAt] at hseek
  simp only [after, Bool.false_eq_true, if_false] at hseek ⊢
  rcases hseek with hlt | ⟨heq, hid⟩
  · exact .inl (by omega)
  · rcases hle.lt_or_eq with hlt | hwhole
    · exact .inl (by omega)
    · exact .inr ⟨by omega, hid⟩

/- At a boundary row: ascending, its time has no part below the millisecond; descending,
every row that follows is below its millisecond, or at its very start with a smaller
identifier. -/
def CutsCleanly (asc : Bool) (r : Invoice) (rest : List Invoice) : Prop :=
  if asc then r.createdAt % 1000 = 0
  else ∀ x ∈ rest, x.createdAt < millis r.createdAt ∨
    (x.createdAt = millis r.createdAt ∧ utf16 x.id < utf16 r.id)

theorem seek_createdAt_exact_iff {rows : List Invoice} {limit k : ℕ}
    (hrows : rows.Pairwise (Follows asc .createdAt)) (hlimit : 0 < limit)
    (hr : IsBoundary rows limit k r) :
    (∀ x ∈ rows, (seek asc .createdAt toMillis r x = true ↔ Follows asc .createdAt r x)) ↔
      CutsCleanly asc r (rows.drop (k * limit)) := by
  have hmem : r ∈ rows := List.mem_of_getElem? hr.2.2
  obtain ⟨hle, hwhole⟩ := millis_bounds r.createdAt
  cases asc with
  | true =>
    rw [CutsCleanly, if_pos rfl, ← hwhole]
    constructor
    · intro h
      by_contra hne
      have hself : seek true .createdAt toMillis r r = true :=
        seek_createdAt.mpr (.inl (lt_of_le_of_ne hle hne))
      have hfollows := (h r hmem).mp hself
      exact follows_asymm r r hfollows hfollows
    · intro hcut x _
      rw [seek_createdAt, follows_createdAt, hcut]
  | false =>
    rw [CutsCleanly, if_neg (by simp)]
    constructor
    · intro h x hx
      have hx' := List.mem_of_mem_drop hx
      have hfollows := (mem_drop_iff follows_asymm hrows hr hx' hlimit).mp hx
      exact seek_createdAt.mp ((h x hx').mpr hfollows)
    · intro h x hx
      rw [← mem_drop_iff follows_asymm hrows hr hx hlimit]
      refine ⟨(narrows_createdAt hrows hlimit).after k r hr x hx, fun hdrop => ?_⟩
      exact seek_createdAt.mpr (h x hdrop)

end CreatedAt

/-- A walk by creation time, whose cursors carry whole milliseconds, yields every matching
row once if and only if every page boundary cuts cleanly. -/
theorem createdAt_walk_complete_iff (hmacSha256 : String → String → List UInt8) {env : CursorEnv}
    (driver : Driver) (client : Client env) (t : InvoicesTable) (tenantId : String)
    (q : MarketplaceQuery) (htenant : tenantId ≠ "") (hsort : sortFieldOf q = .createdAt)
    (htruncated : driver.Carries .createdAt toMillis t) :
    YieldsOnce hmacSha256 driver client t tenantId q ↔
      ∀ k r, IsBoundary (sortedRows t tenantId q) (pageSize q) k r →
        CutsCleanly (ascending q) r ((sortedRows t tenantId q).drop (k * pageSize q)) := by
  have hfollows : (sortedRows t tenantId q).Pairwise (Follows (ascending q) .createdAt) :=
    hsort ▸ sortedRows_follows q
  have hside : Widens (sortedRows t tenantId q) (seek (ascending q) (sortFieldOf q) toMillis)
      (pageSize q) ∨ Narrows (sortedRows t tenantId q) (seek (ascending q) (sortFieldOf q) toMillis)
      (pageSize q) := by
    rw [hsort]
    cases hasc : ascending q with
    | true => exact .inl (widens_createdAt (hasc ▸ hfollows) (pageSize_pos q))
    | false => exact .inr (narrows_createdAt (hasc ▸ hfollows) (pageSize_pos q))
  rw [yieldsOnce_iff_exact hmacSha256 client q (hsort ▸ htruncated) htenant hside, hsort]
  refine forall_congr' fun k => forall_congr' fun r => imp_congr_right fun hr => ?_
  exact seek_createdAt_exact_iff hfollows (pageSize_pos q) hr

theorem sampleTable_carries_createdAt :
    sampleDriver.Carries .createdAt toMillis (sampleTable none) := by
  refine sampleTable_carries none fun y _ at₀ hat v hv => ?_
  cases hv
  refine ⟨trivial, by simp [sampleJson], ?_⟩
  rcases List.mem_cons.mp hat with rfl | hat
  · show sampleCast .createdAt (sampleJson .createdAt ((500 : ℤ) : ℚ)) = some (toMillis ((500 : ℤ) : ℚ))
    decide +kernel
  · obtain rfl := List.mem_singleton.mp hat
    show sampleCast .createdAt (sampleJson .createdAt ((700 : ℤ) : ℚ)) = some (toMillis ((700 : ℤ) : ℚ))
    decide +kernel

theorem createdAt_walk_complete_sample :
    sampleTenant ≠ "" ∧ YieldsOnce sampleHash sampleDriver sampleClient (sampleTable none)
      sampleTenant (sampleQuery none none 2) := by
  refine ⟨by decide, (createdAt_walk_complete_iff sampleHash sampleDriver sampleClient (sampleTable none)
    sampleTenant (sampleQuery none none 2) (by decide) rfl sampleTable_carries_createdAt).mpr ?_⟩
  rintro k r ⟨hk, hlt, -⟩
  have hsize : (sortedRows (sampleTable none) sampleTenant (sampleQuery none none 2)).length = 2 := by
    decide
  rw [hsize, show pageSize (sampleQuery none none 2) = 2 from rfl] at hlt
  omega

/- Two rows of the same millisecond, newest first, one row a page: the second is lost. -/
theorem createdAt_walk_incomplete :
    ¬ YieldsOnce sampleHash sampleDriver sampleClient (sampleTable none) sampleTenant
      (sampleQuery none none 1) := by
  intro h
  have hrows : (sortedRows (sampleTable none) sampleTenant (sampleQuery none none 1)).Pairwise
      (Follows false .createdAt) := sortedRows_follows (sampleQuery none none 1)
  rw [yieldsOnce_iff_exact sampleHash sampleClient _ sampleTable_carries_createdAt (by decide)
    (.inr (narrows_createdAt hrows (pageSize_pos _)))] at h
  have hexact := h 1 (sampleInvoice "00000000-0000-4000-8000-000000000002" 700 none)
    ⟨by decide, by decide, by decide⟩
    (sampleInvoice "00000000-0000-4000-8000-000000000001" 500 (some 250)) (by decide)
  have hlater : after false (500 : ℤ) 700 := by simp [after]
  exact absurd (hexact.mpr (follows_createdAt.mpr (.inl hlater))) (by decide +kernel)

end Liquifact.Marketplace
