import Liquifact.Invest.InvestorCommitment
import Liquifact.Lib.Keyset
import Liquifact.Lib.OrdMap
import Liquifact.Lib.Run
import Liquifact.Lib.Separated

/-!
# The investor lock store (`src/services/investorCommitment.js`, 242-334)

Locks stand in one map under `${invoiceId}:${funderAddress}`. An invoice id may have colons;
an address that `validateAddress` accepts has none, so the pair can be told from the key.
Page sizes and page numbers are whole numbers of any size.
-/

namespace Liquifact.Invest
open Liquifact.Lib

/-- The arguments of `setInvestorLock`. -/
structure LockParams where
  funderAddress : String
  claimNotBefore : String
  investorEffectiveYieldBps : JsNumber
  invoiceId : String
  deriving DecidableEq

structure Lock extends LockParams where
  stale : Bool
  deriving DecidableEq

abbrev LockStore := OrdMap String Lock

def lockKey (invoiceId funderAddress : String) : String := invoiceId ++ (":" ++ funderAddress)

def lockRecord (params : LockParams) : Lock := { params with stale := true }

def setInvestorLock (lockStore : LockStore) (params : LockParams) : LockStore :=
  lockStore.set (lockKey params.invoiceId params.funderAddress) (lockRecord params)

def getInvestorLock (lockStore : LockStore) (invoiceId funderAddress : String) : Option Lock :=
  lockStore.get (lockKey invoiceId funderAddress)

structure ListOptions where
  invoiceId : Option String
  limit : Option ℤ
  page : Option ℤ

structure LockPage where
  data : List Lock
  total : ℕ
  page : ℤ
  limit : ℤ
  totalPages : ℕ
  hasMore : Bool

/- One page of the filtered items, with its meta data. -/
def lockPage (items : List Lock) (opts : ListOptions) : LockPage :=
  let safeLimit := max 1 (min 100 (opts.limit.getD 20))
  let safePage := max 1 (opts.page.getD 1)
  let total := items.length
  let offset := (safePage - 1) * safeLimit
  let data := (items.drop offset.toNat).take safeLimit.toNat
  { data := data
    total := total
    page := safePage
    limit := safeLimit
    totalPages := max 1 ((total + safeLimit.toNat - 1) / safeLimit.toNat)
    hasMore := decide (offset + data.length < total) }

/- `if (invoiceId) items = items.filter(...)`. -/
def filterByInvoice (invoiceId : Option String) (items : List Lock) : List Lock :=
  match truthy invoiceId with
  | some id => items.filter fun l => l.invoiceId = id
  | none => items

def getAllInvestorLocks (lockStore : LockStore) (opts : ListOptions) : LockPage :=
  lockPage (filterByInvoice opts.invoiceId lockStore.values) opts

def getInvestorLocksByAddress (lockStore : LockStore) (funderAddress : String)
    (opts : ListOptions) : LockPage :=
  lockPage (filterByInvoice opts.invoiceId
    (lockStore.values.filter fun l => l.funderAddress = funderAddress)) opts

inductive LockCall where
  | setInvestorLock (params : LockParams)
  | getInvestorLock (invoiceId funderAddress : String)
  | getAllInvestorLocks (opts : ListOptions)
  | getInvestorLocksByAddress (funderAddress : String) (opts : ListOptions)

/- The store after one call; only a write changes it. -/
def lockStep (lockStore : LockStore) (call : LockCall) : LockStore :=
  match call with
  | .setInvestorLock params => setInvestorLock lockStore params
  | _ => lockStore

def lockStoreAfter (calls : List LockCall) : LockStore := run lockStep OrdMap.empty calls

/-! ### The keyed map -/

def written : LockCall → Option Lock
  | .setInvestorLock params => some (lockRecord params)
  | _ => none

def Lock.pair (l : Lock) : String × String := (l.invoiceId, l.funderAddress)

/- The last value that was written for a pair. -/
def lastWritten (calls : List LockCall) (pair : String × String) : Option Lock :=
  ((calls.filterMap written).filter fun l => l.pair = pair).getLast?

/-- The map from pairs to locks that the store is meant to be. -/
abbrev PairMap := OrdMap (String × String) Lock

def pairStep (m : PairMap) (call : LockCall) : PairMap :=
  match written call with
  | some l => m.set l.pair l
  | none => m

def pairMapAfter (calls : List LockCall) : PairMap := run pairStep OrdMap.empty calls

theorem pairMapAfter_append (calls : List LockCall) (call : LockCall) :
    pairMapAfter (calls ++ [call]) = pairStep (pairMapAfter calls) call := by
  rw [pairMapAfter, run_append]
  rfl

theorem lastWritten_append (calls : List LockCall) (call : LockCall) (pair : String × String) :
    lastWritten (calls ++ [call]) pair =
      ((written call).filter fun l => l.pair = pair).or (lastWritten calls pair) := by
  simp only [lastWritten, List.filterMap_append, List.filter_append, List.getLast?_append,
    List.filterMap_cons, List.filterMap_nil]
  cases written call with
  | none => rfl
  | some l =>
    by_cases hl : l.pair = pair
    · simp [Option.filter, hl]
    · simp [Option.filter, hl]

theorem pair_of_lastWritten {calls : List LockCall} {pair : String × String} {l : Lock}
    (h : lastWritten calls pair = some l) : l.pair = pair := by
  have hmem := List.mem_of_getLast? h
  exact of_decide_eq_true (List.mem_filter.mp hmem).2

theorem pairMapAfter_get (calls : List LockCall) (pair : String × String) :
    (pairMapAfter calls).get pair = lastWritten calls pair := by
  induction calls using List.reverseRecOn with
  | nil => rfl
  | append_singleton calls call ih =>
    rw [pairMapAfter_append, lastWritten_append, pairStep]
    cases written call with
    | none => exact ih
    | some l =>
      simp only [OrdMap.get_set, ih]
      by_cases hl : l.pair = pair
      · simp [Option.filter, hl]
      · simp [Option.filter, hl]

/- The pairs in the order of their first writes. -/
def writtenPairs (calls : List LockCall) : List (String × String) :=
  ((calls.filterMap written).map Lock.pair).eraseDups

theorem writtenPairs_append (calls : List LockCall) (call : LockCall) :
    writtenPairs (calls ++ [call]) =
      match written call with
      | some l =>
        if l.pair ∈ writtenPairs calls then writtenPairs calls else writtenPairs calls ++ [l.pair]
      | none => writtenPairs calls := by
  rw [writtenPairs, List.filterMap_append, List.map_append, List.eraseDups_append, ← writtenPairs]
  simp only [List.filterMap_cons, List.filterMap_nil]
  cases written call with
  | none => simp [List.removeAll]
  | some l =>
    rw [writtenPairs]
    by_cases hl : l.pair ∈ (calls.filterMap written).map Lock.pair
    · simp [List.removeAll, hl]
    · simp [List.removeAll, hl, List.eraseDups_cons]

theorem pairMapAfter_keys (calls : List LockCall) :
    (pairMapAfter calls).entries.map Prod.fst = writtenPairs calls := by
  induction calls using List.reverseRecOn with
  | nil => rfl
  | append_singleton calls call ih =>
    rw [pairMapAfter_append, writtenPairs_append, pairStep]
    cases written call with
    | none => exact ih
    | some l =>
      have hkeys := OrdMap.keys_set (pairMapAfter calls) l.pair l
      rw [ih] at hkeys
      by_cases hl : l.pair ∈ writtenPairs calls
      · exact (hkeys.trans (if_pos hl)).trans (if_pos hl).symm
      · exact (hkeys.trans (if_neg hl)).trans (if_neg hl).symm

theorem pairMapAfter_values (calls : List LockCall) :
    (pairMapAfter calls).values = (writtenPairs calls).filterMap (lastWritten calls) := by
  rw [OrdMap.values_eq_filterMap, pairMapAfter_keys]
  exact List.filterMap_congr fun pair _ => pairMapAfter_get calls pair

/-! ### Keys -/

def isBase32Char (c : Char) : Bool := c.isUpper || decide ('2' ≤ c ∧ c ≤ '7')

/-- What the codec documents of an address: 56 letters A-Z or digits 2-7. -/
def StrKey.Base32 (strKey : StrKey) : Prop :=
  ∀ address, isValidStellarAddress strKey address = true →
    address.length = 56 ∧ address.toList.all isBase32Char = true

def keyOf (pair : String × String) : String := lockKey pair.1 pair.2

section Keys
variable {strKey : StrKey} (hbase : strKey.Base32)
include hbase

theorem no_colon {address : String} (h : validateAddress strKey address = .ok ()) :
    ':' ∉ address.toList := by
  obtain ⟨_, -, h⟩ := bind_ok h
  have hvalid := refuse_ok_iff.mp h
  push Not at hvalid
  intro hmem
  have hcolon := List.all_eq_true.mp (hbase address hvalid).2 ':' hmem
  revert hcolon
  decide

theorem keyOf_inj {pair pair' : String × String} (h : validateAddress strKey pair.2 = .ok ())
    (h' : validateAddress strKey pair'.2 = .ok ()) (heq : keyOf pair = keyOf pair') :
    pair = pair' := by
  have hsplit := append_sep_inj_last (no_colon hbase h) (no_colon hbase h') heq
  exact Prod.ext hsplit.1 hsplit.2

end Keys

/- The store is the map of pairs under the flattened keys, and its addresses are valid. -/
def Simulates (strKey : StrKey) (lockStore : LockStore) (m : PairMap) : Prop :=
  lockStore.entries = OrdMap.renameL keyOf m.entries ∧
    ∀ e ∈ m.entries, validateAddress strKey e.1.2 = .ok ()

def LockCall.Valid (strKey : StrKey) : LockCall → Prop
  | .setInvestorLock params => validateAddress strKey params.funderAddress = .ok ()
  | .getInvestorLock _ funderAddress => validateAddress strKey funderAddress = .ok ()
  | .getAllInvestorLocks _ => True
  | .getInvestorLocksByAddress funderAddress _ => validateAddress strKey funderAddress = .ok ()

theorem Simulates.step {strKey : StrKey} (hbase : strKey.Base32) {lockStore : LockStore}
    {m : PairMap} (h : Simulates strKey lockStore m) {call : LockCall}
    (hcall : call.Valid strKey) : Simulates strKey (lockStep lockStore call) (pairStep m call) := by
  cases call with
  | setInvestorLock params =>
    obtain ⟨hentries, hvalid⟩ := h
    have hinj : ∀ e ∈ m.entries, keyOf e.1 = keyOf (lockRecord params).pair →
        e.1 = (lockRecord params).pair :=
      fun e he => keyOf_inj hbase (hvalid e he) hcall
    refine ⟨?_, fun e he => ?_⟩
    · have hset := OrdMap.setL_renameL (lockRecord params) hinj
      rw [← hentries] at hset
      exact hset
    · rcases OrdMap.mem_setL he with rfl | he
      · exact hcall
      · exact hvalid e he
  | getInvestorLock invoiceId funderAddress => exact h
  | getAllInvestorLocks opts => exact h
  | getInvestorLocksByAddress funderAddress opts => exact h

theorem simulates {strKey : StrKey} (hbase : strKey.Base32) (calls : List LockCall)
    (hcalls : ∀ call ∈ calls, call.Valid strKey) :
    Simulates strKey (lockStoreAfter calls) (pairMapAfter calls) := by
  induction calls using List.reverseRecOn with
  | nil => exact ⟨rfl, fun e he => by cases he⟩
  | append_singleton calls call ih =>
    have hbefore := ih fun c hc => hcalls c (List.mem_append_left _ hc)
    rw [pairMapAfter_append, lockStoreAfter, run_append]
    exact hbefore.step hbase (hcalls call (by simp))

theorem Simulates.get {strKey : StrKey} (hbase : strKey.Base32) {lockStore : LockStore}
    {m : PairMap} (h : Simulates strKey lockStore m) {invoiceId funderAddress : String}
    (hvalid : validateAddress strKey funderAddress = .ok ()) :
    getInvestorLock lockStore invoiceId funderAddress = m.get (invoiceId, funderAddress) := by
  have hinj : ∀ e ∈ m.entries, keyOf e.1 = keyOf (invoiceId, funderAddress) →
      e.1 = (invoiceId, funderAddress) :=
    fun e he => keyOf_inj hbase (h.2 e he) hvalid
  rw [getInvestorLock, OrdMap.get, h.1]
  exact OrdMap.lookupL_renameL hinj

theorem Simulates.values {strKey : StrKey} {lockStore : LockStore} {m : PairMap}
    (h : Simulates strKey lockStore m) : lockStore.values = m.values := by
  rw [OrdMap.values, h.1, OrdMap.values, OrdMap.renameL, List.map_map]
  rfl

/-! ### Pages -/

/-- The pages of a listing partition `rows` in their order, `size` rows a page; `none` asks
for no page. -/
structure Partitions (pages : Option ℤ → LockPage) (rows : List Lock) (size : ℤ) : Prop where
  total : ∀ page, (pages page).total = rows.length
  first : ∀ page, page.getD 1 ≤ 1 → pages page = pages (some 1)
  inOrder :
    ((List.range (pages none).totalPages).map fun k : ℕ => (pages (some (k + 1))).data).flatten =
      rows
  beyond : ∀ page : ℤ, (pages none).totalPages < page → (pages (some page)).data = []
  bounded : ∀ page, (pages page).data.length ≤ size
  full : ∀ page, (pages page).hasMore = true → (pages page).data.length = size
  hasMore : ∀ page, 1 ≤ page →
    ((pages (some page)).hasMore = true ↔
      ∃ later, page < later ∧ (pages (some later)).data ≠ [])

def pageSize (limit : Option ℤ) : ℤ := max 1 (min 100 (limit.getD 20))

theorem pageSize_pos (limit : Option ℤ) : 0 < (pageSize limit).toNat := by
  unfold pageSize
  omega

section Pages
variable (items : List Lock) (invoiceId : Option String) (limit : Option ℤ)

theorem lockPage_at (k : ℕ) :
    lockPage items ⟨invoiceId, limit, some (k + 1)⟩ =
      { data := offsetPage items (pageSize limit).toNat k
        total := items.length
        page := k + 1
        limit := pageSize limit
        totalPages := max 1 ((items.length + (pageSize limit).toNat - 1) / (pageSize limit).toNat)
        hasMore := decide ((k + 1) * (pageSize limit).toNat < items.length) } := by
  have hpos := pageSize_pos limit
  have hsize : ((pageSize limit).toNat : ℤ) = pageSize limit := by omega
  have hpage : max 1 ((k : ℤ) + 1) = k + 1 := by omega
  have hoffset : ((k : ℤ) + 1 - 1) * pageSize limit = (k * (pageSize limit).toNat : ℕ) := by
    rw [Nat.cast_mul, hsize]
    ring
  simp only [lockPage, Option.getD_some, hpage, ← pageSize.eq_1]
  rw [hoffset, Int.toNat_natCast, ← offsetPage]
  congr 2
  rw [eq_iff_iff, ← Nat.cast_add, Nat.cast_lt, offsetPage, List.length_take, List.length_drop,
    Nat.succ_mul]
  omega

theorem lockPage_first {page : Option ℤ} (h : page.getD 1 ≤ 1) :
    lockPage items ⟨invoiceId, limit, page⟩ = lockPage items ⟨invoiceId, limit, some 1⟩ := by
  have hpage : max 1 (page.getD 1) = 1 := by omega
  simp only [lockPage, hpage, Option.getD_some, max_self]

/- Every page is one of those that are counted from 0. -/
theorem lockPage_counted (page : Option ℤ) :
    ∃ k : ℕ, lockPage items ⟨invoiceId, limit, page⟩ =
      lockPage items ⟨invoiceId, limit, some (k + 1)⟩ := by
  cases page with
  | none => exact ⟨0, lockPage_first items invoiceId limit le_rfl⟩
  | some p =>
    by_cases hp : p ≤ 1
    · exact ⟨0, lockPage_first items invoiceId limit hp⟩
    · refine ⟨(p - 1).toNat, ?_⟩
      rw [Int.toNat_of_nonneg (by omega), sub_add_cancel]

theorem length_le_totalPages (n : ℕ) :
    n ≤ max 1 ((n + (pageSize limit).toNat - 1) / (pageSize limit).toNat) *
      (pageSize limit).toNat := by
  have hpos := pageSize_pos limit
  have hceil := Nat.lt_div_mul_add (a := n + (pageSize limit).toNat - 1) hpos
  have hmax := Nat.mul_le_mul_right (pageSize limit).toNat
    (Nat.le_max_right 1 ((n + (pageSize limit).toNat - 1) / (pageSize limit).toNat))
  omega

theorem lockPage_partitions :
    Partitions (fun page => lockPage items ⟨invoiceId, limit, page⟩) items (pageSize limit) := by
  have hpos := pageSize_pos limit
  have hsize : ((pageSize limit).toNat : ℤ) = pageSize limit := by omega
  refine
    { total := fun page => rfl
      first := fun page => lockPage_first items invoiceId limit
      inOrder := ?inOrder
      beyond := fun page hbeyond => ?beyond
      bounded := fun page => ?bounded
      full := fun page hmore => ?full
      hasMore := fun page hpage => ?hasMore }
  case inOrder =>
    simp only [lockPage_at]
    exact flatten_offsetPages_all (length_le_totalPages limit items.length)
  case beyond =>
    obtain ⟨k, rfl⟩ : ∃ k : ℕ, page = k + 1 := ⟨(page - 1).toNat, by omega⟩
    have hlate : max 1 ((items.length + (pageSize limit).toNat - 1) / (pageSize limit).toNat) ≤ k := by
      have hlt : ((max 1 ((items.length + (pageSize limit).toNat - 1) / (pageSize limit).toNat) : ℕ) : ℤ)
          < k + 1 := hbeyond
      omega
    have hrows := (length_le_totalPages limit items.length).trans
      (Nat.mul_le_mul_right (pageSize limit).toNat hlate)
    by_contra hne
    simp only [lockPage_at] at hne
    exact absurd ((offsetPage_ne_nil_iff hpos k).mp hne) (by omega)
  case bounded =>
    obtain ⟨k, hk⟩ := lockPage_counted items invoiceId limit page
    simp only [hk, lockPage_at, offsetPage, List.length_take]
    omega
  case full =>
    obtain ⟨k, hk⟩ := lockPage_counted items invoiceId limit page
    simp only [hk, lockPage_at, decide_eq_true_eq, Nat.succ_mul] at hmore
    simp only [hk, lockPage_at, offsetPage, List.length_take, List.length_drop]
    omega
  case hasMore =>
    obtain ⟨k, rfl⟩ : ∃ k : ℕ, page = k + 1 := ⟨(page - 1).toNat, by omega⟩
    simp only [lockPage_at, decide_eq_true_eq]
    constructor
    · intro hmore
      refine ⟨(k + 1 : ℕ) + 1, by omega, ?_⟩
      rw [lockPage_at]
      exact (offsetPage_ne_nil_iff hpos (k + 1)).mpr hmore
    · rintro ⟨later, hlater, hrows⟩
      obtain ⟨j, rfl⟩ : ∃ j : ℕ, later = j + 1 := ⟨(later - 1).toNat, by omega⟩
      rw [lockPage_at] at hrows
      have hlast := (offsetPage_ne_nil_iff hpos j).mp hrows
      have hkj : k + 1 ≤ j := by omega
      exact lt_of_le_of_lt (Nat.mul_le_mul_right _ hkj) hlast

end Pages

/-! ### The store refines the map -/

/- The locks of the map that the filter asks for, in the order of their first writes. An
empty invoice id asks for nothing. -/
def filteredLocks (calls : List LockCall) (funderAddress invoiceId : Option String) : List Lock :=
  ((writtenPairs calls).filter fun pair =>
    (∀ address ∈ funderAddress, pair.2 = address) ∧
      (∀ id ∈ invoiceId, id = "" ∨ pair.1 = id)).filterMap (lastWritten calls)

theorem filter_values (calls : List LockCall) (p : Lock → Bool) (q : String × String → Bool)
    (h : ∀ l, p l = q l.pair) :
    (pairMapAfter calls).values.filter p =
      ((writtenPairs calls).filter q).filterMap (lastWritten calls) := by
  rw [pairMapAfter_values, List.filter_filterMap, List.filterMap_filter]
  refine List.filterMap_congr fun pair _ => ?_
  cases hl : lastWritten calls pair with
  | none => simp
  | some l =>
    have hpair := pair_of_lastWritten hl
    simp [Option.filter, h l, hpair]

theorem filterByInvoice_filter (invoiceId : Option String) (items : List Lock) :
    filterByInvoice invoiceId items =
      items.filter fun l => decide (∀ id ∈ invoiceId, id = "" ∨ l.invoiceId = id) := by
  cases invoiceId with
  | none => simp [filterByInvoice, truthy]
  | some id =>
    by_cases hid : id = ""
    · simp [filterByInvoice, truthy, hid]
    · simp [filterByInvoice, truthy, hid]

section Listings
variable {strKey : StrKey} (hbase : strKey.Base32) {calls : List LockCall}
  (hcalls : ∀ call ∈ calls, call.Valid strKey) (invoiceId : Option String)
include hbase hcalls

theorem listed_all :
    filterByInvoice invoiceId (lockStoreAfter calls).values =
      filteredLocks calls none invoiceId := by
  rw [(simulates hbase calls hcalls).values, filterByInvoice_filter, filteredLocks]
  apply filter_values
  intro l
  simp [Lock.pair]

theorem listed_byAddress (funderAddress : String) :
    filterByInvoice invoiceId
        ((lockStoreAfter calls).values.filter fun l => l.funderAddress = funderAddress) =
      filteredLocks calls (some funderAddress) invoiceId := by
  rw [(simulates hbase calls hcalls).values, filterByInvoice_filter, List.filter_filter,
    filteredLocks]
  apply filter_values
  intro l
  rw [Bool.and_comm]
  simp [Lock.pair]

end Listings

/-- The store answers as the map from pairs to the locks last written, and the pages of a
listing partition the locks that its filter asks for. -/
theorem lockStore_refines (strKey : StrKey) (hbase : strKey.Base32) (calls : List LockCall)
    (hcalls : ∀ call ∈ calls, call.Valid strKey) :
    (∀ invoiceId funderAddress, validateAddress strKey funderAddress = .ok () →
      getInvestorLock (lockStoreAfter calls) invoiceId funderAddress =
        lastWritten calls (invoiceId, funderAddress)) ∧
    (∀ invoiceId limit,
      Partitions (fun page => getAllInvestorLocks (lockStoreAfter calls) ⟨invoiceId, limit, page⟩)
        (filteredLocks calls none invoiceId) (max 1 (min 100 (limit.getD 20)))) ∧
    ∀ funderAddress invoiceId limit,
      Partitions
        (fun page =>
          getInvestorLocksByAddress (lockStoreAfter calls) funderAddress ⟨invoiceId, limit, page⟩)
        (filteredLocks calls (some funderAddress) invoiceId)
        (max 1 (min 100 (limit.getD 20))) := by
  refine ⟨fun invoiceId funderAddress hvalid => ?_, fun invoiceId limit => ?_,
    fun funderAddress invoiceId limit => ?_⟩
  · rw [(simulates hbase calls hcalls).get hbase hvalid]
    exact pairMapAfter_get calls (invoiceId, funderAddress)
  · have hpages := lockPage_partitions
      (filterByInvoice invoiceId (lockStoreAfter calls).values) invoiceId limit
    rw [← listed_all hbase hcalls]
    exact hpages
  · have hpages := lockPage_partitions (filterByInvoice invoiceId
      ((lockStoreAfter calls).values.filter fun l => l.funderAddress = funderAddress)) invoiceId limit
    rw [← listed_byAddress hbase hcalls]
    exact hpages

def funder : String := "GAAAAAAAAAAAAAAAAAAAAAAAAAAAAAAAAAAAAAAAAAAAAAAAAAAAAWHF"

def oneFunder : StrKey := ⟨fun address => decide (address = funder), fun _ => false⟩

theorem oneFunder_base32 : oneFunder.Base32 := by
  intro address h
  have hfunder : address = funder := by simpa [isValidStellarAddress, oneFunder] using h
  rw [hfunder]
  constructor
  · rw [funder, String.length_ofList]
    rfl
  · rw [funder, String.toList_ofList]
    decide

def lockOf (invoiceId : String) (bps : JsNumber) : LockParams :=
  ⟨funder, "2026-01-01T00:00:00Z", bps, invoiceId⟩

def sampleCalls : List LockCall :=
  [.setInvestorLock (lockOf "inv:1" (.fin 500)), .setInvestorLock (lockOf "inv" (.fin 300)),
    .getInvestorLock "inv" funder, .setInvestorLock (lockOf "inv:1" (.fin 700))]

theorem funder_valid : validateAddress oneFunder funder = .ok () := by
  have hne : funder ≠ "" := by decide
  simp [validateAddress, refuse, isValidStellarAddress, oneFunder, hne, bind, Except.bind]

theorem sampleCalls_valid : ∀ call ∈ sampleCalls, call.Valid oneFunder := by
  simp only [sampleCalls, List.forall_mem_cons]
  exact ⟨funder_valid, funder_valid, funder_valid, funder_valid, by simp⟩

theorem lockStore_refines_sample :
    getInvestorLock (lockStoreAfter sampleCalls) "inv:1" funder =
      some (lockRecord (lockOf "inv:1" (.fin 700))) :=
  ((lockStore_refines oneFunder oneFunder_base32 sampleCalls sampleCalls_valid).1 "inv:1" funder
    funder_valid).trans (by decide)

end Liquifact.Invest
