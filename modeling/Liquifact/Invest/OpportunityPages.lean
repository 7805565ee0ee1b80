import Liquifact.Escrow.EscrowMap
import Liquifact.Invest.InvestService
import Liquifact.Lib.OffsetPages

/-!
# The opportunity pages (`src/services/investService.js`)

`getOpportunities` (96-137) and `listOpportunities` (229-303) count the tenant's investable rows
and fetch one page of them by limit and offset, ordered by `created_at` alone. The second asks
as well which rows the tenant owns and merges their escrow state. A reader of the list asks for
the pages from 1 to `totalPages`; the table does not change.
-/

namespace Liquifact.Invest
open Liquifact.Lib Liquifact.Escrow Liquifact.Marketplace

/- `ORDER BY created_at DESC`: rows of one time may come in any order. -/
structure NewestOrder where
  arrange : List Invoice → List Invoice
  descending : ∀ rows, Descending Invoice.createdAt rows (arrange rows)

structure OpportunityPage where
  data : List Opportunity
  total : ℕ
  page : ℕ
  limit : ℕ
  totalPages : ℕ

/- `parseInt(value, 10) || fallback`, `none` for `NaN`. -/
def parsedOr (fallback : ℤ) : Option ℤ → ℤ
  | none => fallback
  | some n => if n = 0 then fallback else n

def pageNum (page : Option ℤ) : ℕ := (max 1 (parsedOr 1 page)).toNat

def cappedSize (fallback : ℤ) (limit : Option ℤ) : ℕ :=
  (max 1 (min 100 (parsedOr fallback limit))).toNat

def investableRows (t : InvoicesTable) (tenantId : String) : List Invoice :=
  t.rows.filter (investable tenantId)

/- The page with the given rows of it shown as `data`. -/
def opportunityPage (data : List Opportunity) (total page limit : ℕ) : OpportunityPage where
  data := data
  total := total
  page := page
  limit := limit
  totalPages := (total + limit - 1) / limit

def getOpportunities (isoString : ℤ → String) (order : NewestOrder) (t : InvoicesTable)
    (tenantId : Option String) (page limit : Option ℤ) : Except String OpportunityPage :=
  match truthy tenantId with
  | none => .error "Missing tenant context"
  | some tenantId =>
    let limitSize := cappedSize 10 limit
    let matching := investableRows t tenantId
    let rows := offsetPage (order.arrange matching) limitSize (pageNum page - 1)
    .ok (opportunityPage (rows.map (toOpportunityDto isoString)) matching.length (pageNum page) limitSize)

/- The escrow mapping as `_getConfig` loads it, and `NODE_ENV`. -/
structure EscrowMapping where
  config : Except String EscrowMapConfig
  nodeEnv : Option String

/- An address that cannot be resolved is left empty. -/
def EscrowMapping.addressOf (m : EscrowMapping) (invoiceId : String) : String :=
  let resolved := do
    let config ← m.config
    config.resolveEscrowAddress (currentEnvironment m.nodeEnv config) invoiceId
  match resolved with
  | .error _ => ""
  | .ok address => address

def onChainStateOf (read : List Members × List BatchError) (invoiceId : String) : Option Members :=
  read.1.find? fun (state : Members) =>
    match OrdMap.lookupL "invoiceId" state with
    | some (.str id) => decide (id = invoiceId)
    | _ => false

def enrich (m : EscrowMapping) (read : List Members × List BatchError) (item : Opportunity) :
    Opportunity :=
  { item with
    onChain := assign [] ((onChainStateOf read item.invoiceId).getD [] ++
      [("escrowAddress", .str (m.addressOf item.invoiceId)), ("ledgerIndex", .null)]) }

def listOpportunities (s : Surroundings) (m : EscrowMapping) (order : NewestOrder)
    (t : InvoicesTable) (tenantId : Option String) (page limit : Option ℤ) :
    Except String OpportunityPage :=
  match truthy tenantId with
  | none => .error "Missing tenant context"
  | some tenantId =>
    let limitSize := cappedSize 20 limit
    let matching := investableRows t tenantId
    let rows := offsetPage (order.arrange matching) limitSize (pageNum page - 1)
    let candidateData := rows.map (toOpportunityDto s.isoString)
    let invoiceIds := candidateData.map Opportunity.invoiceId
    let tenantOwnedInvoiceIds := filterTenantOwnedInvoiceIds t invoiceIds tenantId
    let data := candidateData.filter fun item => decide (item.invoiceId ∈ tenantOwnedInvoiceIds)
    let enriched := data.map (enrich m (batchReadEscrowStates s tenantOwnedInvoiceIds))
    .ok (opportunityPage enriched matching.length (pageNum page) limitSize)

/-! ### Reading the list -/

/- The identifiers that the pages from 1 on show. -/
def shownIds (answer : ℕ → Except String OpportunityPage) (count : ℕ) : List String :=
  (List.range count).flatMap fun k =>
    match answer (k + 1) with
    | .error _ => []
    | .ok page => page.data.map Opportunity.invoiceId

/- The pages from 1 to `totalPages` show every one of the identifiers, and each once. -/
def Partitioned (answer : ℕ → Except String OpportunityPage) (ids : List String) : Prop :=
  ∃ first, answer 1 = .ok first ∧ (shownIds answer first.totalPages).Perm ids

section Pages
variable {t : InvoicesTable} {tenantId : String} {rows xs : List Invoice} {size : ℕ}

theorem cappedSize_pos (fallback : ℤ) (limit : Option ℤ) : 0 < cappedSize fallback limit := by
  unfold cappedSize
  omega

theorem pageNum_succ (k : ℕ) : pageNum (some (k + 1 : ℕ)) = k + 1 := by
  have hparsed : parsedOr 1 (some (k + 1 : ℕ)) = (k + 1 : ℕ) := by
    simp only [parsedOr]
    exact if_neg (by omega)
  rw [pageNum, hparsed]
  omega

theorem investableRows_ids (t : InvoicesTable) (tenantId : String) :
    ((investableRows t tenantId).map Invoice.id).Nodup :=
  (List.filter_sublist.map Invoice.id).nodup t.distinct

/- The pages from 1 on are those of the rows, `size` to a page. -/
def CutsPages (answer : ℕ → Except String OpportunityPage) (orders : ℕ → NewestOrder)
    (rows : List Invoice) (size : ℕ) : Prop :=
  ∀ k, ∃ page, answer (k + 1) = .ok page ∧ page.totalPages = (rows.length + size - 1) / size ∧
    page.data.map Opportunity.invoiceId =
      (offsetPage ((orders (k + 1)).arrange rows) size k).map Invoice.id

theorem getOpportunities_cuts (htenant : tenantId ≠ "") (isoString : ℤ → String)
    (orders : ℕ → NewestOrder) (limit : Option ℤ) :
    CutsPages (fun page => getOpportunities isoString (orders page) t (some tenantId) (some page) limit)
      orders (investableRows t tenantId) (cappedSize 10 limit) := by
  intro k
  simp only [getOpportunities, truthy_of_ne htenant, pageNum_succ, Nat.add_sub_cancel]
  refine ⟨_, rfl, rfl, ?_⟩
  rw [opportunityPage, List.map_map]
  rfl

/- The second query confirms the rows of the first. -/
theorem owned_of_investable {ids : List String} {r : Invoice} (hid : r.id ∈ ids)
    (hr : r ∈ investableRows t tenantId) : r.id ∈ filterTenantOwnedInvoiceIds t ids tenantId := by
  obtain ⟨hrow, hinvest⟩ := List.mem_filter.mp hr
  obtain ⟨hlive, htenant, -⟩ := investable_iff.mp hinvest
  exact mem_filterTenantOwned_iff.mpr ⟨hid, r, hrow, rfl, htenant, hlive⟩

theorem listOpportunities_cuts (htenant : tenantId ≠ "") (s : Surroundings) (m : EscrowMapping)
    (orders : ℕ → NewestOrder) (limit : Option ℤ) :
    CutsPages (fun page => listOpportunities s m (orders page) t (some tenantId) (some page) limit)
      orders (investableRows t tenantId) (cappedSize 20 limit) := by
  intro k
  simp only [listOpportunities, truthy_of_ne htenant, pageNum_succ, Nat.add_sub_cancel]
  refine ⟨_, rfl, rfl, ?_⟩
  rw [opportunityPage, List.map_map]
  have hall : ∀ item ∈ (offsetPage ((orders (k + 1)).arrange (investableRows t tenantId))
        (cappedSize 20 limit) k).map (toOpportunityDto s.isoString),
      item.invoiceId ∈ filterTenantOwnedInvoiceIds t
        (((offsetPage ((orders (k + 1)).arrange (investableRows t tenantId))
          (cappedSize 20 limit) k).map (toOpportunityDto s.isoString)).map Opportunity.invoiceId)
        tenantId := by
    intro item hitem
    have hid := List.mem_map_of_mem (f := Opportunity.invoiceId) hitem
    obtain ⟨r, hr, rfl⟩ := List.mem_map.mp hitem
    refine owned_of_investable hid ?_
    exact ((orders (k + 1)).descending _).perm.subset (List.mem_of_mem_drop (List.mem_of_mem_take hr))
  rw [List.filter_eq_self.mpr fun item hitem => decide_eq_true (hall item hitem), List.map_map]
  rfl

/-! ### When the pages partition the list -/

theorem perm_of_ids (hids : (rows.map Invoice.id).Nodup) (hsub : ∀ r ∈ xs, r ∈ rows) :
    (xs.map Invoice.id).Perm (rows.map Invoice.id) ↔ xs.Perm rows := by
  constructor
  · intro h
    have hnodup : xs.Nodup := (h.nodup_iff.mpr hids).of_map
    refine (hnodup.subperm hsub).perm_of_length_le ?_
    simpa using h.length_eq.ge
  · exact List.Perm.map Invoice.id

theorem shownIds_eq {answer : ℕ → Except String OpportunityPage} {orders : ℕ → NewestOrder}
    (h : CutsPages answer orders rows size) (count : ℕ) : shownIds answer count =
      (pagesOf (fun k => (orders (k + 1)).arrange rows) size count).map Invoice.id := by
  rw [shownIds, pagesOf, List.map_flatMap]
  refine List.flatMap_congr fun k _ => ?_
  obtain ⟨page, hpage, -, hdata⟩ := h k
  rw [hpage]
  exact hdata

theorem partitioned_iff {answer : ℕ → Except String OpportunityPage} {orders : ℕ → NewestOrder}
    (h : CutsPages answer orders rows size) (hids : (rows.map Invoice.id).Nodup) :
    Partitioned answer (rows.map Invoice.id) ↔ (pagesOf (fun k => (orders (k + 1)).arrange rows)
      size ((rows.length + size - 1) / size)).Perm rows := by
  have hsub : ∀ r ∈ pagesOf (fun k => (orders (k + 1)).arrange rows) size
      ((rows.length + size - 1) / size), r ∈ rows := by
    intro r hr
    obtain ⟨k, -, hk⟩ := List.mem_flatMap.mp hr
    exact ((orders (k + 1)).descending rows).perm.subset
      (List.mem_of_mem_drop (List.mem_of_mem_take hk))
  rw [← perm_of_ids hids hsub, ← shownIds_eq h]
  obtain ⟨first, hfirst, htotal, -⟩ := h 0
  constructor
  · rintro ⟨page, hpage, hperm⟩
    obtain rfl := Except.ok.inj (hfirst.symm.trans hpage)
    rwa [htotal] at hperm
  · intro hperm
    exact ⟨first, hfirst, by rwa [htotal]⟩

/- Every order of the rows is one that some query may give. -/
theorem exists_order (h : Descending Invoice.createdAt rows xs) :
    ∃ order : NewestOrder, order.arrange rows = xs := by
  have hany : ∀ other, ∃ ys, Descending Invoice.createdAt other ys ∧ (other = rows → ys = xs) := by
    intro other
    by_cases heq : other = rows
    · subst heq
      exact ⟨xs, h, fun _ => rfl⟩
    · obtain ⟨ys, hys⟩ := exists_descending Invoice.createdAt other
      exact ⟨ys, hys, fun hrows => absurd hrows heq⟩
  choose arrange harrange using hany
  exact ⟨⟨arrange, fun other => (harrange other).1⟩, (harrange rows).2 rfl⟩

theorem partitioned_always_iff {answer : (ℕ → NewestOrder) → ℕ → Except String OpportunityPage}
    (h : ∀ orders, CutsPages (answer orders) orders rows size) (hsize : 0 < size)
    (hids : (rows.map Invoice.id).Nodup) :
    (∀ orders, Partitioned (answer orders) (rows.map Invoice.id)) ↔
      NoTieCut Invoice.createdAt rows size := by
  have hcount : rows.length ≤ (rows.length + size - 1) / size * size := by
    have hmod := Nat.div_add_mod' (rows.length + size - 1) size
    have hlt := Nat.mod_lt (rows.length + size - 1) hsize
    omega
  rw [← pages_perm_iff hids.of_map hsize hcount]
  constructor
  · intro hall xss hxss
    choose order horder using fun k => exists_order (hxss k)
    have hpages := (partitioned_iff (h fun page => order (page - 1)) hids).mp
      (hall fun page => order (page - 1))
    simpa only [Nat.add_sub_cancel, horder] using hpages
  · intro hall orders
    exact (partitioned_iff (h orders) hids).mpr
      (hall _ fun k => (orders (k + 1)).descending rows)

theorem getOpportunities_partition_iff (htenant : tenantId ≠ "") (isoString : ℤ → String)
    (limit : Option ℤ) :
    (∀ orders : ℕ → NewestOrder, Partitioned (fun page =>
        getOpportunities isoString (orders page) t (some tenantId) (some page) limit)
      ((investableRows t tenantId).map Invoice.id)) ↔
      NoTieCut Invoice.createdAt (investableRows t tenantId) (cappedSize 10 limit) :=
  partitioned_always_iff (fun orders => getOpportunities_cuts htenant isoString orders limit)
    (cappedSize_pos 10 limit) (investableRows_ids t tenantId)

/-- The pages of the opportunities partition the tenant's investable invoices, in whatever
order each query gives rows of one time, if and only if no two rows of one time stand on
either side of a page boundary; and so for both listings. -/
theorem opportunity_pages_partition_iff (t : InvoicesTable) (htenant : tenantId ≠ "")
    (limit : Option ℤ) :
    (∀ isoString, (∀ orders : ℕ → NewestOrder, Partitioned (fun page =>
        getOpportunities isoString (orders page) t (some tenantId) (some page) limit)
      ((investableRows t tenantId).map Invoice.id)) ↔
      NoTieCut Invoice.createdAt (investableRows t tenantId) (cappedSize 10 limit)) ∧
    ∀ s m, (∀ orders : ℕ → NewestOrder, Partitioned (fun page =>
        listOpportunities s m (orders page) t (some tenantId) (some page) limit)
      ((investableRows t tenantId).map Invoice.id)) ↔
      NoTieCut Invoice.createdAt (investableRows t tenantId) (cappedSize 20 limit) := by
  refine ⟨fun isoString => getOpportunities_partition_iff htenant isoString limit, fun s m => ?_⟩
  exact partitioned_always_iff (fun orders => listOpportunities_cuts htenant s m orders limit)
    (cappedSize_pos 20 limit) (investableRows_ids t tenantId)

end Pages

def sampleOpportunities (time : ℤ) : InvoicesTable where
  rows := [sampleInvoice "a" none, { sampleInvoice "b" none with createdAt := time }]
  distinct := by
    simp [sampleInvoice]
  named := by
    simp [sampleInvoice]

theorem investableRows_sampleOpportunities (time : ℤ) :
    investableRows (sampleOpportunities time) "tenant-1" = (sampleOpportunities time).rows := by
  have hinvest : ∀ r ∈ (sampleOpportunities time).rows, investable "tenant-1" r = true := by
    intro r hr
    rw [investable_iff]
    simp only [sampleOpportunities, List.mem_cons, List.not_mem_nil, or_false] at hr
    rcases hr with rfl | rfl
    · exact ⟨rfl, rfl, List.mem_cons_self ..⟩
    · exact ⟨rfl, rfl, List.mem_cons_self ..⟩
  exact List.filter_eq_self.mpr hinvest

/- Rows of one time stay as they are. -/
def stableOrder : NewestOrder where
  arrange := fun rows => rows.insertionSort fun r x => x.createdAt ≤ r.createdAt
  descending := by
    intro rows
    have htotal : Std.Total fun r x : Invoice => x.createdAt ≤ r.createdAt :=
      ⟨fun r x => le_total x.createdAt r.createdAt⟩
    have htrans : IsTrans Invoice fun r x => x.createdAt ≤ r.createdAt :=
      ⟨fun _ _ _ hrx hxy => le_trans hxy hrx⟩
    exact ⟨List.perm_insertionSort _ _, List.pairwise_insertionSort _ _⟩

/- Two invoices of different times, one to a page. -/
theorem opportunity_pages_partition_sample :
    Partitioned (fun page => getOpportunities (fun _ => "") stableOrder (sampleOpportunities 1)
      (some "tenant-1") (some page) (some 1)) ["a", "b"] := by
  have hpages := (opportunity_pages_partition_iff (sampleOpportunities 1)
    (show "tenant-1" ≠ "" by decide) (some 1)).1 fun _ => ""
  rw [investableRows_sampleOpportunities] at hpages
  refine hpages.mpr (noTieCut_of_nodup ?_ _ (cappedSize_pos 10 _)) fun _ => stableOrder
  simp [sampleOpportunities, sampleInvoice]

/- Two invoices of one time: the second query may show again what the first showed. -/
theorem opportunity_pages_overlap : ¬ ∀ (t : InvoicesTable) (tenantId : String) (limit : Option ℤ)
    (isoString : ℤ → String) (orders : ℕ → NewestOrder), tenantId ≠ "" →
    Partitioned (fun page =>
        getOpportunities isoString (orders page) t (some tenantId) (some page) limit)
      ((investableRows t tenantId).map Invoice.id) := by
  intro h
  have htenant : "tenant-1" ≠ "" := by decide
  have hcut := (getOpportunities_partition_iff htenant (fun _ => "") (some 1)).mp
    fun orders => h (sampleOpportunities 0) "tenant-1" (some 1) (fun _ => "") orders htenant
  rw [investableRows_sampleOpportunities] at hcut
  exact hcut 1 0 0 (by decide) (by decide) (by decide) rfl

end Liquifact.Invest
