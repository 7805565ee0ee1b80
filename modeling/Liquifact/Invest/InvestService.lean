import Liquifact.Escrow.EscrowRead
import Liquifact.Lib.KeysetWalk
import Liquifact.Marketplace.MarketplaceService

/-!
# The investment listing (`src/services/investService.js`)

`listInvestments` (149-210) fetches the tenant's investable rows after a cursor, asks with
a second query which of their identifiers the tenant still owns
(`filterTenantOwnedInvoiceIds`, 39-61), reads the escrow state of these
(`batchReadEscrowStates`, `escrowBatchRead.js:53-115`) and returns them. `has_more` and
`next_cursor` are taken from the page after the filter. A client follows the cursors from
the first page while `has_more` is true; the table may change before, between and after
the queries of each call.

Rows and tables are those of the marketplace listing; identifiers sort as their text does.
-/

namespace Liquifact.Invest
open Liquifact.Lib Liquifact.Escrow Liquifact.Marketplace

/-! ### Opportunities -/

structure Opportunity where
  invoiceId : String
  fundedBpsOfTarget : ℤ
  maturityAt : Option String
  yieldBpsDisplay : ℤ
  onChain : Members

/- `Math.round`; the column has two decimals, so the product with 100 is an integer up to the
rounding of the float product. -/
def mathRound (x : ℚ) : ℤ := ⌊x + 1 / 2⌋

/- `isoString` is `new Date(maturity_date).toISOString()`. NULL is a number to `Number`. -/
def toOpportunityDto (isoString : ℤ → String) (r : Invoice) : Opportunity where
  invoiceId := r.id
  fundedBpsOfTarget := mathRound (r.fundedRatio.getD 0 * 100)
  maturityAt := r.maturityDate.map isoString
  yieldBpsDisplay := r.yieldBps.getD 0
  onChain := [("escrowAddress", .null), ("ledgerIndex", .null)]

/-! ### The batched read -/

structure BatchError where
  invoiceId : String
  error : String
  code : Json

/- What surrounds one call: the dates as text, the number of workers, and what
`readEscrowState` under its timeout gives for an identifier. -/
structure Surroundings where
  isoString : ℤ → String
  concurrency : ℕ
  readEscrowState : String → Except (String × Option Json) Members

def batchError (id : String) (err : String × Option Json) : BatchError where
  invoiceId := id
  error := (truthy (some err.1)).getD "Unknown error"
  code := (jsOr err.2 none).getD (.str "INTERNAL_ERROR")

/- The reads finish in any order; each identifier is read once, and the answers are looked
up by identifier. -/
def batchReadEscrowStates (s : Surroundings) (invoiceIds : List String) :
    List Members × List BatchError :=
  let processed := if min s.concurrency invoiceIds.length = 0 then []
    else invoiceIds.filter (· ≠ "")
  (processed.filterMap fun id => (s.readEscrowState id).toOption,
    processed.filterMap fun id => match s.readEscrowState id with
      | .ok _ => none
      | .error err => some (batchError id err))

def mergeOnChain (read : List Members × List BatchError) (item : Opportunity) : Opportunity :=
  let onChainState := read.1.find? fun (state : Members) =>
    match OrdMap.lookupL "invoiceId" state with
    | some (.str id) => decide (id = item.invoiceId)
    | _ => false
  let errorState := read.2.find? fun e => decide (e.invoiceId = item.invoiceId)
  let syncError := (errorState.map fun e => Json.str e.error).getD .null
  { item with
    onChain := assign item.onChain (onChainState.getD [] ++ [("syncError", syncError)]) }

/-! ### One call -/

def limitSize (limit : Option ℤ) : ℕ :=
  let requested := match limit with
    | none => 10
    | some n => if n = 0 then 10 else n
  (max 1 (min 100 requested)).toNat

/- `id > cursor`, when there is a cursor. -/
def afterCursor (cursor : Option String) (id : String) : Bool :=
  match truthy cursor with
  | none => true
  | some c => decide (utf16 c < utf16 id)

def investable (tenantId : String) (r : Invoice) : Bool := holds (baseQuery tenantId r)

def orderById (rows : List Invoice) : List Invoice :=
  rows.insertionSort fun r x => utf16 r.id ≤ utf16 x.id

/- The rows the first query selects from, in its order. -/
def candidates (t : InvoicesTable) (tenantId : String) (cursor : Option String) : List Invoice :=
  orderById (t.rows.filter fun r => investable tenantId r && afterCursor cursor r.id)

def ownedRows (t : InvoicesTable) (invoiceIds : List String) (tenantId : String) : List Invoice :=
  t.rows.filter fun r =>
    decide (r.id ∈ invoiceIds) && decide (r.tenantId = tenantId) && r.deletedAt.isNone

def filterTenantOwnedInvoiceIds (t : InvoicesTable) (invoiceIds : List String)
    (tenantId : String) : List String :=
  if invoiceIds.length = 0 then []
  else
    let ownedInvoiceIds := (ownedRows t invoiceIds.eraseDups tenantId).map Invoice.id
    invoiceIds.filter fun id => decide (id ∈ ownedInvoiceIds)

structure Listing where
  data : List Opportunity
  limit : ℕ
  nextCursor : Option String
  count : ℕ
  hasMore : Bool

/-- `listInvestments` (`investService.js:149-210`), its two queries answered by the tables
`first` and `second`; `tenantId` is `none` when it is no string. -/
def listInvestments (s : Surroundings) (first second : InvoicesTable) (tenantId : Option String)
    (cursor : Option String) (limit : Option ℤ) : Except String Listing :=
  match truthy tenantId with
  | none => .error "Missing tenant context"
  | some tenantId =>
    let rows := (candidates first tenantId cursor).take (limitSize limit)
    let candidateItems := rows.map (toOpportunityDto s.isoString)
    let invoiceIds := candidateItems.map Opportunity.invoiceId
    let tenantOwnedInvoiceIds := filterTenantOwnedInvoiceIds second invoiceIds tenantId
    let paginatedItems := candidateItems.filter fun item =>
      decide (item.invoiceId ∈ tenantOwnedInvoiceIds)
    let data := paginatedItems.map
      (mergeOnChain (batchReadEscrowStates s tenantOwnedInvoiceIds))
    .ok {
      data := data
      limit := limitSize limit
      nextCursor := data.getLast?.map Opportunity.invoiceId
      count := data.length
      hasMore := decide (data.length = limitSize limit) }

/-! ### The client -/

/- One call of the client with the states the table goes through: since the answer before,
at the first query, between the queries, at the second. -/
structure Visit where
  earlier : List InvoicesTable
  first : InvoicesTable
  between : List InvoicesTable
  second : InvoicesTable
  limit : Option ℤ
  surroundings : Surroundings

def Visit.states (v : Visit) : List InvoicesTable :=
  v.earlier ++ v.first :: (v.between ++ [v.second])

def Visit.answer (v : Visit) (tenantId : String) (cursor : Option String) :
    Except String Listing :=
  listInvestments v.surroundings v.first v.second (some tenantId) cursor v.limit

/- The pages of a traversal that consists of the given calls, to the one that says that no
more follows. -/
def followCursors (tenantId : String) : Option String → List Visit → Option (List Listing)
  | _, [] => none
  | cursor, v :: rest =>
    match v.answer tenantId cursor with
    | .error _ => none
    | .ok page =>
      if page.hasMore then (followCursors tenantId page.nextCursor rest).map (page :: ·)
      else if rest.isEmpty then some [page]
      else none

def InvoicesTable.Investable (t : InvoicesTable) (tenantId id : String) : Prop :=
  ∃ r ∈ t.rows, r.id = id ∧ investable tenantId r = true

def InvestableThroughout (tenantId : String) (visits : List Visit) (id : String) : Prop :=
  ∀ v ∈ visits, ∀ t ∈ v.states, InvoicesTable.Investable t tenantId id

def returnedIds (pages : List Listing) : List String :=
  pages.flatMap fun page => page.data.map Opportunity.invoiceId

/- The cursor of the last call: what the page before offered. -/
def lastCursor : Option String → List Listing → Option String
  | cursor, [] => cursor
  | cursor, [_] => cursor
  | _, page :: next :: rest => lastCursor page.nextCursor (next :: rest)

/- The investable rows between a cursor and an identifier. -/
def rowsBetween (t : InvoicesTable) (tenantId : String) (cursor : Option String) (id : String) : ℕ :=
  t.rows.countP fun r =>
    investable tenantId r && afterCursor cursor r.id && decide (utf16 r.id < utf16 id)

/-! ### The rows of a page -/

theorem limitSize_pos (limit : Option ℤ) : 0 < limitSize limit := by
  unfold limitSize
  dsimp only
  split <;> omega

theorem investable_iff {tenantId : String} {r : Invoice} : investable tenantId r = true ↔
    r.deletedAt = none ∧ r.tenantId = tenantId ∧ r.status ∈ publicInvestableInvoiceStatuses := by
  simp [investable, baseQuery]

theorem mem_filterTenantOwned_iff {t : InvoicesTable} {invoiceIds : List String}
    {tenantId id : String} : id ∈ filterTenantOwnedInvoiceIds t invoiceIds tenantId ↔
      id ∈ invoiceIds ∧ ∃ r ∈ t.rows, r.id = id ∧ r.tenantId = tenantId ∧ r.deletedAt = none := by
  unfold filterTenantOwnedInvoiceIds ownedRows
  split
  · next hnil => simp [List.length_eq_zero_iff.mp hnil]
  · simp only [List.mem_filter, List.mem_map, List.mem_eraseDups, Bool.and_eq_true,
      decide_eq_true_eq, Option.isNone_iff_eq_none]
    constructor
    · rintro ⟨hmem, r, ⟨hr, ⟨-, htenant⟩, hlive⟩, hid⟩
      exact ⟨hmem, r, hr, hid, htenant, hlive⟩
    · rintro ⟨hmem, r, hr, rfl, htenant, hlive⟩
      exact ⟨hmem, r, ⟨hr, ⟨hmem, htenant⟩, hlive⟩, rfl⟩

theorem mem_candidates_iff {t : InvoicesTable} {tenantId : String} {cursor : Option String}
    {r : Invoice} : r ∈ candidates t tenantId cursor ↔
      r ∈ t.rows ∧ investable tenantId r = true ∧ afterCursor cursor r.id = true := by
  rw [candidates, orderById, List.mem_insertionSort, List.mem_filter, Bool.and_eq_true]

theorem candidates_sorted (t : InvoicesTable) (tenantId : String) (cursor : Option String) :
    (candidates t tenantId cursor).Pairwise fun r x => utf16 r.id < utf16 x.id := by
  have htotal : Std.Total fun r x : Invoice => utf16 r.id ≤ utf16 x.id := ⟨fun _ _ => le_total _ _⟩
  have htrans : IsTrans Invoice fun r x => utf16 r.id ≤ utf16 x.id := ⟨fun _ _ _ => le_trans⟩
  have hle := List.pairwise_insertionSort (fun r x : Invoice => utf16 r.id ≤ utf16 x.id)
    (t.rows.filter fun r => investable tenantId r && afterCursor cursor r.id)
  have hids : (candidates t tenantId cursor).Pairwise fun r x => r.id ≠ x.id := by
    rw [← List.pairwise_map (R := (· ≠ ·))]
    refine ((List.perm_insertionSort _ _).map Invoice.id).nodup_iff.mpr ?_
    exact t.distinct.sublist (List.filter_sublist.map _)
  refine (hle.and hids).imp ?_
  rintro r x ⟨hrx, hne⟩
  exact lt_of_le_of_ne hrx fun heq => hne (utf16_injective heq)

/- The identifiers a page shows. -/
def pageIds (v : Visit) (tenantId : String) (cursor : Option String) : List String :=
  let fetchedIds := ((candidates v.first tenantId cursor).take (limitSize v.limit)).map Invoice.id
  fetchedIds.filter fun id => decide (id ∈ filterTenantOwnedInvoiceIds v.second fetchedIds tenantId)

theorem answer_ok {v : Visit} {tenantId : String} {cursor : Option String} {page : Listing}
    (h : v.answer tenantId cursor = .ok page) :
    page.data.map Opportunity.invoiceId = pageIds v tenantId cursor ∧
      page.nextCursor = (pageIds v tenantId cursor).getLast? ∧
      page.hasMore = decide ((pageIds v tenantId cursor).length = limitSize v.limit) := by
  unfold Visit.answer listInvestments at h
  split at h
  · cases h
  · next tenant htenant =>
    have heq : tenant = tenantId := by
      unfold truthy at htenant
      split at htenant
      · cases htenant
      · exact (Option.some.inj htenant).symm
    subst heq
    have hids : page.data.map Opportunity.invoiceId = pageIds v tenant cursor := by
      cases h
      simp only [List.map_map, List.filter_map, pageIds]
      rfl
    refine ⟨hids, ?_, ?_⟩
    · rw [← hids, List.getLast?_map]
      cases h
      rfl
    · rw [← hids, List.length_map]
      cases h
      rfl

/-! ### The traversal as a walk -/

def position (cursor : Option String) : WithBot (List ℕ) :=
  match truthy cursor with
  | none => ⊥
  | some c => (utf16 c : WithBot (List ℕ))

def cutOf (tenantId : String) (cursor : Option String) (v : Visit) : Cut (List ℕ) where
  after := position cursor
  candidates := (candidates v.first tenantId cursor).map fun r => utf16 r.id
  kept := (pageIds v tenantId cursor).map utf16
  limit := limitSize v.limit

def cutsOf (tenantId : String) : Option String → List Visit → List (Cut (List ℕ))
  | _, [] => []
  | cursor, v :: rest =>
    cutOf tenantId cursor v :: cutsOf tenantId (pageIds v tenantId cursor).getLast? rest

section Walking
variable {tenantId : String} {cursor : Option String}

theorem afterCursor_iff {id : String} :
    afterCursor cursor id = true ↔ position cursor < (utf16 id : WithBot (List ℕ)) := by
  unfold afterCursor position
  split
  · simp
  · simp

theorem pageIds_ne_empty {v : Visit} {id : String} (h : id ∈ pageIds v tenantId cursor) : id ≠ "" := by
  obtain ⟨r, hr, rfl⟩ := List.mem_map.mp (List.mem_filter.mp h).1
  exact v.first.named r (mem_candidates_iff.mp (List.mem_of_mem_take hr)).1

theorem fetched_cutOf (v : Visit) : (cutOf tenantId cursor v).fetched =
    (((candidates v.first tenantId cursor).take (limitSize v.limit)).map Invoice.id).map utf16 := by
  rw [Cut.fetched, cutOf, ← List.map_take, List.map_map]
  rfl

theorem cutOf_sound (v : Visit) : (cutOf tenantId cursor v).Sound where
  sorted := List.pairwise_map.mpr (candidates_sorted v.first tenantId cursor)
  later := by
    intro y hy
    obtain ⟨r, hr, rfl⟩ := List.mem_map.mp hy
    exact afterCursor_iff.mp (mem_candidates_iff.mp hr).2.2
  sublist := by
    rw [fetched_cutOf]
    exact List.filter_sublist.map utf16

theorem cutOf_holds {v : Visit} {id : String} (hfirst : InvoicesTable.Investable v.first tenantId id)
    (hsecond : InvoicesTable.Investable v.second tenantId id) :
    (cutOf tenantId cursor v).Holds (utf16 id) := by
  intro hafter
  obtain ⟨r, hr, rfl, hinvest⟩ := hfirst
  obtain ⟨r', hr', hid, hinvest'⟩ := hsecond
  refine ⟨List.mem_map.mpr ⟨r, mem_candidates_iff.mpr ⟨hr, hinvest, afterCursor_iff.mpr hafter⟩, rfl⟩, ?_⟩
  intro hfetched
  rw [fetched_cutOf] at hfetched
  obtain ⟨id, hmem, heq⟩ := List.mem_map.mp hfetched
  rw [utf16_injective heq] at hmem
  -- investable at the second query, so owned there
  obtain ⟨hlive, htenant, -⟩ := investable_iff.mp hinvest'
  refine List.mem_map.mpr ⟨r.id, List.mem_filter.mpr ⟨hmem, decide_eq_true ?_⟩, rfl⟩
  exact mem_filterTenantOwned_iff.mpr ⟨hmem, r', hr', hid, htenant, hlive⟩

theorem cutsOf_holds {visits : List Visit} {id : String}
    (h : InvestableThroughout tenantId visits id) :
    ∀ c ∈ cutsOf tenantId cursor visits, c.Holds (utf16 id) := by
  induction visits generalizing cursor with
  | nil => simp [cutsOf]
  | cons v rest ih =>
    have hstates := h v (List.mem_cons_self ..)
    intro c hc
    rcases List.mem_cons.mp hc with rfl | hc
    · exact cutOf_holds (hstates v.first (by simp [Visit.states]))
        (hstates v.second (by simp [Visit.states]))
    · exact ih (fun w hw => h w (List.mem_cons_of_mem v hw)) c hc

/- Counting in the sorted list is counting in the table. -/
theorem cutOf_reaches_iff (v : Visit) (id : String) : (cutOf tenantId cursor v).Reaches (utf16 id) ↔
    (afterCursor cursor id = true →
      rowsBetween v.first tenantId cursor id < limitSize v.limit) := by
  have hcount : ∀ p : List ℕ → Bool, (∀ key, p key = true ↔ key < utf16 id) →
      (cutOf tenantId cursor v).candidates.countP p = rowsBetween v.first tenantId cursor id := by
    intro p hp
    rw [cutOf, List.countP_map, candidates, orderById, (List.perm_insertionSort _ _).countP_eq,
      List.countP_filter, rowsBetween]
    refine List.countP_congr fun r _ => ?_
    simp only [Function.comp_apply, Bool.and_eq_true, decide_eq_true_eq, hp]
    tauto
  rw [Cut.Reaches, hcount, afterCursor_iff]
  · rfl
  · intro key
    simp

/- A call either ends the traversal or hands its cursor to the rest. -/
theorem followCursors_cons {v : Visit} {rest : List Visit} {pages : List Listing}
    (h : followCursors tenantId cursor (v :: rest) = some pages) :
    ∃ page, v.answer tenantId cursor = .ok page ∧
      ((page.hasMore = false ∧ rest = [] ∧ pages = [page]) ∨
        (page.hasMore = true ∧ ∃ more,
          followCursors tenantId page.nextCursor rest = some more ∧ pages = page :: more)) := by
  rw [followCursors] at h
  split at h
  · cases h
  · next page hpage =>
    refine ⟨page, hpage, ?_⟩
    split at h
    · next hmore =>
      obtain ⟨more, hrest, rfl⟩ := Option.map_eq_some_iff.mp h
      exact .inr ⟨hmore, more, hrest, rfl⟩
    · next hmore =>
      split at h
      · next hnil =>
        cases h
        exact .inl ⟨by simpa using hmore, by simpa using hnil, rfl⟩
      · cases h

theorem followCursors_ne_nil {visits : List Visit} {pages : List Listing}
    (h : followCursors tenantId cursor visits = some pages) : pages ≠ [] := by
  cases visits with
  | nil => cases h
  | cons v rest =>
    obtain ⟨page, -, ⟨-, -, rfl⟩ | ⟨-, more, -, rfl⟩⟩ := followCursors_cons h
    · exact List.cons_ne_nil _ _
    · exact List.cons_ne_nil _ _

theorem followCursors_walk {visits : List Visit} {pages : List Listing}
    (h : followCursors tenantId cursor visits = some pages) :
    Walk (position cursor) (cutsOf tenantId cursor visits) ∧
      (returnedIds pages).map utf16 = (cutsOf tenantId cursor visits).flatMap Cut.kept := by
  induction visits generalizing cursor pages with
  | nil => cases h
  | cons v rest ih =>
    obtain ⟨page, hpage, hend⟩ := followCursors_cons h
    obtain ⟨hids, hnext, hmore⟩ := answer_ok hpage
    have hkept : (cutOf tenantId cursor v).kept.length = (pageIds v tenantId cursor).length :=
      List.length_map _
    obtain ⟨hshort, rfl, rfl⟩ | ⟨hfull, more, hrest, rfl⟩ := hend
    · rw [hmore, decide_eq_false_iff_not, ← hkept] at hshort
      refine ⟨⟨rfl, cutOf_sound v, .inl ⟨rfl, hshort⟩⟩, ?_⟩
      simp only [returnedIds, cutsOf, List.flatMap_cons, List.flatMap_nil, List.append_nil, hids]
      rfl
    · rw [hmore, decide_eq_true_eq] at hfull
      obtain ⟨id, hlast⟩ : ∃ id, (pageIds v tenantId cursor).getLast? = some id := by
        refine ⟨_, List.getLast?_eq_some_getLast (List.ne_nil_of_length_pos ?_)⟩
        rw [hfull]
        exact limitSize_pos v.limit
      have hposition : position (pageIds v tenantId cursor).getLast? =
          (utf16 id : WithBot (List ℕ)) := by
        have hne : id ≠ "" := pageIds_ne_empty (List.mem_of_getLast? hlast)
        rw [hlast, position]
        split
        · next hfalsy => exact absurd hfalsy (by unfold truthy; split <;> simp_all)
        · next c hc =>
          unfold truthy at hc
          split at hc <;> simp_all
      rw [hnext] at hrest
      obtain ⟨hwalk, hflat⟩ := ih hrest
      rw [hposition] at hwalk
      refine ⟨⟨rfl, cutOf_sound v, .inr ⟨by rw [hkept, hfull]; rfl, utf16 id, ?_, hwalk⟩⟩, ?_⟩
      · simp only [cutOf, List.getLast?_map, hlast, Option.map_some]
      · simp only [returnedIds, cutsOf, List.flatMap_cons, List.map_append] at hflat ⊢
        rw [hflat, hids]
        rfl

theorem cutsOf_last {visits : List Visit} {last : Visit} {pages : List Listing}
    (h : followCursors tenantId cursor (visits ++ [last]) = some pages) :
    ∃ front, cutsOf tenantId cursor (visits ++ [last]) =
        front ++ [cutOf tenantId (lastCursor cursor pages) last] := by
  induction visits generalizing cursor pages with
  | nil =>
    obtain ⟨page, -, ⟨-, -, rfl⟩ | ⟨-, more, hrest, -⟩⟩ := followCursors_cons h
    · exact ⟨[], rfl⟩
    · cases hrest
  | cons v visits ih =>
    obtain ⟨page, hpage, ⟨-, hnil, -⟩ | ⟨-, more, hrest, rfl⟩⟩ := followCursors_cons h
    · simp at hnil
    · obtain ⟨front, hfront⟩ := ih hrest
      refine ⟨cutOf tenantId cursor v :: front, ?_⟩
      have hmore : lastCursor cursor (page :: more) = lastCursor page.nextCursor more := by
        cases more with
        | nil => exact absurd rfl (followCursors_ne_nil hrest)
        | cons next rest => rfl
      rw [List.cons_append, cutsOf, ← (answer_ok hpage).2.1, hfront, hmore]
      rfl

end Walking

/-! ### Which traversals miss nothing -/

def ReturnedOnce (pages : List Listing) (id : String) : Prop := (returnedIds pages).count id = 1

theorem count_map_utf16 (ids : List String) (id : String) :
    (ids.map utf16).count (utf16 id) = ids.count id :=
  List.count_map_of_injective ids utf16 (fun _ _ => utf16_injective) id

theorem returnedOnce_iff {tenantId : String} {visits : List Visit} {last : Visit}
    {pages : List Listing} (h : followCursors tenantId none (visits ++ [last]) = some pages)
    {id : String} (hid : InvestableThroughout tenantId (visits ++ [last]) id) :
    ReturnedOnce pages id ↔ (afterCursor (lastCursor none pages) id = true →
      rowsBetween last.first tenantId (lastCursor none pages) id < limitSize last.limit) := by
  obtain ⟨hwalk, hflat⟩ := followCursors_walk h
  obtain ⟨front, hfront⟩ := cutsOf_last h
  have hholds : ∀ c ∈ cutsOf tenantId none (visits ++ [last]), c.Holds (utf16 id) :=
    cutsOf_holds hid
  rw [hfront] at hwalk hflat hholds
  rw [ReturnedOnce, ← count_map_utf16, hflat, ← cutOf_reaches_iff]
  convert hwalk.count_eq_one_iff hholds (WithBot.bot_lt_coe _)

/-- A traversal returns every invoice that is investable throughout exactly once if and
only if none of these lies a page or more behind the cursor of its last call: fewer rows
than the limit are investable between the two at that call's first query. Otherwise a row
of a full page was withdrawn between the queries, and the short page ended the traversal. -/
theorem investments_returned_once_iff (tenantId : String) (visits : List Visit) (last : Visit)
    (pages : List Listing) (h : followCursors tenantId none (visits ++ [last]) = some pages) :
    (∀ id, InvestableThroughout tenantId (visits ++ [last]) id → ReturnedOnce pages id) ↔
      ∀ id, InvestableThroughout tenantId (visits ++ [last]) id →
        afterCursor (lastCursor none pages) id = true →
          rowsBetween last.first tenantId (lastCursor none pages) id < limitSize last.limit := by
  constructor
  · intro honce id hid
    exact (returnedOnce_iff h hid).mp (honce id hid)
  · intro hreach id hid
    exact (returnedOnce_iff h hid).mpr (hreach id hid)

/- A last call whose rows are all confirmed by the second query misses nothing: the page is
short because the table has no more rows. -/
theorem rowsBetween_lt_of_confirmed {v : Visit} {tenantId : String} {cursor : Option String}
    (hconfirmed : ∀ r ∈ candidates v.first tenantId cursor,
      ∃ r' ∈ v.second.rows, r'.id = r.id ∧ r'.tenantId = tenantId ∧ r'.deletedAt = none)
    (hlast : (pageIds v tenantId cursor).length ≠ limitSize v.limit) (id : String) :
    rowsBetween v.first tenantId cursor id < limitSize v.limit := by
  have hall : pageIds v tenantId cursor =
      ((candidates v.first tenantId cursor).take (limitSize v.limit)).map Invoice.id := by
    refine List.filter_eq_self.mpr fun x hx => decide_eq_true ?_
    obtain ⟨r, hr, rfl⟩ := List.mem_map.mp hx
    exact mem_filterTenantOwned_iff.mpr ⟨hx, hconfirmed r (List.mem_of_mem_take hr)⟩
  have hshort : (candidates v.first tenantId cursor).length < limitSize v.limit := by
    rw [hall, List.length_map, List.length_take] at hlast
    omega
  calc rowsBetween v.first tenantId cursor id
      ≤ v.first.rows.countP (fun r => investable tenantId r && afterCursor cursor r.id) := by
        refine List.countP_mono_left fun r _ h => ?_
        rw [Bool.and_eq_true] at h
        exact h.1
    _ = (candidates v.first tenantId cursor).length := by
        rw [candidates, orderById, List.length_insertionSort, List.countP_eq_length_filter]
    _ < limitSize v.limit := hshort

def sampleInvoice (id : String) (deletedAt : Option ℤ) : Invoice where
  id := id
  tenantId := "tenant-1"
  status := "verified"
  deletedAt := deletedAt
  amount := 100
  createdAt := 0
  yieldBps := some 500
  fundedRatio := none
  maturityDate := none

def sampleTable (deletedAt : Option ℤ) : InvoicesTable where
  rows := [sampleInvoice "c" none, sampleInvoice "b" deletedAt, sampleInvoice "a" none]
  distinct := by
    simp only [sampleInvoice, List.map_cons, List.map_nil]
    decide
  named := by
    simp [sampleInvoice]

def sampleVisit (first second : InvoicesTable) : Visit where
  earlier := []
  first := first
  between := []
  second := second
  limit := some 2
  surroundings := ⟨fun _ => "1970-01-01T00:00:00.000Z", 5, fun _ => .error ("unreachable", none)⟩

/- The invoice of the middle is deleted after the first page: two pages, of two and of one. -/
theorem investments_returned_once_sample : ∃ pages,
    followCursors "tenant-1" none [sampleVisit (sampleTable none) (sampleTable none),
      sampleVisit (sampleTable (some 9)) (sampleTable (some 9))] = some pages ∧
    ∀ id, InvestableThroughout "tenant-1" [sampleVisit (sampleTable none) (sampleTable none),
      sampleVisit (sampleTable (some 9)) (sampleTable (some 9))] id → ReturnedOnce pages id := by
  refine ⟨_, rfl, ?_⟩
  refine (investments_returned_once_iff "tenant-1" [sampleVisit (sampleTable none) (sampleTable none)]
    (sampleVisit (sampleTable (some 9)) (sampleTable (some 9))) _ rfl).mpr ?_
  intro id _ _
  refine rowsBetween_lt_of_confirmed ?_ (by decide) id
  decide

/- The invoice of the middle is deleted between the two queries of the first call: the page
has one row of two, says that nothing follows, and the third invoice is never shown. -/
theorem invoice_missed : ¬ ∀ (tenantId : String) (visits : List Visit) (pages : List Listing),
    followCursors tenantId none visits = some pages →
      ∀ id, InvestableThroughout tenantId visits id → ReturnedOnce pages id := by
  intro h
  have hthroughout : InvestableThroughout "tenant-1"
      [sampleVisit (sampleTable none) (sampleTable (some 9))] "c" := by
    intro v hv t ht
    rw [List.mem_singleton.mp hv] at ht
    have hrow : sampleInvoice "c" none ∈ t.rows := by
      simp only [Visit.states, sampleVisit, List.nil_append, List.mem_cons, List.not_mem_nil,
        or_false] at ht
      rcases ht with rfl | rfl <;> exact List.mem_cons_self ..
    exact ⟨_, hrow, rfl, by decide⟩
  have honce := h "tenant-1" [sampleVisit (sampleTable none) (sampleTable (some 9))] _ rfl "c" hthroughout
  unfold ReturnedOnce at honce
  exact absurd honce (by decide)

end Liquifact.Invest
