import Liquifact.Lib.SqlLogic
import Liquifact.Marketplace.CursorPagination
import Mathlib.Data.List.Sort
import Mathlib.Data.Prod.Lex

/-!
# The marketplace listing (`src/services/marketplaceService.js`)

`getMarketplaceInvoices` (121-235) selects the tenant's investable rows under the filters
of `_applyFilters` (89-98), orders them by the sort column and then by identifier, and
returns one page: by offset, or after the row a cursor names. Column values are numbers
here: basis points, percentages, days and microseconds. NULL sorts after every value
ascending and before every value descending; identifiers are `UUID`s and sort as their
lower-case text does.
-/

namespace Liquifact.Marketplace
open Liquifact.Lib

inductive SortField where
  | yieldBps
  | maturityDate
  | fundedRatio
  | amount
  | createdAt
  deriving DecidableEq

def SortField.name : SortField → String
  | .yieldBps => "yield_bps"
  | .maturityDate => "maturity_date"
  | .fundedRatio => "funded_ratio"
  | .amount => "amount"
  | .createdAt => "created_at"

def SortField.all : List SortField := [.yieldBps, .maturityDate, .fundedRatio, .amount, .createdAt]

/- The columns of `invoices` the listing reads; `yield_bps`, `funded_ratio` and
`maturity_date` may be NULL. -/
structure Invoice where
  id : String
  tenantId : String
  status : String
  deletedAt : Option ℤ
  amount : ℚ
  createdAt : ℤ
  yieldBps : Option ℤ
  fundedRatio : Option ℚ
  maturityDate : Option ℤ
  deriving DecidableEq

def Invoice.column (r : Invoice) : SortField → Option ℚ
  | .yieldBps => r.yieldBps.map Int.cast
  | .maturityDate => r.maturityDate.map Int.cast
  | .fundedRatio => r.fundedRatio
  | .amount => some r.amount
  | .createdAt => some r.createdAt

structure InvoicesTable where
  rows : List Invoice
  distinct : (rows.map Invoice.id).Nodup
  named : ∀ r ∈ rows, r.id ≠ ""

/- The database driver: the value it returns for a column value, as JSON text shows it, and
the column value that the database compares with when given such a value. -/
structure Driver where
  json : SortField → ℚ → Json
  cast : SortField → Json → Option ℚ

structure Filters where
  yieldBpsMin : Option ℚ
  yieldBpsMax : Option ℚ
  maturityDateFrom : Option ℚ
  maturityDateTo : Option ℚ
  fundedRatioMin : Option ℚ
  fundedRatioMax : Option ℚ
  status : Option String

/- `page` and `limit` are the results of `parseInt`, `none` for `NaN`. -/
structure MarketplaceQuery where
  filters : Filters
  sortBy : Option String
  order : Option String
  cursor : Option String
  page : Option ℤ
  limit : Option ℤ

structure Page where
  data : List Invoice
  total : ℕ
  limit : ℕ
  hasMore : Bool
  nextCursor : Option String
  page : Option ℕ
  totalPages : Option ℕ

def publicInvestableInvoiceStatuses : List String := ["verified", "partially_funded"]

/-! ### The query -/

def bound (op : ℚ → ℚ → Bool) (column : Option ℚ) : Option ℚ → Option Bool
  | none => some true
  | some limit => sqlCompare op column (some limit)

def atLeast (a b : ℚ) : Bool := decide (b ≤ a)

def atMost (a b : ℚ) : Bool := decide (a ≤ b)

def applyFilters (f : Filters) (r : Invoice) : Option Bool :=
  sqlAnd (bound atLeast (r.column .yieldBps) f.yieldBpsMin) <|
  sqlAnd (bound atMost (r.column .yieldBps) f.yieldBpsMax) <|
  sqlAnd (bound atLeast (r.column .maturityDate) f.maturityDateFrom) <|
  sqlAnd (bound atMost (r.column .maturityDate) f.maturityDateTo) <|
  sqlAnd (bound atLeast (r.column .fundedRatio) f.fundedRatioMin) <|
  sqlAnd (bound atMost (r.column .fundedRatio) f.fundedRatioMax) <|
  match truthy f.status with
  | none => some true
  | some s => some (decide (r.status = s))

def baseQuery (tenantId : String) (r : Invoice) : Option Bool :=
  sqlAnd (some r.deletedAt.isNone) <|
  sqlAnd (some (decide (r.tenantId = tenantId)))
    (some (decide (r.status ∈ publicInvestableInvoiceStatuses)))

def InvoicesTable.matching (t : InvoicesTable) (tenantId : String) (f : Filters) : List Invoice :=
  t.rows.filter fun r => holds (sqlAnd (baseQuery tenantId r) (applyFilters f r))

def sortKey (field : SortField) (r : Invoice) : WithTop ℚ ×ₗ List ℕ :=
  toLex (match r.column field with | none => ⊤ | some v => (v : WithTop ℚ), utf16 r.id)

/- `ORDER BY field, id` in the direction given; the descending order is the reverse. -/
def Follows (asc : Bool) (field : SortField) (r x : Invoice) : Prop :=
  if asc then sortKey field r < sortKey field x else sortKey field x < sortKey field r

def notAfter (asc : Bool) (field : SortField) (r x : Invoice) : Prop :=
  if asc then sortKey field r ≤ sortKey field x else sortKey field x ≤ sortKey field r

instance decidableNotAfter (asc : Bool) (field : SortField) : DecidableRel (notAfter asc field) :=
  fun r x => inferInstanceAs (Decidable
    (if asc then sortKey field r ≤ sortKey field x else sortKey field x ≤ sortKey field r))

def orderBy (asc : Bool) (field : SortField) (rows : List Invoice) : List Invoice :=
  rows.insertionSort (notAfter asc field)

/- The operator of the keyset predicate: `>` ascending, `<` descending. -/
def gtOp {α : Type} [LinearOrder α] (asc : Bool) (a b : α) : Bool :=
  if asc then decide (b < a) else decide (a < b)

/- `field > value OR (field = value AND id > lastId)`; equality with null is `IS NULL`. -/
def keysetPredicate (asc : Bool) (field : SortField) (value : Option ℚ) (lastId : String)
    (r : Invoice) : Option Bool :=
  sqlOr (sqlCompare (gtOp asc) (r.column field) value) <|
  sqlAnd
    (match value with
      | none => some (r.column field).isNone
      | some _ => sqlCompare (fun a b => decide (a = b)) (r.column field) value)
    (some (gtOp asc (utf16 r.id) (utf16 lastId)))

/-! ### One page -/

def pageSize (q : MarketplaceQuery) : ℕ :=
  let requested := match q.limit with
    | none => 10
    | some n => if n = 0 then 10 else n
  (max 1 (min 100 requested)).toNat

def pageNumber (q : MarketplaceQuery) : ℕ :=
  let requested := match q.page with
    | none => 1
    | some n => if n = 0 then 1 else n
  (max 1 requested).toNat

def sortFieldOf (q : MarketplaceQuery) : SortField :=
  match q.sortBy with
  | none => .createdAt
  | some s => (SortField.all.find? fun f => f.name = s).getD .createdAt

def ascending (q : MarketplaceQuery) : Bool := decide (q.order = some "asc")

def Driver.columnJson (driver : Driver) (field : SortField) (r : Invoice) : Json :=
  match r.column field with
  | none => .null
  | some v => driver.json field v

section Service
variable (hmacSha256 : String → String → List UInt8) (env : CursorEnv) (driver : Driver)

/- The value a cursor's sort value stands for in the comparison with the column. -/
def cursorValue (field : SortField) : Option Json → Except Failure (Option ℚ)
  | none => .error (.error "Undefined binding(s) detected when compiling SELECT.")
  | some .null => .ok none
  | some v =>
    match driver.cast field v with
    | none => .error (.error "invalid input syntax")
    | some q => .ok (some q)

/- From the `limit + 1` rows fetched: the rows shown, whether more follow, and the cursor. -/
def cutPage (now : ℤ) (field : SortField) (limit : ℕ) (rows : List Invoice) :
    Except Failure (List Invoice × Bool × Option String) :=
  let hasMore := decide (limit < rows.length)
  let data := if hasMore then rows.take limit else rows
  match hasMore, data.getLast? with
  | true, some lastRow =>
    match encodeCursor hmacSha256 env now field.name (driver.columnJson field lastRow) lastRow.id with
    | .error e => .error e
    | .ok c => .ok (data, hasMore, some c)
  | _, _ => .ok (data, hasMore, none)

/-- `getMarketplaceInvoices` (`marketplaceService.js:121-235`) at the time `now`; `tenantId`
is `none` when it is no string. -/
def getMarketplaceInvoices (now : ℤ) (t : InvoicesTable) (tenantId : Option String)
    (q : MarketplaceQuery) : Except Failure Page :=
  match truthy tenantId with
  | none => .error (.error "Missing tenant context")
  | some tenantId => do
    let limit := pageSize q
    let field := sortFieldOf q
    let asc := ascending q
    let matching := t.matching tenantId q.filters
    let total := matching.length
    match truthy q.cursor with
    | some cursor => do
      let decoded ← decodeCursor hmacSha256 env now cursor (some field.name)
      let value ← cursorValue driver field decoded.sortValue
      let rows := orderBy asc field
        (matching.filter fun r => holds (keysetPredicate asc field value decoded.id r))
      let (data, hasMore, nextCursor) ← cutPage hmacSha256 env driver now field limit
        (rows.take (limit + 1))
      .ok ⟨data, total, limit, hasMore, nextCursor, none, none⟩
    | none => do
      let page := pageNumber q
      let rows := (orderBy asc field matching).drop ((page - 1) * limit)
      let (data, hasMore, nextCursor) ← cutPage hmacSha256 env driver now field limit
        (rows.take (limit + 1))
      .ok ⟨data, total, limit, hasMore, nextCursor, some page, some ((total + limit - 1) / limit)⟩

end Service

end Liquifact.Marketplace
