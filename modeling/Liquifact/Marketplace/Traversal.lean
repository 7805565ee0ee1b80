import Liquifact.Lib.Keyset
import Liquifact.Marketplace.MarketplaceService

/-!
# Following the cursors of the marketplace listing

A client takes page 1 and then presents each cursor it is given. Its pages are the pages
of `follow` over the sorted matching rows, with the keyset predicate as the code evaluates
it at the value the cursor carries.
-/

namespace Liquifact.Marketplace
open Liquifact.Lib

/-! ### The order of the rows -/

section Order
variable {asc : Bool} {field : SortField}

theorem notAfter_total (r x : Invoice) : notAfter asc field r x ∨ notAfter asc field x r := by
  cases asc <;> exact le_total _ _

theorem notAfter_trans {r x y : Invoice} (h : notAfter asc field r x) (h' : notAfter asc field x y) :
    notAfter asc field r y := by
  cases asc
  · exact le_trans (a := sortKey field y) h' h
  · exact le_trans (a := sortKey field r) h h'

theorem id_eq_of_notAfter {r x : Invoice} (h : notAfter asc field r x) (h' : notAfter asc field x r) :
    r.id = x.id := by
  have hkey : sortKey field r = sortKey field x := by
    cases asc
    · exact le_antisymm h' h
    · exact le_antisymm h h'
  exact utf16_injective (Prod.mk.inj hkey).2

theorem orderBy_perm (rows : List Invoice) : (orderBy asc field rows).Perm rows :=
  List.perm_insertionSort _ rows

theorem orderBy_pairwise (rows : List Invoice) :
    (orderBy asc field rows).Pairwise (notAfter asc field) := by
  have htotal : Std.Total (notAfter asc field) := ⟨notAfter_total⟩
  have htrans : IsTrans Invoice (notAfter asc field) := ⟨fun _ _ _ => notAfter_trans⟩
  exact List.pairwise_insertionSort _ rows

theorem eq_of_id_eq {rows : List Invoice} (h : (rows.map Invoice.id).Nodup) {r x : Invoice}
    (hr : r ∈ rows) (hx : x ∈ rows) (hid : r.id = x.id) : r = x :=
  List.inj_on_of_nodup_map h hr hx hid

/- With distinct identifiers the order is strict, so a sorted list is determined. -/
theorem orderBy_filter {rows : List Invoice} (h : (rows.map Invoice.id).Nodup)
    (p : Invoice → Bool) : orderBy asc field (rows.filter p) = (orderBy asc field rows).filter p := by
  have hperm : (orderBy asc field (rows.filter p)).Perm ((orderBy asc field rows).filter p) :=
    (orderBy_perm _).trans ((orderBy_perm rows).symm.filter p)
  refine hperm.eq_of_pairwise ?_ (orderBy_pairwise _) ((orderBy_pairwise rows).filter p)
  intro r x hr hx hrx hxr
  have hr' : r ∈ rows := (List.mem_filter.mp ((orderBy_perm _).subset hr)).1
  have hx' : x ∈ rows := (orderBy_perm rows).subset (List.mem_filter.mp hx).1
  exact eq_of_id_eq h hr' hx' (id_eq_of_notAfter hrx hxr)

theorem follows_of_notAfter {r x : Invoice} (h : notAfter asc field r x) (hne : r.id ≠ x.id) :
    Follows asc field r x := by
  have hkey : sortKey field r ≠ sortKey field x :=
    fun heq => hne (utf16_injective (Prod.mk.inj heq).2)
  cases asc
  · exact lt_of_le_of_ne h hkey.symm
  · exact lt_of_le_of_ne h hkey

theorem orderBy_follows {rows : List Invoice} (h : (rows.map Invoice.id).Nodup) :
    (orderBy asc field rows).Pairwise (Follows asc field) := by
  have hids : (orderBy asc field rows).Pairwise fun r x => r.id ≠ x.id := by
    rw [← List.pairwise_map (R := (· ≠ ·))]
    exact ((orderBy_perm rows).map Invoice.id).nodup_iff.mpr h
  refine ((orderBy_pairwise rows).and hids).imp ?_
  rintro r x ⟨hle, hne⟩
  exact follows_of_notAfter hle hne

end Order

/-! ### The client -/

/- A client with the times of its requests. The service has a secret, and each cursor is
presented before it expires, as it always is when the expiry check is off. -/
structure Client (env : CursorEnv) where
  clock : ℕ → ℤ
  secret : String
  configured : resolveCursorSecret env = .ok secret
  safe : ∀ i, (seconds (clock i)).natAbs < 2 ^ 53
  fresh : ∀ i, expired env (clock (i + 1)) (.fin (seconds (clock i))) = false

/- A walk through a listing: `get i cursor` is the answer to the request number `i`. -/
def traverse (get : ℕ → Option String → Except Failure Page) :
    ℕ → ℕ → Option String → Option (List Page)
  | 0, _, _ => none
  | fuel + 1, i, cursor =>
    match get i cursor with
    | .error _ => none
    | .ok page =>
      match page.nextCursor with
      | none => some [page]
      | some c => (traverse get fuel (i + 1) (some c)).map (page :: ·)

/- The driver returns the column's values in a form that JSON carries, and the database
reads them back as `carry` of the value. -/
def Driver.Carries (driver : Driver) (field : SortField) (carry : ℚ → ℚ) (t : InvoicesTable) : Prop :=
  ∀ r ∈ t.rows, ∀ v, r.column field = some v → (driver.json field v).Plain ∧
    driver.json field v ≠ .null ∧ driver.cast field (driver.json field v) = some (carry v)

def seek (asc : Bool) (field : SortField) (carry : ℚ → ℚ) (r x : Invoice) : Bool :=
  holds (keysetPredicate asc field ((r.column field).map carry) r.id x)

section Walk
variable (hmacSha256 : String → String → List UInt8) {env : CursorEnv} (driver : Driver)
  (client : Client env) (t : InvoicesTable) (tenantId : String) (q : MarketplaceQuery)

def request (i : ℕ) (cursor : Option String) : Except Failure Page :=
  getMarketplaceInvoices hmacSha256 env driver (client.clock i) t (some tenantId)
    { q with cursor := cursor, page := some 1 }

def offsetRequest (i k : ℕ) : Except Failure Page :=
  getMarketplaceInvoices hmacSha256 env driver (client.clock i) t (some tenantId)
    { q with cursor := none, page := some (k + 1 : ℕ) }

def walk (fuel : ℕ) : Option (List Page) :=
  traverse (request hmacSha256 driver client t tenantId q) fuel 0 none

def sortedRows : List Invoice :=
  orderBy (ascending q) (sortFieldOf q) (t.matching tenantId q.filters)

/- Every matching row is seen exactly once: the walk ends and its pages hold the rows. -/
def YieldsOnce : Prop :=
  ∃ fuel pages, walk hmacSha256 driver client t tenantId q fuel = some pages ∧
    (pages.flatMap Page.data).Perm (t.matching tenantId q.filters)

/- What request `i` returns when the rows from which it takes its page are `cand`. -/
structure Answers (i : ℕ) (cand : List Invoice) (page : Page) : Prop where
  data : page.data = cand.take (pageSize q)
  more : page.hasMore = decide (pageSize q < cand.length)
  last : cand.length ≤ pageSize q → page.nextCursor = none
  next : pageSize q < cand.length → ∃ r c, (cand.take (pageSize q)).getLast? = some r ∧
    page.nextCursor = some c ∧ c ≠ "" ∧ encodeCursor hmacSha256 env (client.clock i)
      (sortFieldOf q).name (driver.columnJson (sortFieldOf q) r) r.id = .ok c

variable {driver t tenantId}

theorem name_mem_allowed (field : SortField) : field.name ∈ allowedSortFields := by
  cases field <;> decide

theorem pageSize_pos : 0 < pageSize q := by
  unfold pageSize
  dsimp only
  split <;> omega

/- A page offers a cursor exactly when it says that rows follow. -/
theorem cutPage_next {now : ℤ} {field : SortField} {limit : ℕ} {rows data : List Invoice}
    {more : Bool} {next : Option String} (hlimit : 0 < limit)
    (h : cutPage hmacSha256 env driver now field limit rows = .ok (data, more, next)) :
    more = next.isSome := by
  unfold cutPage at h
  by_cases hmore : limit < rows.length
  · obtain ⟨r, hlast⟩ : ∃ r, (rows.take limit).getLast? = some r := by
      refine ⟨_, List.getLast?_eq_some_getLast ?_⟩
      intro hnil
      have hzero := congrArg List.length hnil
      rw [List.length_take, List.length_nil] at hzero
      omega
    simp only [hmore, decide_true, if_true, hlast] at h
    split at h
    · cases h
    · cases h
      rfl
  · simp only [hmore, decide_false, Bool.false_eq_true, if_false] at h
    cases h
    rfl

theorem getMarketplaceInvoices_next {now : ℤ} {tenant : Option String} {page : Page}
    (h : getMarketplaceInvoices hmacSha256 env driver now t tenant q = .ok page) :
    page.hasMore = page.nextCursor.isSome := by
  unfold getMarketplaceInvoices at h
  split at h
  · cases h
  · dsimp only at h
    split at h
    · obtain ⟨_, -, h⟩ := bind_ok h
      obtain ⟨_, -, h⟩ := bind_ok h
      obtain ⟨⟨data, more, next⟩, hcut, h⟩ := bind_ok h
      cases h
      exact cutPage_next hmacSha256 (pageSize_pos q) hcut
    · obtain ⟨⟨data, more, next⟩, hcut, h⟩ := bind_ok h
      cases h
      exact cutPage_next hmacSha256 (pageSize_pos q) hcut

theorem traverse_last {get : ℕ → Option String → Except Failure Page}
    (hget : ∀ i cursor page, get i cursor = .ok page → page.hasMore = page.nextCursor.isSome)
    {fuel i : ℕ} {cursor : Option String} {pages : List Page}
    (h : traverse get fuel i cursor = some pages) :
    ∃ last, pages.getLast? = some last ∧ last.hasMore = false := by
  induction fuel generalizing i cursor pages with
  | zero => cases h
  | succ fuel ih =>
    rw [traverse] at h
    split at h
    · cases h
    · rename_i page hpage
      split at h
      · rename_i hnext
        cases h
        exact ⟨page, rfl, by rw [hget i cursor page hpage, hnext]; rfl⟩
      · obtain ⟨rest, hrest, rfl⟩ := Option.map_eq_some_iff.mp h
        obtain ⟨last, hlast, hmore⟩ := ih hrest
        exact ⟨last, by rw [List.getLast?_cons, hlast]; rfl, hmore⟩

theorem columnJson_plain {field : SortField} {carry : ℚ → ℚ} (h : driver.Carries field carry t)
    {r : Invoice} (hr : r ∈ t.rows) : (driver.columnJson field r).Plain := by
  unfold Driver.columnJson
  cases hv : r.column field with
  | none => trivial
  | some v => exact (h r hr v hv).1

theorem cursorValue_columnJson {field : SortField} {carry : ℚ → ℚ} (h : driver.Carries field carry t)
    {r : Invoice} (hr : r ∈ t.rows) :
    cursorValue driver field (some (driver.columnJson field r)) = .ok ((r.column field).map carry) := by
  unfold Driver.columnJson
  cases hv : r.column field with
  | none => rfl
  | some v =>
    obtain ⟨-, hnull, hcast⟩ := h r hr v hv
    rw [cursorValue.eq_def]
    split
    · simp_all
    · simp_all
    · simp_all

theorem cutPage_answers {carry : ℚ → ℚ} (h : driver.Carries (sortFieldOf q) carry t) (i : ℕ)
    {cand : List Invoice} (hcand : ∀ r ∈ cand, r ∈ t.rows) :
    ∃ data more next, cutPage hmacSha256 env driver (client.clock i) (sortFieldOf q) (pageSize q)
        (cand.take (pageSize q + 1)) = .ok (data, more, next) ∧
      ∀ total limit page totalPages, Answers hmacSha256 driver client q i cand
        ⟨data, total, limit, more, next, page, totalPages⟩ := by
  have hpos := pageSize_pos q
  by_cases hmore : pageSize q < cand.length
  · have htake : (cand.take (pageSize q + 1)).take (pageSize q) = cand.take (pageSize q) := by
      rw [List.take_take, Nat.min_eq_left (by omega)]
    have hlen : pageSize q < (cand.take (pageSize q + 1)).length := by
      rw [List.length_take]
      omega
    obtain ⟨r, hlast⟩ : ∃ r, (cand.take (pageSize q)).getLast? = some r := by
      refine ⟨_, List.getLast?_eq_some_getLast ?_⟩
      intro hnil
      have hzero := congrArg List.length hnil
      rw [List.length_take, List.length_nil] at hzero
      omega
    have hr : r ∈ t.rows := hcand r (List.mem_of_mem_take (List.mem_of_getLast? hlast))
    obtain ⟨c, hc, -⟩ := decodeCursor_encodeCursor hmacSha256 client.configured
      (name_mem_allowed (sortFieldOf q)) (t.named r hr) (columnJson_plain h hr) (client.safe i)
      (client.fresh i)
    refine ⟨cand.take (pageSize q), true, some c, ?_, ?_⟩
    · simp only [cutPage, hlen, decide_true, if_true, htake, hlast, hc]
    · intro total limit page totalPages
      refine ⟨rfl, by simp [hmore], fun hle => absurd hmore (by omega), fun _ => ?_⟩
      exact ⟨r, c, hlast, rfl, encodeCursor_ne_empty hc, hc⟩
  · have htake : cand.take (pageSize q + 1) = cand := List.take_of_length_le (by omega)
    refine ⟨cand, false, none, ?_, ?_⟩
    · simp [cutPage, htake, hmore]
    · intro total limit page totalPages
      have hall : cand = cand.take (pageSize q) := (List.take_of_length_le (by omega)).symm
      exact ⟨hall, by simp [hmore], fun _ => rfl, fun hlt => absurd hlt hmore⟩

theorem matching_distinct (t : InvoicesTable) (tenantId : String) (f : Filters) :
    ((t.matching tenantId f).map Invoice.id).Nodup :=
  (List.filter_sublist.map Invoice.id).nodup t.distinct

theorem mem_rows_of_sorted {r : Invoice} (h : r ∈ sortedRows t tenantId q) : r ∈ t.rows :=
  (List.mem_filter.mp ((orderBy_perm _).subset h)).1

theorem offsetRequest_answers {carry : ℚ → ℚ} (h : driver.Carries (sortFieldOf q) carry t)
    (htenant : tenantId ≠ "") (i k : ℕ) :
    ∃ page, offsetRequest hmacSha256 driver client t tenantId q i k = .ok page ∧
      Answers hmacSha256 driver client q i ((sortedRows t tenantId q).drop (k * pageSize q)) page := by
  obtain ⟨data, more, next, hcut, hanswers⟩ := cutPage_answers hmacSha256 client q h i
    (fun r (hr : r ∈ (sortedRows t tenantId q).drop (k * pageSize q)) =>
      mem_rows_of_sorted q (List.mem_of_mem_drop hr))
  have hnumber : pageNumber { q with cursor := none, page := some (k + 1 : ℕ) } = k + 1 := by
    simp only [pageNumber]
    rw [if_neg (by omega)]
    omega
  refine ⟨_, ?_, hanswers (t.matching tenantId q.filters).length (pageSize q) (some (k + 1))
    (some (((t.matching tenantId q.filters).length + pageSize q - 1) / pageSize q))⟩
  simp only [offsetRequest, getMarketplaceInvoices, truthy_of_ne htenant, hnumber]
  show (cutPage hmacSha256 env driver (client.clock i) (sortFieldOf q) (pageSize q)
    (((sortedRows t tenantId q).drop (k * pageSize q)).take (pageSize q + 1)) >>= _) = _
  rw [hcut]
  rfl

theorem request_answers {carry : ℚ → ℚ} (h : driver.Carries (sortFieldOf q) carry t)
    (htenant : tenantId ≠ "") {i : ℕ} {r : Invoice} (hr : r ∈ t.rows) {c : String}
    (hc : encodeCursor hmacSha256 env (client.clock i) (sortFieldOf q).name
      (driver.columnJson (sortFieldOf q) r) r.id = .ok c) :
    ∃ page, request hmacSha256 driver client t tenantId q (i + 1) (some c) = .ok page ∧
      Answers hmacSha256 driver client q (i + 1)
        ((sortedRows t tenantId q).filter (seek (ascending q) (sortFieldOf q) carry r)) page := by
  obtain ⟨data, more, next, hcut, hanswers⟩ := cutPage_answers hmacSha256 client q h (i + 1)
    (fun x (hx : x ∈ (sortedRows t tenantId q).filter (seek (ascending q) (sortFieldOf q) carry r)) =>
      mem_rows_of_sorted q (List.mem_filter.mp hx).1)
  obtain ⟨c', hc', hdecode⟩ := decodeCursor_encodeCursor hmacSha256 client.configured
    (name_mem_allowed (sortFieldOf q)) (t.named r hr) (columnJson_plain h hr) (client.safe i)
    (client.fresh i)
  rw [hc] at hc'
  cases hc'
  have hrows : orderBy (ascending q) (sortFieldOf q) ((t.matching tenantId q.filters).filter
      fun x => holds (keysetPredicate (ascending q) (sortFieldOf q)
        ((r.column (sortFieldOf q)).map carry) r.id x)) =
      (sortedRows t tenantId q).filter (seek (ascending q) (sortFieldOf q) carry r) :=
    orderBy_filter (matching_distinct t tenantId q.filters) _
  refine ⟨_, ?_, hanswers (t.matching tenantId q.filters).length (pageSize q) none none⟩
  simp only [request, getMarketplaceInvoices, truthy_of_ne htenant,
    truthy_of_ne (encodeCursor_ne_empty hc)]
  show (decodeCursor hmacSha256 env (client.clock (i + 1)) c (some (sortFieldOf q).name) >>= _) = _
  rw [hdecode]
  show (cursorValue driver (sortFieldOf q) (some (driver.columnJson (sortFieldOf q) r)) >>= _) = _
  rw [cursorValue_columnJson h hr]
  show (cutPage hmacSha256 env driver (client.clock (i + 1)) (sortFieldOf q) (pageSize q)
    ((orderBy (ascending q) (sortFieldOf q) ((t.matching tenantId q.filters).filter
      fun x => holds (keysetPredicate (ascending q) (sortFieldOf q)
        ((r.column (sortFieldOf q)).map carry) r.id x))).take (pageSize q + 1)) >>= _) = _
  rw [hrows, hcut]
  rfl

/- The walk from a request whose page is taken from `cand` is the walk over the rows. -/
theorem traverse_eq_follow {carry : ℚ → ℚ} (h : driver.Carries (sortFieldOf q) carry t)
    (htenant : tenantId ≠ "") (fuel : ℕ) {i : ℕ} {cursor : Option String} {cand : List Invoice}
    {page : Page} (hcand : ∀ r ∈ cand, r ∈ t.rows)
    (hpage : request hmacSha256 driver client t tenantId q i cursor = .ok page)
    (hanswers : Answers hmacSha256 driver client q i cand page) :
    (traverse (request hmacSha256 driver client t tenantId q) fuel i cursor).map
        (List.map Page.data) =
      follow (sortedRows t tenantId q) (seek (ascending q) (sortFieldOf q) carry) (pageSize q)
        fuel cand := by
  induction fuel generalizing i cursor cand page with
  | zero => rfl
  | succ fuel ih =>
    rw [traverse, follow, hpage]
    by_cases hle : cand.length ≤ pageSize q
    · rw [if_pos hle]
      simp only [hanswers.last hle, Option.map_some, List.map_cons, List.map_nil, hanswers.data,
        List.take_of_length_le hle]
    · obtain ⟨r, c, hlast, hnext, -, hc⟩ := hanswers.next (by omega)
      have hr : r ∈ t.rows := hcand r (List.mem_of_mem_take (List.mem_of_getLast? hlast))
      obtain ⟨page', hpage', hanswers'⟩ := request_answers hmacSha256 client q h htenant hr hc
      have hrest := ih (fun x hx => mem_rows_of_sorted q (List.mem_filter.mp hx).1) hpage' hanswers'
      rw [if_neg hle, hlast]
      simp only [hnext, ← hrest, Option.map_map, ← hanswers.data]
      rfl

theorem walk_eq_follow {carry : ℚ → ℚ} (h : driver.Carries (sortFieldOf q) carry t)
    (htenant : tenantId ≠ "") (fuel : ℕ) :
    (walk hmacSha256 driver client t tenantId q fuel).map (List.map Page.data) =
      follow (sortedRows t tenantId q) (seek (ascending q) (sortFieldOf q) carry) (pageSize q)
        fuel (sortedRows t tenantId q) := by
  obtain ⟨page, hpage, hanswers⟩ := offsetRequest_answers hmacSha256 client q h htenant 0 0
  rw [Nat.zero_mul, List.drop_zero] at hanswers
  exact traverse_eq_follow hmacSha256 client q h htenant fuel (fun r hr => mem_rows_of_sorted q hr)
    hpage hanswers

theorem yieldsOnce_iff_seenOnce {carry : ℚ → ℚ} (h : driver.Carries (sortFieldOf q) carry t)
    (htenant : tenantId ≠ "") :
    YieldsOnce hmacSha256 driver client t tenantId q ↔
      SeenOnce (sortedRows t tenantId q) (seek (ascending q) (sortFieldOf q) carry) (pageSize q) := by
  have hperm : (sortedRows t tenantId q).Perm (t.matching tenantId q.filters) := orderBy_perm _
  constructor
  · rintro ⟨fuel, pages, hwalk, hyield⟩
    refine ⟨fuel, pages.map Page.data, ?_, ?_⟩
    · rw [← walk_eq_follow hmacSha256 client q h htenant, hwalk]
      rfl
    · rw [← List.flatMap_def]
      exact hyield.trans hperm.symm
  · rintro ⟨fuel, pages, hfollow, hseen⟩
    rw [← walk_eq_follow hmacSha256 client q h htenant] at hfollow
    obtain ⟨pages, hwalk, rfl⟩ := Option.map_eq_some_iff.mp hfollow
    refine ⟨fuel, pages, hwalk, ?_⟩
    rw [List.flatMap_def]
    exact hseen.trans hperm

theorem follows_asymm {asc : Bool} {field : SortField} (r x : Invoice) (h : Follows asc field r x) :
    ¬ Follows asc field x r := by
  cases asc
  · exact lt_asymm (a := sortKey field x) h
  · exact lt_asymm (a := sortKey field r) h

theorem sortedRows_follows :
    (sortedRows t tenantId q).Pairwise (Follows (ascending q) (sortFieldOf q)) :=
  orderBy_follows (matching_distinct t tenantId q.filters)

theorem sortedRows_nodup : (sortedRows t tenantId q).Nodup := by
  refine (sortedRows_follows q).imp ?_
  rintro r x hrx rfl
  exact follows_asymm r r hrx hrx

end Walk

/-! ### The keyset predicate against the order, column by column -/

section Predicate
variable {asc : Bool} {field : SortField} {carry : ℚ → ℚ} {r x : Invoice} {v w : ℚ}

def after {α : Type} [LinearOrder α] (asc : Bool) (a b : α) : Prop :=
  if asc then b < a else a < b

theorem gtOp_iff {α : Type} [LinearOrder α] (a b : α) : gtOp asc a b = true ↔ after asc a b := by
  cases asc <;> simp [gtOp, after]

theorem seek_null_null (hr : r.column field = none) (hx : x.column field = none) :
    seek asc field carry r x = true ↔ after asc (utf16 x.id) (utf16 r.id) := by
  simp [seek, keysetPredicate, hr, hx, sqlCompare, gtOp_iff]

theorem seek_null_value (hr : r.column field = none) (hx : x.column field = some w) :
    seek asc field carry r x = false := by
  simp [seek, keysetPredicate, hr, hx, sqlCompare]

theorem seek_value_null (hr : r.column field = some v) (hx : x.column field = none) :
    seek asc field carry r x = false := by
  simp [seek, keysetPredicate, hr, hx, sqlCompare]

theorem seek_value_value (hr : r.column field = some v) (hx : x.column field = some w) :
    seek asc field carry r x = true ↔
      after asc w (carry v) ∨ (w = carry v ∧ after asc (utf16 x.id) (utf16 r.id)) := by
  simp [seek, keysetPredicate, hr, hx, sqlCompare, gtOp_iff]

theorem follows_null_null (hr : r.column field = none) (hx : x.column field = none) :
    Follows asc field r x ↔ after asc (utf16 x.id) (utf16 r.id) := by
  cases asc <;> simp [Follows, sortKey, after, hr, hx, Prod.Lex.toLex_lt_toLex]

theorem follows_null_value (hr : r.column field = none) (hx : x.column field = some w) :
    Follows asc field r x ↔ asc = false := by
  cases asc <;> simp [Follows, sortKey, hr, hx, Prod.Lex.toLex_lt_toLex]

theorem follows_value_null (hr : r.column field = some v) (hx : x.column field = none) :
    Follows asc field r x ↔ asc = true := by
  cases asc <;> simp [Follows, sortKey, hr, hx, Prod.Lex.toLex_lt_toLex]

theorem follows_value_value (hr : r.column field = some v) (hx : x.column field = some w) :
    Follows asc field r x ↔ after asc w v ∨ (w = v ∧ after asc (utf16 x.id) (utf16 r.id)) := by
  cases asc
  · simp [Follows, sortKey, after, hr, hx, Prod.Lex.toLex_lt_toLex]
  · simp [Follows, sortKey, after, hr, hx, Prod.Lex.toLex_lt_toLex, eq_comm]

end Predicate

end Liquifact.Marketplace
