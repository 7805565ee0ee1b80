import Liquifact.Cache.ResponseCache
import Liquifact.Cache.ResponseKeys
import Liquifact.Invest.InvestorLocks

/-!
# Reading locks through the response cache (`src/routes/investor.js`)

`GET /locks` (127-207) and `GET /locks/:invoiceId` (249-296) run behind `authenticateToken`,
`extractTenant` and `cacheResponse`, whose store they share with the marketplace. Nothing is
awaited between the lookup of the cache and the answer, so a request is one step.

`limit` and `page` are what `parseInt` makes of the parameters, below the range of doubles.
-/

namespace Liquifact.Invest
open Liquifact.Lib Liquifact.Cache

inductive PageParam where
  | absent
  | nan
  | int (n : ℤ)

def PageParam.value : PageParam → Option ℤ
  | .int n => some n
  | _ => none

/- A request that has a user and a tenant; `detail` is the invoice id in the path of the second
route. -/
structure LockRequest where
  tenantId : String
  user : Option JwtUser
  cacheControl : Option String
  originalUrl : String
  detail : Option String
  funderAddress : QueryValue
  invoiceId : QueryValue
  limit : PageParam
  page : PageParam

inductive LockAnswer where
  | locks (page : LockPage) (stale : Bool)
  | lock (l : Lock)
  | refused (status : ℕ) (error : String)

def LockAnswer.statusCode : LockAnswer → ℕ
  | .refused status _ => status
  | _ => 200

/- The locks that an answer tells of. -/
def LockAnswer.told : LockAnswer → List Lock
  | .locks page _ => page.data
  | .lock l => [l]
  | .refused _ _ => []

/- A body in the shared store. -/
inductive SharedBody where
  | marketplace (body : Json)
  | investor (answer : LockAnswer)

def SharedBody.told : SharedBody → List Lock
  | .marketplace _ => []
  | .investor answer => answer.told

def CACHE_TTL_MS : JsNumber := .fin 15000

section Handlers
variable (toLowerCase : String → String) (strKey : StrKey)

/- The three checks of a caller that is no administrator: the address it is bound to. -/
def boundAddress (user : Option JwtUser) (requested : Option String) : Except LockAnswer String :=
  match getBoundFunderAddress user with
  | none => .error (.refused 403 "Authenticated investor is not bound to a funderAddress")
  | some bound =>
    match validateAddress strKey bound with
    | .error _ =>
      .error (.refused 403 "Authenticated investor has an invalid bound funderAddress")
    | .ok () =>
      if requested = none ∨ requested = some bound then .ok bound
      else .error (.refused 403 "funderAddress is not authorized for this caller")

/- A filter that is not one text matches no lock. -/
def listLocks (lockStore : LockStore) (funderAddress : Option String) (req : LockRequest) :
    LockPage :=
  let opts (invoiceId : Option String) : ListOptions :=
    ⟨invoiceId, some (req.limit.value.getD 20), some (req.page.value.getD 1)⟩
  let items (invoiceId : Option String) : LockPage :=
    match funderAddress with
    | some address => getInvestorLocksByAddress lockStore address (opts invoiceId)
    | none => getAllInvestorLocks lockStore (opts invoiceId)
  match req.invoiceId with
  | .absent => items none
  | .text id => items (some id)
  | .many _ => lockPage [] (opts none)

def pageRefused (req : LockRequest) : Option LockAnswer :=
  match req.limit, req.page with
  | .nan, _ => some (.refused 400 "limit must be an integer between 1 and 100")
  | .int n, page =>
    if n < 1 ∨ 100 < n then some (.refused 400 "limit must be an integer between 1 and 100")
    else pageOnly page
  | .absent, page => pageOnly page
where
  pageOnly : PageParam → Option LockAnswer
    | .nan => some (.refused 400 "page must be an integer >= 1")
    | .int n => if n < 1 then some (.refused 400 "page must be an integer >= 1") else none
    | .absent => none

/- The address in the query of the first route, trimmed. -/
def requestedFunder (q : QueryValue) : Except LockAnswer (Option String) :=
  match q with
  | .absent => .ok none
  | .many _ => .error (.refused 400 "funderAddress must be a single string value")
  | .text s =>
    match validateAddress strKey (trim s) with
    | .error e => .error (.refused 400 e.message)
    | .ok () => .ok (some (trim s))

def getLocks (lockStore : LockStore) (req : LockRequest) : LockAnswer :=
  match requestedFunder strKey req.funderAddress with
  | .error answer => answer
  | .ok requested =>
    match pageRefused req with
    | some answer => answer
    | none =>
      let effective : Except LockAnswer (Option String) :=
        if isInvestorLockAdmin toLowerCase req.user then .ok requested
        else (boundAddress strKey req.user requested).map some
      match effective with
      | .error answer => answer
      | .ok effectiveFunderAddress =>
        let result := listLocks lockStore effectiveFunderAddress req
        .locks result (result.data.any fun l => l.stale)

def getLock (lockStore : LockStore) (invoiceId : String) (req : LockRequest) : LockAnswer :=
  match req.funderAddress with
  | .absent => .refused 400 "funderAddress query parameter is required"
  | .many _ => .refused 400 "invalid Stellar address: must be a non-empty string"
  | .text s =>
    if s = "" then .refused 400 "funderAddress query parameter is required"
    else
      match validateAddress strKey s with
      | .error e => .refused 400 e.message
      | .ok () =>
        let allowed : Except LockAnswer String :=
          if isInvestorLockAdmin toLowerCase req.user then .ok (trim s)
          else boundAddress strKey req.user (some (trim s))
        match allowed with
        | .error answer => answer
        | .ok requestedFunderAddress =>
          match getInvestorLock lockStore invoiceId requestedFunderAddress with
          | none => .refused 404 "Lock not found"
          | some l => .lock l

def handle (lockStore : LockStore) (req : LockRequest) : LockAnswer :=
  match req.detail with
  | none => getLocks toLowerCase strKey lockStore req
  | some invoiceId => getLock toLowerCase strKey lockStore invoiceId req

def LockRequest.cacheRequest (req : LockRequest) : CacheRequest :=
  ⟨some req.tenantId, req.user, req.originalUrl, req.detail.getD "", req.funderAddress⟩

def LockRequest.key (req : LockRequest) : String :=
  match req.detail with
  | none => req.cacheRequest.makeInvestorLocksKey toLowerCase
  | some _ => req.cacheRequest.makeInvestorLockKey toLowerCase

end Handlers

structure LockServer where
  lockStore : LockStore
  cache : MemoryCacheStore SharedBody

inductive ServerStep where
  | setInvestorLock (params : LockParams)
  | request (req : LockRequest) (now : ℕ)
  | marketplaceGet (req : CacheRequest) (now : ℕ)
  | marketplaceSet (req : CacheRequest) (body : Json) (ttl : JsNumber) (now : ℕ)
  | invalidatePrefix (start : String) (now : ℕ)
  | clear

namespace LockServer
variable (toLowerCase : String → String) (strKey : StrKey)

def start : LockServer := ⟨.empty, .new none⟩

/-- One request through `cacheResponse` and its handler: the server and the body sent. -/
def serve (s : LockServer) (req : LockRequest) (now : ℕ) : LockServer × SharedBody :=
  let answer := handle toLowerCase strKey s.lockStore req
  if bypassed req.cacheControl then (s, .investor answer)
  else
    match s.cache.get (req.key toLowerCase) now with
    | (some body, cache) => ({ s with cache := cache }, body)
    | (none, cache) =>
      if 200 ≤ answer.statusCode ∧ answer.statusCode < 300 then
        ({ s with cache := (cache.set (req.key toLowerCase) (.investor answer) CACHE_TTL_MS now).2 },
          .investor answer)
      else ({ s with cache := cache }, .investor answer)

def step (s : LockServer) : ServerStep → LockServer
  | .setInvestorLock params => { s with lockStore := setInvestorLock s.lockStore params }
  | .request req now => (s.serve toLowerCase strKey req now).1
  | .marketplaceGet req now => { s with cache := (s.cache.get req.makeMarketplaceKey now).2 }
  | .marketplaceSet req body ttl now =>
    { s with cache := (s.cache.set req.makeMarketplaceKey (.marketplace body) ttl now).2 }
  | .invalidatePrefix start now => { s with cache := s.cache.delByPrefix start now }
  | .clear => { s with cache := s.cache.clear }

end LockServer

/-! ### What a handler tells -/

section Handled
variable {toLowerCase : String → String} {strKey : StrKey} {lockStore : LockStore}
  {req : LockRequest}

/- Every lock stands under its own key, with an address that was valid. -/
def StoreSound (strKey : StrKey) (lockStore : LockStore) : Prop :=
  ∀ key l, lockStore.get key = some l →
    key = lockKey l.invoiceId l.funderAddress ∧ validateAddress strKey l.funderAddress = .ok ()

theorem StoreSound.set (h : StoreSound strKey lockStore) {params : LockParams}
    (hvalid : validateAddress strKey params.funderAddress = .ok ()) :
    StoreSound strKey (setInvestorLock lockStore params) := by
  intro key l hget
  rw [setInvestorLock, OrdMap.get_set] at hget
  split at hget
  · next hkey =>
    cases hget
    exact ⟨hkey.symm, hvalid⟩
  · exact h key l hget

theorem boundAddress_ok {requested : Option String} {address : String}
    (h : boundAddress strKey req.user requested = .ok address) :
    getBoundFunderAddress req.user = some address ∧ validateAddress strKey address = .ok () ∧
      (requested = none ∨ requested = some address) := by
  unfold boundAddress at h
  cases hbound : getBoundFunderAddress req.user with
  | none =>
    rw [hbound] at h
    cases h
  | some bound =>
    rw [hbound] at h
    dsimp only at h
    cases hvalid : validateAddress strKey bound with
    | error e =>
      rw [hvalid] at h
      cases h
    | ok u =>
      rw [hvalid] at h
      dsimp only at h
      split at h
      · next hrequested =>
        cases h
        exact ⟨rfl, hvalid, hrequested⟩
      · cases h

theorem mem_lockPage {items : List Lock} {opts : ListOptions} {l : Lock}
    (h : l ∈ (lockPage items opts).data) : l ∈ items :=
  List.mem_of_mem_drop (List.mem_of_mem_take h)

theorem mem_filterByInvoice {invoiceId : Option String} {items : List Lock} {l : Lock}
    (h : l ∈ filterByInvoice invoiceId items) : l ∈ items := by
  rw [filterByInvoice_filter] at h
  exact List.mem_of_mem_filter h

theorem mem_listLocks {address : String} {l : Lock}
    (h : l ∈ (listLocks lockStore (some address) req).data) : l.funderAddress = address := by
  have hbyAddress : ∀ opts, l ∈ (getInvestorLocksByAddress lockStore address opts).data →
      l.funderAddress = address := by
    intro opts hl
    have hitems := mem_filterByInvoice (mem_lockPage hl)
    exact of_decide_eq_true (List.mem_filter.mp hitems).2
  unfold listLocks at h
  cases hinvoice : req.invoiceId with
  | absent =>
    rw [hinvoice] at h
    exact hbyAddress _ h
  | text id =>
    rw [hinvoice] at h
    exact hbyAddress _ h
  | many items =>
    rw [hinvoice] at h
    cases mem_lockPage h

theorem getInvestorLock_funder (hbase : strKey.Base32) (hstore : StoreSound strKey lockStore)
    {invoiceId address : String} {l : Lock} (hvalid : validateAddress strKey address = .ok ())
    (h : getInvestorLock lockStore invoiceId address = some l) : l.funderAddress = address := by
  obtain ⟨hkey, hl⟩ := hstore _ l h
  exact (append_sep_inj_last (no_colon hbase hvalid) (no_colon hbase hl) hkey).2.symm

/- An answer for a caller that is no administrator: a refusal, or locks of the bound address. -/
inductive Scoped (strKey : StrKey) (user : Option JwtUser) : LockAnswer → Prop
  | refused (status : ℕ) (error : String) (hstatus : 400 ≤ status) :
      Scoped strKey user (.refused status error)
  | told (answer : LockAnswer) (address : String)
      (hbound : getBoundFunderAddress user = some address)
      (hvalid : validateAddress strKey address = .ok ())
      (hlocks : ∀ l ∈ answer.told, l.funderAddress = address) : Scoped strKey user answer

theorem boundAddress_error {requested : Option String} {answer : LockAnswer}
    (h : boundAddress strKey req.user requested = .error answer) :
    Scoped strKey req.user answer := by
  unfold boundAddress at h
  split at h
  · cases h
    exact .refused 403 _ (by omega)
  · split at h
    · cases h
      exact .refused 403 _ (by omega)
    · split at h
      · cases h
      · cases h
        exact .refused 403 _ (by omega)

theorem pageRefused_status {answer : LockAnswer} (h : pageRefused req = some answer) :
    ∃ error, answer = .refused 400 error := by
  have honly : ∀ page, pageRefused.pageOnly page = some answer → ∃ error, answer = .refused 400 error := by
    intro page hpage
    cases page with
    | absent => cases hpage
    | nan => exact ⟨_, (Option.some.inj hpage).symm⟩
    | int n =>
      simp only [pageRefused.pageOnly] at hpage
      split_ifs at hpage
      exact ⟨_, (Option.some.inj hpage).symm⟩
  unfold pageRefused at h
  split at h
  · exact ⟨_, (Option.some.inj h).symm⟩
  · split_ifs at h
    · exact ⟨_, (Option.some.inj h).symm⟩
    · exact honly _ h
  · exact honly _ h

theorem getLocks_scoped (hadmin : isInvestorLockAdmin toLowerCase req.user = false) :
    Scoped strKey req.user (getLocks toLowerCase strKey lockStore req) := by
  unfold getLocks
  split
  · next answer hrequested =>
    unfold requestedFunder at hrequested
    split at hrequested
    · cases hrequested
    · cases hrequested
      exact .refused 400 _ (by omega)
    · split at hrequested
      · cases hrequested
        exact .refused 400 _ (by omega)
      · cases hrequested
  · next requested hrequested =>
    split
    · next answer hpage =>
      obtain ⟨error, rfl⟩ := pageRefused_status hpage
      exact .refused 400 error (by omega)
    · dsimp only
      rw [hadmin, if_neg Bool.false_ne_true]
      cases hbound : boundAddress strKey req.user requested with
      | error answer => exact boundAddress_error hbound
      | ok address =>
        obtain ⟨hclaim, hvalid, -⟩ := boundAddress_ok hbound
        exact .told _ address hclaim hvalid fun l hl => mem_listLocks hl

theorem getLock_scoped (hbase : strKey.Base32) (hstore : StoreSound strKey lockStore)
    (hadmin : isInvestorLockAdmin toLowerCase req.user = false) (invoiceId : String) :
    Scoped strKey req.user (getLock toLowerCase strKey lockStore invoiceId req) := by
  unfold getLock
  split
  · exact .refused 400 _ (by omega)
  · exact .refused 400 _ (by omega)
  · split
    · exact .refused 400 _ (by omega)
    · split
      · exact .refused 400 _ (by omega)
      · dsimp only
        rw [hadmin, if_neg Bool.false_ne_true]
        cases hbound : boundAddress strKey req.user (some (trim _)) with
        | error answer => exact boundAddress_error hbound
        | ok address =>
          obtain ⟨hclaim, hvalid, -⟩ := boundAddress_ok hbound
          dsimp only
          split
          · exact .refused 404 _ (by omega)
          · next l hlock =>
            refine .told _ address hclaim hvalid fun l' hl' => ?_
            rw [List.mem_singleton.mp hl']
            exact getInvestorLock_funder hbase hstore hvalid hlock

theorem handle_scoped (hbase : strKey.Base32) (hstore : StoreSound strKey lockStore)
    (hadmin : isInvestorLockAdmin toLowerCase req.user = false) :
    Scoped strKey req.user (handle toLowerCase strKey lockStore req) := by
  unfold handle
  split
  · exact getLocks_scoped hadmin
  · exact getLock_scoped hbase hstore hadmin _

end Handled

/-! ### Whose key it is -/

/- The tenant and the bound address have no colon. -/
structure LockRequest.Plain (req : LockRequest) : Prop where
  tenant : ':' ∉ req.tenantId.toList
  bound : ∀ address, getBoundFunderAddress req.user = some address → ':' ∉ address.toList

section Keys
variable {toLowerCase : String → String} {strKey : StrKey} {req req' : LockRequest}

def LockRequest.keyFn (req : LockRequest) : KeyFn :=
  match req.detail with
  | none => .makeInvestorLocksKey
  | some _ => .makeInvestorLockKey

theorem key_eq_keyFn : req.key toLowerCase = req.cacheRequest.key toLowerCase req.keyFn := by
  unfold LockRequest.key LockRequest.keyFn
  cases req.detail <;> rfl

theorem LockRequest.Plain.no_colon (h : req.Plain) : ':' ∉ req.cacheRequest.tenant.toList := by
  have htenant : req.cacheRequest.tenant = (truthy (some req.tenantId)).getD "unknown" := rfl
  rw [htenant]
  by_cases hempty : req.tenantId = ""
  · have hunknown : (truthy (some req.tenantId)).getD "unknown" = "unknown" := by
      rw [hempty]
      rfl
    rw [hunknown]
    decide
  · rw [truthy_of_ne hempty]
    exact h.tenant

/- What follows the tenant in the key. -/
def LockRequest.scoped (req : LockRequest) : List String :=
  match req.detail with
  | none => [req.originalUrl]
  | some invoiceId => [invoiceId, req.funderAddress.write]

theorem segments_eq : req.cacheRequest.segments toLowerCase req.keyFn =
    req.cacheRequest.tenant :: getInvestorLockPrincipalScope toLowerCase req.user ::
      req.scoped := by
  unfold LockRequest.keyFn LockRequest.scoped
  cases hdetail : req.detail with
  | none => rfl
  | some invoiceId =>
    simp only [CacheRequest.segments, LockRequest.cacheRequest, hdetail, Option.getD_some]

theorem joined_cons (sep : Char) (a : String) {rest : List String} (h : rest ≠ []) :
    joined sep (a :: rest) = a ++ (String.singleton sep ++ joined sep rest) := by
  cases rest with
  | nil => exact absurd rfl h
  | cons b rest => rfl

theorem scoped_ne_nil : req.scoped ≠ [] := by
  unfold LockRequest.scoped
  cases req.detail <;> exact List.cons_ne_nil _ _

/- Requests with one key have one tenant, and agree on what follows it. -/
theorem scope_eq_of_key_eq (hplain : req.Plain) (hplain' : req'.Plain)
    (h : req.key toLowerCase = req'.key toLowerCase) :
    getInvestorLockPrincipalScope toLowerCase req.user ++
        (":" ++ joined ':' (req.scoped)) =
      getInvestorLockPrincipalScope toLowerCase req'.user ++
        (":" ++ joined ':' (req'.scoped)) := by
  rw [key_eq_keyFn, key_eq_keyFn] at h
  have hroute : req.keyFn = req'.keyFn := by
    by_contra hne
    exact key_ne_of_route_ne toLowerCase hne _ _ h
  have hjoined : ∀ r : LockRequest, joined ':' (r.cacheRequest.segments toLowerCase r.keyFn) =
      r.cacheRequest.tenant ++ (String.singleton ':' ++
        (getInvestorLockPrincipalScope toLowerCase r.user ++
          (String.singleton ':' ++ joined ':' (r.scoped)))) := by
    intro r
    rw [segments_eq, joined_cons ':' _ (List.cons_ne_nil _ _), joined_cons ':' _ scoped_ne_nil]
  rw [key_eq_joined, key_eq_joined, ← hroute, String.append_right_inj] at h
  rw [hjoined req, hroute, hjoined req'] at h
  exact (append_sep_inj hplain.no_colon hplain'.no_colon h).2

/- The principal of a caller that is no administrator. -/
theorem scope_of_funder (hadmin : isInvestorLockAdmin toLowerCase req.user = false) :
    getInvestorLockPrincipalScope toLowerCase req.user =
      "funder:" ++ (getBoundFunderAddress req.user).getD "unbound" := by
  rw [scope_eq, lockPrincipal, hadmin]
  rfl

theorem LockRequest.Plain.address_no_colon (h : req.Plain) :
    ':' ∉ ((getBoundFunderAddress req.user).getD "unbound").toList := by
  cases hbound : getBoundFunderAddress req.user with
  | none => decide
  | some address => exact h.bound address hbound

theorem not_admin_of_key_eq (hplain : req.Plain) (hplain' : req'.Plain)
    (h : req.key toLowerCase = req'.key toLowerCase)
    (hadmin : isInvestorLockAdmin toLowerCase req.user = false) :
    isInvestorLockAdmin toLowerCase req'.user = false := by
  have hscope := scope_eq_of_key_eq hplain hplain' h
  rw [← Bool.not_eq_true]
  intro hadmin'
  rw [scope_of_funder hadmin, scope_eq, lockPrincipal, if_pos hadmin'] at hscope
  have hhead := congrArg (fun s => s.toList.head?) hscope
  simp [LockPrincipal.scope] at hhead

theorem address_eq_of_key_eq (hplain : req.Plain) (hplain' : req'.Plain)
    (h : req.key toLowerCase = req'.key toLowerCase)
    (hadmin : isInvestorLockAdmin toLowerCase req.user = false) :
    (getBoundFunderAddress req.user).getD "unbound" =
      (getBoundFunderAddress req'.user).getD "unbound" := by
  have hscope := scope_eq_of_key_eq hplain hplain' h
  rw [scope_of_funder hadmin, scope_of_funder (not_admin_of_key_eq hplain hplain' h hadmin),
    String.append_assoc, String.append_assoc, String.append_right_inj] at hscope
  exact (append_sep_inj hplain.address_no_colon hplain'.address_no_colon hscope).1

/- A text that is no address. -/
theorem ne_unbound (hbase : strKey.Base32) {address : String}
    (hvalid : validateAddress strKey address = .ok ()) : address ≠ "unbound" := by
  rintro rfl
  obtain ⟨-, -, h⟩ := bind_ok hvalid
  have hlength := (hbase "unbound" (by simpa using refuse_ok_iff.mp h)).1
  revert hlength
  decide

end Keys

/-! ### Runs of the server -/

section Runs
variable {toLowerCase : String → String} {strKey : StrKey}

/- What a stored body is: one of the marketplace, or the answer to a request with its key. -/
inductive Stored (toLowerCase : String → String) (strKey : StrKey) : String → SharedBody → Prop
  | marketplace (req : CacheRequest) (body : Json) :
      Stored toLowerCase strKey req.makeMarketplaceKey (.marketplace body)
  | investor (req : LockRequest) (answer : LockAnswer) (hplain : req.Plain)
      (hscoped : isInvestorLockAdmin toLowerCase req.user = false →
        ∃ address, getBoundFunderAddress req.user = some address ∧
          validateAddress strKey address = .ok () ∧ ∀ l ∈ answer.told, l.funderAddress = address) :
      Stored toLowerCase strKey (req.key toLowerCase) (.investor answer)

structure ServerSound (toLowerCase : String → String) (strKey : StrKey) (s : LockServer) : Prop where
  lockStore : StoreSound strKey s.lockStore
  cache : ∀ key e, s.cache.cache.get key = some e → Stored toLowerCase strKey key e.value

/- Locks are written with valid addresses, and the requests are plain. -/
def ServerStep.Plain (strKey : StrKey) : ServerStep → Prop
  | .setInvestorLock params => validateAddress strKey params.funderAddress = .ok ()
  | .request req _ => req.Plain
  | _ => True

theorem key_ne_marketplace (req : LockRequest) (market : CacheRequest) :
    req.key toLowerCase ≠ market.makeMarketplaceKey := by
  have hroute : req.keyFn ≠ .makeMarketplaceKey := by
    unfold LockRequest.keyFn
    cases req.detail <;> simp
  rw [key_eq_keyFn]
  exact key_ne_of_route_ne toLowerCase hroute req.cacheRequest market

/- A stored body under the key of a caller that is no administrator tells of its own locks. -/
theorem Stored.told (hbase : strKey.Base32) {key : String} {body : SharedBody} {req : LockRequest}
    (h : Stored toLowerCase strKey key body) (hkey : key = req.key toLowerCase)
    (hplain : req.Plain) (hadmin : isInvestorLockAdmin toLowerCase req.user = false) :
    ∀ l ∈ body.told, getBoundFunderAddress req.user = some l.funderAddress := by
  cases h with
  | marketplace market body => exact absurd hkey.symm (key_ne_marketplace req market)
  | investor req' answer hplain' hscoped =>
    intro l hl
    obtain ⟨address, hbound, hvalid, hlocks⟩ :=
      hscoped (not_admin_of_key_eq hplain hplain' hkey.symm hadmin)
    have haddress := address_eq_of_key_eq hplain hplain' hkey.symm hadmin
    rw [hbound, Option.getD_some] at haddress
    rw [hlocks l hl]
    cases hclaim : getBoundFunderAddress req.user with
    | none =>
      rw [hclaim] at haddress
      exact absurd haddress.symm (ne_unbound hbase hvalid)
    | some claim =>
      rw [hclaim] at haddress
      exact congrArg some haddress

theorem stored_of_handled (hbase : strKey.Base32) {lockStore : LockStore}
    (hstore : StoreSound strKey lockStore) {req : LockRequest} (hplain : req.Plain)
    (hok : (handle toLowerCase strKey lockStore req).statusCode < 300) :
    Stored toLowerCase strKey (req.key toLowerCase)
      (.investor (handle toLowerCase strKey lockStore req)) := by
  refine .investor req _ hplain fun hadmin => ?_
  have hscoped := handle_scoped hbase hstore hadmin
  generalize handle toLowerCase strKey lockStore req = answer at hscoped hok
  cases hscoped with
  | refused status error hstatus =>
    rw [LockAnswer.statusCode] at hok
    omega
  | told _ address hbound hvalid hlocks => exact ⟨address, hbound, hvalid, hlocks⟩

variable {s : LockServer}

theorem ServerSound.serve (hbase : strKey.Base32) (h : ServerSound toLowerCase strKey s)
    {req : LockRequest} (hplain : req.Plain) (now : ℕ) :
    ServerSound toLowerCase strKey (s.serve toLowerCase strKey req now).1 := by
  have hgot : ∀ key e, (s.cache.get (req.key toLowerCase) now).2.cache.get key = some e →
      Stored toLowerCase strKey key e.value := fun key e hget =>
    h.cache key e (MemoryCacheStore.of_get_cache hget)
  unfold LockServer.serve
  dsimp only
  split
  · exact h
  · split
    · next body cache hget =>
      rw [hget] at hgot
      exact ⟨h.lockStore, hgot⟩
    · next cache hget =>
      rw [hget] at hgot
      split
      · next hok =>
        refine ⟨h.lockStore, fun key e hkey => ?_⟩
        rcases MemoryCacheStore.of_set_cache hkey with ⟨rfl, rfl⟩ | hold
        · exact stored_of_handled hbase h.lockStore hplain hok.2
        · exact hgot key e hold
      · exact ⟨h.lockStore, hgot⟩

theorem ServerSound.step (hbase : strKey.Base32) (h : ServerSound toLowerCase strKey s)
    {a : ServerStep} (ha : a.Plain strKey) :
    ServerSound toLowerCase strKey (s.step toLowerCase strKey a) := by
  cases a with
  | setInvestorLock params => exact ⟨h.lockStore.set ha, h.cache⟩
  | request req now => exact h.serve hbase ha now
  | marketplaceGet req now =>
    exact ⟨h.lockStore, fun key e hget => h.cache key e (MemoryCacheStore.of_get_cache hget)⟩
  | marketplaceSet req body ttl now =>
    refine ⟨h.lockStore, fun key e hget => ?_⟩
    rcases MemoryCacheStore.of_set_cache hget with ⟨rfl, rfl⟩ | hold
    · exact .marketplace req body
    · exact h.cache key e hold
  | invalidatePrefix start now =>
    exact ⟨h.lockStore, fun key e hget =>
      h.cache key e (MemoryCacheStore.of_delByPrefix_cache hget).1⟩
  | clear => exact ⟨h.lockStore, fun key e hget => by cases hget⟩

end Runs

end Liquifact.Invest
