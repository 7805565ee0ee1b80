import Liquifact.Lib.JsString
import Liquifact.Lib.JsValue
import Liquifact.Lib.Separated

/-!
# The keys of the response cache

`sanitiseTenantId` (`src/middleware/tenant.js:37-42`), the scope of the principal
(`src/utils/investorLockScope.js`) and the three key functions
(`src/middleware/cache.js:121-147`), whose keys share one store. `toLowerCase` is the
language's, whose case tables are not written out here; nothing below depends on it.
-/

namespace Liquifact.Cache
open Liquifact.Lib

/-- `sanitiseTenantId`; `limit` is `MAX_TENANT_ID_LENGTH` as the comparison reads it. -/
def sanitiseTenantId (limit : JsNumber) (raw : JsValue) : Option String :=
  match raw with
  | .string s =>
    let trimmed := trim s
    if trimmed = "" ∨ JsNumber.lt limit (.ofNat (utf16 trimmed).length) = true then none
    else some trimmed
  | _ => none

/-- The claims of the token that the scope reads; `permissions` is none unless it is an array. -/
structure JwtUser where
  role : JsValue
  permissions : Option (List JsValue)
  funderAddress : JsValue
  walletAddress : JsValue
  stellarAddress : JsValue
  investorAddress : JsValue

/-- A query parameter: left out, given once or given several times. -/
inductive QueryValue where
  | absent
  | text (s : String)
  | many (items : List String)
  deriving DecidableEq

/- What a template or `+` writes for it. -/
def QueryValue.write : QueryValue → String
  | absent => "undefined"
  | text s => s
  | many items => ",".intercalate items

structure CacheRequest where
  tenantId : Option String
  user : Option JwtUser
  originalUrl : String
  invoiceId : String
  funderAddress : QueryValue

section Scope
variable (toLowerCase : String → String)

def roleOf (user : Option JwtUser) : Option String :=
  match user.map JwtUser.role with
  | some (.string role) => some (toLowerCase role)
  | _ => none

def isInvestorLockAdmin (user : Option JwtUser) : Bool :=
  if (roleOf toLowerCase user).getD "" ∈ ["admin", "owner"] then true
  else
    match user.bind JwtUser.permissions with
    | some permissions => permissions.any fun p => p.isText "investor:locks:read:any"
    | none => false

/- The first claim that is a string with something in it. -/
def firstAddress : List JsValue → Option String
  | [] => none
  | .string s :: rest => if trim s ≠ "" then some (trim s) else firstAddress rest
  | _ :: rest => firstAddress rest

def getBoundFunderAddress (user : Option JwtUser) : Option String :=
  match user with
  | none => none
  | some u => firstAddress [u.funderAddress, u.walletAddress, u.stellarAddress, u.investorAddress]

def getInvestorLockPrincipalScope (user : Option JwtUser) : String :=
  if isInvestorLockAdmin toLowerCase user then
    "admin:" ++ (roleOf toLowerCase user).getD "permission"
  else "funder:" ++ (truthy (getBoundFunderAddress user)).getD "unbound"

end Scope

inductive KeyFn where
  | makeMarketplaceKey
  | makeInvestorLocksKey
  | makeInvestorLockKey
  deriving DecidableEq

namespace CacheRequest
variable (toLowerCase : String → String)

/- `req.tenantId || 'unknown'`. -/
def tenant (req : CacheRequest) : String := (truthy req.tenantId).getD "unknown"

def makeMarketplaceKey (req : CacheRequest) : String :=
  "marketplace:" ++ req.tenant ++ ":" ++ req.originalUrl

def makeInvestorLocksKey (req : CacheRequest) : String :=
  "investor:locks:" ++ req.tenant ++ ":" ++ getInvestorLockPrincipalScope toLowerCase req.user ++
    ":" ++ req.originalUrl

def makeInvestorLockKey (req : CacheRequest) : String :=
  "investor:lock:" ++ req.tenant ++ ":" ++ getInvestorLockPrincipalScope toLowerCase req.user ++
    ":" ++ req.invoiceId ++ ":" ++ req.funderAddress.write

def key (req : CacheRequest) : KeyFn → String
  | .makeMarketplaceKey => req.makeMarketplaceKey
  | .makeInvestorLocksKey => req.makeInvestorLocksKey toLowerCase
  | .makeInvestorLockKey => req.makeInvestorLockKey toLowerCase

end CacheRequest

/-! ### Whose response it is -/

/-- For whom a response with locks is: an administrator with a role, or the funder of an
address. -/
inductive LockPrincipal where
  | admin (role : Option String)
  | funder (address : Option String)
  deriving DecidableEq

inductive Identity where
  | marketplace (tenantId : Option String) (originalUrl : String)
  | locks (tenantId : Option String) (principal : LockPrincipal) (originalUrl : String)
  | lock (tenantId : Option String) (principal : LockPrincipal) (invoiceId : String)
      (funderAddress : QueryValue)
  deriving DecidableEq

def LockPrincipal.scope : LockPrincipal → String
  | admin role => "admin:" ++ role.getD "permission"
  | funder address => "funder:" ++ address.getD "unbound"

section Identities
variable (toLowerCase : String → String)

def lockPrincipal (user : Option JwtUser) : LockPrincipal :=
  if isInvestorLockAdmin toLowerCase user then .admin (roleOf toLowerCase user)
  else .funder (getBoundFunderAddress user)

def CacheRequest.identity (req : CacheRequest) : KeyFn → Identity
  | .makeMarketplaceKey => .marketplace req.tenantId req.originalUrl
  | .makeInvestorLocksKey =>
    .locks req.tenantId (lockPrincipal toLowerCase req.user) req.originalUrl
  | .makeInvestorLockKey =>
    .lock req.tenantId (lockPrincipal toLowerCase req.user) req.invoiceId req.funderAddress

/- The texts that the key is put together from. -/
def CacheRequest.segments (req : CacheRequest) : KeyFn → List String
  | .makeMarketplaceKey => [req.tenant, req.originalUrl]
  | .makeInvestorLocksKey =>
    [req.tenant, getInvestorLockPrincipalScope toLowerCase req.user, req.originalUrl]
  | .makeInvestorLockKey =>
    [req.tenant, getInvestorLockPrincipalScope toLowerCase req.user, req.invoiceId,
      req.funderAddress.write]

/-- The tenant of the request is one that `sanitiseTenantId` let through. -/
def CacheRequest.Accepted (limit : JsNumber) (req : CacheRequest) : Prop :=
  ∃ raw t, sanitiseTenantId limit raw = some t ∧ req.tenantId = some t

/-- What keeps two requests to one route apart: different values are not written as the same
texts, and the texts do not come to the same key by a colon inside one of them. -/
structure KeptApart (f : KeyFn) (req req' : CacheRequest) : Prop where
  written : req.segments toLowerCase f = req'.segments toLowerCase f →
    req.identity toLowerCase f = req'.identity toLowerCase f
  uncut : ¬ Recuts ':' (req.segments toLowerCase f) (req'.segments toLowerCase f)

def routeText : KeyFn → String
  | .makeMarketplaceKey => "marketplace:"
  | .makeInvestorLocksKey => "investor:locks:"
  | .makeInvestorLockKey => "investor:lock:"

theorem key_eq_joined (req : CacheRequest) (f : KeyFn) :
    req.key toLowerCase f = routeText f ++ joined ':' (req.segments toLowerCase f) := by
  have hcolon : String.singleton ':' = ":" := rfl
  have htwo : ∀ head a b : String, head ++ a ++ ":" ++ b = head ++ joined ':' [a, b] := by
    intro head a b
    simp only [joined, hcolon, String.append_assoc]
  have hthree : ∀ head a b c : String, head ++ a ++ ":" ++ b ++ ":" ++ c =
      head ++ joined ':' [a, b, c] := by
    intro head a b c
    simp only [joined, hcolon, String.append_assoc]
  have hfour : ∀ head a b c d : String, head ++ a ++ ":" ++ b ++ ":" ++ c ++ ":" ++ d =
      head ++ joined ':' [a, b, c, d] := by
    intro head a b c d
    simp only [joined, hcolon, String.append_assoc]
  cases f with
  | makeMarketplaceKey => exact htwo ..
  | makeInvestorLocksKey => exact hthree ..
  | makeInvestorLockKey => exact hfour ..

/- No route's text begins with another's, so keys of different routes differ. -/
theorem key_ne_of_route_ne {f f' : KeyFn} (h : f ≠ f') (req req' : CacheRequest) :
    req.key toLowerCase f ≠ req'.key toLowerCase f' := by
  intro heq
  have hapart : ¬ (routeText f).toList <+: (routeText f').toList ∧
      ¬ (routeText f').toList <+: (routeText f).toList := by
    cases f <;> cases f' <;> first | exact absurd rfl h | decide
  rw [key_eq_joined, key_eq_joined] at heq
  have hl := congrArg String.toList heq
  rw [String.toList_append, String.toList_append] at hl
  have hone : (routeText f).toList <+:
      (routeText f).toList ++ (joined ':' (req.segments toLowerCase f)).toList :=
    List.prefix_append ..
  have hother : (routeText f').toList <+:
      (routeText f).toList ++ (joined ':' (req.segments toLowerCase f)).toList :=
    hl ▸ List.prefix_append ..
  rcases List.prefix_or_prefix_of_prefix hone hother with hp | hp
  · exact hapart.1 hp
  · exact hapart.2 hp

theorem key_eq_iff (f : KeyFn) (req req' : CacheRequest) :
    req.key toLowerCase f = req'.key toLowerCase f ↔
      req.segments toLowerCase f = req'.segments toLowerCase f ∨
        Recuts ':' (req.segments toLowerCase f) (req'.segments toLowerCase f) := by
  rw [← joined_eq_iff ':' _ _ (by cases f <;> rfl), key_eq_joined, key_eq_joined,
    String.append_right_inj]

theorem firstAddress_ne_empty {claims : List JsValue} {a : String}
    (h : firstAddress claims = some a) : a ≠ "" := by
  induction claims with
  | nil => cases h
  | cons c rest ih =>
    cases c with
    | string t =>
      simp only [firstAddress] at h
      split at h
      · rename_i hne
        cases h
        exact hne
      · exact ih h
    | undefined => exact ih h
    | null => exact ih h
    | bool b => exact ih h
    | number x => exact ih h
    | bigint n => exact ih h
    | symbol => exact ih h
    | object members => exact ih h

theorem scope_eq (user : Option JwtUser) :
    getInvestorLockPrincipalScope toLowerCase user = (lockPrincipal toLowerCase user).scope := by
  have htruthy : truthy (getBoundFunderAddress user) = getBoundFunderAddress user := by
    cases ha : getBoundFunderAddress user with
    | none => rfl
    | some a =>
      have hne : a ≠ "" := by
        cases user with
        | none => cases ha
        | some u => exact firstAddress_ne_empty ha
      simp [truthy, hne]
  unfold getInvestorLockPrincipalScope lockPrincipal
  rw [htruthy]
  split <;> rfl

/- The texts depend on nothing but the values they stand for. -/
theorem segments_of_identity {f : KeyFn} {req req' : CacheRequest}
    (h : req.identity toLowerCase f = req'.identity toLowerCase f) :
    req.segments toLowerCase f = req'.segments toLowerCase f := by
  cases f with
  | makeMarketplaceKey =>
    injection h with ht hu
    simp only [CacheRequest.segments, CacheRequest.tenant, ht, hu]
  | makeInvestorLocksKey =>
    injection h with ht hp hu
    simp only [CacheRequest.segments, CacheRequest.tenant, scope_eq, ht, hp, hu]
  | makeInvestorLockKey =>
    injection h with ht hp hi ha
    simp only [CacheRequest.segments, CacheRequest.tenant, scope_eq, ht, hp, hi, ha]

end Identities

/-- Two requests that differ in tenant, principal, path or query have different keys exactly
when their routes differ or their values are kept apart in the key's text. -/
theorem cache_keys_separate_iff (toLowerCase : String → String) (f f' : KeyFn)
    (req req' : CacheRequest) :
    (req.identity toLowerCase f ≠ req'.identity toLowerCase f' →
        req.key toLowerCase f ≠ req'.key toLowerCase f') ↔
      (f = f' → KeptApart toLowerCase f req req') := by
  by_cases hf : f = f'
  · subst hf
    simp only [forall_const]
    constructor
    · intro hsep
      refine ⟨?_, ?_⟩
      · intro hseg
        by_contra hne
        exact hsep hne ((key_eq_iff toLowerCase f req req').mpr (.inl hseg))
      · intro hcut
        by_cases hid : req.identity toLowerCase f = req'.identity toLowerCase f
        · rw [segments_of_identity toLowerCase hid] at hcut
          exact not_recuts_self ':' _ hcut
        · exact hsep hid ((key_eq_iff toLowerCase f req req').mpr (.inr hcut))
    · intro hkept hne hkey
      rcases (key_eq_iff toLowerCase f req req').mp hkey with hseg | hcut
      · exact hne (hkept.written hseg)
      · exact hkept.uncut hcut
  · exact ⟨fun _ h => absurd h hf, fun _ _ => key_ne_of_route_ne toLowerCase hf req req'⟩

def sampleRequest (tenantId originalUrl : String) : CacheRequest :=
  ⟨some tenantId, none, originalUrl, "", .absent⟩

/-- The second tenant's id ends with what the first one's query begins with. -/
theorem tenants_share_a_key :
    ¬ ∀ (toLowerCase : String → String) (limit : JsNumber) (f f' : KeyFn)
      (req req' : CacheRequest), req.Accepted limit → req'.Accepted limit →
      req.identity toLowerCase f ≠ req'.identity toLowerCase f' →
        req.key toLowerCase f ≠ req'.key toLowerCase f' := by
  intro hall
  refine hall id (.fin 128) .makeMarketplaceKey .makeMarketplaceKey
    (sampleRequest "a" "/api/marketplace?q=:/api/marketplace")
    (sampleRequest "a:/api/marketplace?q=" "/api/marketplace") ?_ ?_ ?_ ?_
  · exact ⟨.string "a", "a", by decide, rfl⟩
  · exact ⟨.string "a:/api/marketplace?q=", "a:/api/marketplace?q=", by decide, rfl⟩
  · decide
  · decide

end Liquifact.Cache
