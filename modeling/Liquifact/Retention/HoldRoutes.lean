import Liquifact.Lib.Interleaving
import Liquifact.Retention.HoldRaces

/-!
# Placing and releasing legal holds (`src/routes/retention.js`, 423-521 and 552-617)

Both routes look before they write, in a statement of their own: a placement for the invoice
and for a hold on it that is active, a release for the hold, as the tenant's and active. The
write of a release names the hold only. Any number of requests are interleaved statement by
statement; `seen` is how many holds there were when a session last looked for active ones.

A request without a tenant is refused by the query builder, which takes no undefined value in
a condition. `CreateLegalHoldSchema` drops the members of `metadata`, so `{}` is stored for it.
-/

namespace Liquifact.Retention.HoldRoutes
open Liquifact.Lib
open Interaction (Meets meets_query)

structure HoldRow extends LegalHold where
  holdReason : String
  holdType : String
  placedBy : Option String
  releasedAt : Option ℕ
  releaseReason : Option Json

/- What the schema library takes for a UUID and for a date and time. -/
structure Formats where
  isUuid : String → Bool
  datetime : String → Option ℕ

structure HoldData where
  invoiceId : String
  holdReason : String
  holdType : String
  expiresAt : Option ℕ

def holdTypes : List String := ["litigation", "investigation", "audit", "regulatory"]

def textMember (members : List (String × Json)) (name : String) (accepts : String → Bool) :
    Option String :=
  match members.lookup name with
  | some (.str s) => if accepts s then some s else none
  | _ => none

def expiresAtMember (formats : Formats) (members : List (String × Json)) : Option (Option ℕ) :=
  match members.lookup "expiresAt" with
  | none => some none
  | some (.str s) => (formats.datetime s).map some
  | some _ => none

/-- `CreateLegalHoldSchema.parse`. -/
def parseHold (formats : Formats) : Option Json → Option HoldData
  | some (.obj members) => do
    let invoiceId ← textMember members "invoiceId" formats.isUuid
    let holdReason ← textMember members "holdReason" fun s => s ≠ ""
    let holdType ← textMember members "holdType" fun s => s ∈ holdTypes
    let expiresAt ← expiresAtMember formats members
    match members.lookup "metadata" with
    | none | some (.obj _) => some ⟨invoiceId, holdReason, holdType, expiresAt⟩
    | some _ => none
  | _ => none

inductive HoldRoute where
  | create (body : Option Json)
  | release (holdId : String) (body : Option Json)

structure HoldRequest where
  tenantId : Option String
  userId : Option String
  route : HoldRoute

structure Problem where
  type : String
  title : String
  status : ℕ
  detail : String
  deriving DecidableEq

/- `invalid` is the error of the schema. -/
inductive HoldReply where
  | created (hold : HoldRow)
  | released (hold : Option HoldRow)
  | invalid
  | failed (problem : Problem)

def invoiceNotFound : Problem :=
  ⟨"https://liquifact.com/probs/not-found", "Invoice Not Found", 404,
    "Invoice not found or does not belong to this tenant"⟩

def alreadyExists : Problem :=
  ⟨"https://liquifact.com/probs/conflict", "Legal Hold Already Exists", 409,
    "An active legal hold already exists for this invoice"⟩

def holdNotFound : Problem :=
  ⟨"https://liquifact.com/probs/not-found", "Legal Hold Not Found", 404,
    "Active legal hold not found"⟩

def internalError (detail : String) : Problem :=
  ⟨"https://liquifact.com/probs/internal-server-error", "Internal Server Error", 500, detail⟩

/- An event that the audit log is given; the log redacts its two snapshots. -/
structure HoldAudit where
  action : String
  targetId : String
  before : Option HoldRow
  after : Option HoldRow
  tenantId : String

/-! ### Statements -/

structure NewHold where
  tenantId : String
  data : HoldData
  placedBy : Option String

inductive HoldQuery where
  | invoice (invoiceId tenantId : String)
  | existing (invoiceId : String)
  | insert (hold : NewHold)
  | find (holdId tenantId : String)
  | release (holdId : String) (reason : Json)
  | audit (event : HoldAudit)

abbrev HoldQuery.Response : HoldQuery → Type
  | .invoice _ _ => Option Invoice
  | .existing _ => Option HoldRow
  | .insert _ => HoldRow
  | .find _ _ => Option HoldRow
  | .release _ _ => Option HoldRow
  | .audit _ => Unit

abbrev Handler := Interaction HoldQuery HoldQuery.Response HoldReply

def settle (reply : HoldReply) : Handler := .done (.ok reply)

/- A statement inside the handler's `try`, which turns every other error into a 500. -/
def select (detail : String) (q : HoldQuery) (next : q.Response → Handler) : Handler :=
  (Interaction.query q).attempt fun r =>
    match r with
    | .error _ => settle (.failed (internalError detail))
    | .ok a => next a

/- `emitRetentionAuditSafely`. -/
def audited (event : HoldAudit) (reply : HoldReply) : Handler :=
  (Interaction.query (.audit event)).attempt fun _ => settle reply

def createdEvent (tenantId : String) (hold : HoldRow) : HoldAudit :=
  ⟨"retention.legal_hold.create", hold.id, none, some hold, tenantId⟩

def releasedEvent (tenantId holdId : String) (hold : HoldRow) (after : Option HoldRow) :
    HoldAudit :=
  ⟨"retention.legal_hold.release", holdId, some hold, after, tenantId⟩

def createHold (formats : Formats) (tenantId userId : Option String) (body : Option Json) :
    Handler :=
  let detail := "Failed to create legal hold"
  match parseHold formats body, tenantId with
  | none, _ => settle .invalid
  | some _, none => settle (.failed (internalError detail))
  | some data, some tenantId =>
    select detail (.invoice data.invoiceId tenantId) fun invoice =>
      match invoice with
      | none => settle (.failed invoiceNotFound)
      | some _ =>
        select detail (.existing data.invoiceId) fun existingHold =>
          match existingHold with
          | some _ => settle (.failed alreadyExists)
          | none =>
            select detail (.insert ⟨tenantId, data, userId⟩) fun hold =>
              audited (createdEvent tenantId hold) (.created hold)

/- `releaseReason || 'Released by user'`; there is nothing to read it from in no body or null. -/
def releaseReason : Option Json → Option Json
  | none | some .null => none
  | some body => jsOr (body.member "releaseReason") (some (.str "Released by user"))

def releaseHold (tenantId : Option String) (holdId : String) (body : Option Json) : Handler :=
  let detail := "Failed to release legal hold"
  match releaseReason body, tenantId with
  | some reason, some tenantId =>
    select detail (.find holdId tenantId) fun found =>
      match found with
      | none => settle (.failed holdNotFound)
      | some hold =>
        select detail (.release holdId reason) fun releasedHold =>
          audited (releasedEvent tenantId holdId hold releasedHold) (.released releasedHold)
  | _, _ => settle (.failed (internalError detail))

def respond (formats : Formats) (req : HoldRequest) : Handler :=
  match req.route with
  | .create body => createHold formats req.tenantId req.userId body
  | .release holdId body => releaseHold req.tenantId holdId body

/-! ### What a request asks -/

def HoldRequest.Places (formats : Formats) (req : HoldRequest) (new : NewHold) : Prop :=
  req.tenantId = some new.tenantId ∧ req.userId = new.placedBy ∧
    ∃ body, req.route = .create body ∧ parseHold formats body = some new.data

def HoldRequest.Releases (req : HoldRequest) (tenantId holdId : String) (reason : Json) : Prop :=
  req.tenantId = some tenantId ∧
    ∃ body, req.route = .release holdId body ∧ releaseReason body = some reason

/- What a request goes by: the last answer it has had, and what it has asked for. -/
inductive Told where
  | nothing
  | unheld (invoiceId : String)
  | placed (new : NewHold) (hold : HoldRow)
  | found (holdId tenantId : String) (hold : HoldRow)
  | released (holdId tenantId : String) (hold : HoldRow) (reason : Json) (after : Option HoldRow)

def tells : Told → (q : HoldQuery) → Except String q.Response → Told
  | _, .existing invoiceId, .ok none => .unheld invoiceId
  | _, .insert new, .ok hold => .placed new hold
  | _, .find holdId tenantId, .ok (some hold) => .found holdId tenantId hold
  | .found _ tenantId hold, .release holdId reason, .ok after =>
    .released holdId tenantId hold reason after
  | _, _, _ => .nothing

/-- A hold is placed right after no active one was found on its invoice, a hold is released
right after it was found, and an event names what was written. -/
def Entitled (formats : Formats) (req : HoldRequest) : Told → HoldQuery → Prop
  | .unheld invoiceId, .insert new => new.data.invoiceId = invoiceId ∧ req.Places formats new
  | _, .insert _ => False
  | .found holdId tenantId _, .release holdId' reason =>
    holdId' = holdId ∧ req.Releases tenantId holdId reason
  | _, .release _ _ => False
  | .placed new hold, .audit event => event = createdEvent new.tenantId hold
  | .released holdId tenantId hold _ after, .audit event =>
    event = releasedEvent tenantId holdId hold after
  | _, .audit _ => False
  | _, _ => True

abbrev Asks (formats : Formats) (req : HoldRequest) (program : Handler) (told : Told) : Prop :=
  program.Meets (Entitled formats req) (fun g q r g' => g' = tells g q r) (fun _ _ => True) told

section Asks
variable {formats : Formats} {req : HoldRequest} {told : Told}

theorem asks_select {detail : String} {q : HoldQuery} {next : q.Response → Handler}
    (hq : Entitled formats req told q)
    (h : ∀ a, Asks formats req (next a) (tells told q (.ok a))) :
    Asks formats req (select detail q next) told := by
  refine meets_query hq ?_
  rintro r g rfl
  cases r with
  | error message => trivial
  | ok a => exact h a

theorem asks_audited {event : HoldAudit} {reply : HoldReply}
    (h : Entitled formats req told (.audit event)) :
    Asks formats req (audited event reply) told :=
  meets_query h fun _ _ _ => trivial

theorem asks_createHold {body : Option Json} (hroute : req.route = .create body) :
    Asks formats req (createHold formats req.tenantId req.userId body) .nothing := by
  unfold createHold
  dsimp only
  split
  · trivial
  · trivial
  · next data tenantId hdata htenant =>
    refine asks_select trivial fun invoice => ?_
    cases invoice with
    | none => trivial
    | some _ =>
      refine asks_select trivial fun existing => ?_
      cases existing with
      | some _ => trivial
      | none =>
        have hplaces : req.Places formats ⟨tenantId, data, req.userId⟩ :=
          ⟨htenant, rfl, body, hroute, hdata⟩
        exact asks_select ⟨rfl, hplaces⟩ fun hold => asks_audited rfl

theorem asks_releaseHold {holdId : String} {body : Option Json}
    (hroute : req.route = .release holdId body) :
    Asks formats req (releaseHold req.tenantId holdId body) .nothing := by
  unfold releaseHold
  dsimp only
  split
  · next reason tenantId hreason htenant =>
    refine asks_select trivial fun found => ?_
    cases found with
    | none => trivial
    | some hold =>
      have hreleases : req.Releases tenantId holdId reason := ⟨htenant, body, hroute, hreason⟩
      exact asks_select ⟨rfl, hreleases⟩ fun after => asks_audited rfl
  · trivial

theorem asks_respond (formats : Formats) (req : HoldRequest) :
    Asks formats req (respond formats req) .nothing := by
  unfold respond
  cases hroute : req.route with
  | create body => exact asks_createHold hroute
  | release holdId body => exact asks_releaseHold hroute

end Asks

/-! ### The database -/

structure HoldTable where
  rows : List HoldRow
  nodup : (rows.map fun h => h.id).Nodup

def NewHold.row (new : NewHold) (id : String) : HoldRow where
  id := id
  tenantId := new.tenantId
  invoiceId := some new.data.invoiceId
  status := .active
  expiresAt := new.data.expiresAt
  holdReason := new.data.holdReason
  holdType := new.data.holdType
  placedBy := new.placedBy
  releasedAt := none
  releaseReason := none

def HoldRow.release (h : HoldRow) (now : ℕ) (reason : Json) : HoldRow :=
  { h with status := .released, releasedAt := some now, releaseReason := some reason }

def HoldTable.add (t : HoldTable) (h : HoldRow) : Option HoldTable :=
  if hid : h.id ∈ t.rows.map fun h => h.id then none
  else some
    { rows := t.rows ++ [h]
      nodup := by
        rw [List.map_append, List.nodup_append]
        refine ⟨t.nodup, by simp, fun a ha b hb hab => hid ?_⟩
        rw [List.map_singleton, List.mem_singleton] at hb
        rw [← hb, ← hab]
        exact ha }

def HoldTable.release (t : HoldTable) (holdId : String) (now : ℕ) (reason : Json) : HoldTable where
  rows := updateWhere (fun h => decide (h.id = holdId)) (fun h => h.release now reason) t.rows
  nodup := by
    have hids : ((updateWhere (fun h => decide (h.id = holdId)) (fun h => h.release now reason)
        t.rows).map fun h => h.id) = t.rows.map fun h => h.id := by
      unfold updateWhere
      rw [List.map_map]
      refine List.map_congr_left fun h _ => ?_
      rw [Function.comp_apply]
      split
      · rfl
      · rfl
    rw [hids]
    exact t.nodup

structure HoldDb (π : Type) where
  table : HoldTable
  invoices : List Invoice
  audit : List HoldAudit
  clock : ℕ
  seen : π → ℕ

/- The session that sends a statement, and the key the database draws. -/
structure HoldEnv (π : Type) where
  session : π
  elapsed : ℕ
  failure : Option String
  id : String

/- A hold on the invoice that stops a second one. -/
def live (invoiceId : String) (now : ℕ) (h : HoldRow) : Bool :=
  decide (h.invoiceId = some invoiceId) && h.activeAt now

section Database
variable {π : Type} [DecidableEq π]

def executeAt (e : HoldEnv π) (db : HoldDb π) (now : ℕ) (q : HoldQuery) :
    Except String q.Response × HoldDb π :=
  match q with
  | .invoice invoiceId tenantId =>
    (.ok (db.invoices.find? fun i =>
      decide (i.id = invoiceId) && decide (i.tenantId = tenantId) && decide (i.deletedAt = none)),
      db)
  | .existing invoiceId =>
    (.ok (db.table.rows.find? (live invoiceId now)),
      { db with seen := Function.update db.seen e.session db.table.rows.length })
  | .insert new =>
    match db.table.add (new.row e.id) with
    | none => (.error "duplicate key value violates unique constraint", db)
    | some table => (.ok (new.row e.id), { db with table := table })
  | .find holdId tenantId =>
    (.ok (db.table.rows.find? fun h =>
      decide (h.id = holdId) && decide (h.tenantId = tenantId) && decide (h.status = .active)), db)
  | .release holdId reason =>
    (.ok ((db.table.rows.find? fun h => decide (h.id = holdId)).map fun h => h.release now reason),
      { db with table := db.table.release holdId now reason })
  | .audit event => (.ok (), { db with audit := db.audit ++ [event] })

def execute (e : HoldEnv π) (db : HoldDb π) (q : HoldQuery) :
    Except String q.Response × HoldDb π :=
  match e.failure with
  | some message => (.error message, { db with clock := db.clock + e.elapsed })
  | none => executeAt e { db with clock := db.clock + e.elapsed } (db.clock + e.elapsed) q

abbrev HoldServer (π : Type) :=
  Concurrent π (HoldDb π) HoldQuery HoldQuery.Response HoldReply

def HoldServer.start (formats : Formats) (requests : π → HoldRequest) (db : HoldDb π) :
    HoldServer π :=
  ⟨db, fun p => respond formats (requests p)⟩

/- The next statement of a request, sent by its own session. -/
def HoldServer.step (s : HoldServer π) (e : HoldEnv π) : HoldServer π :=
  Concurrent.step execute s (e.session, e)

end Database

end Liquifact.Retention.HoldRoutes
