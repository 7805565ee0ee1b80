import Liquifact.Retention.HoldRoutes
import Mathlib.Data.List.Nodup

/-!
# Interleaved placements and releases

Any number of requests, for any tenants, statement by statement. The write of a release names
the hold only and does not check its status again: what was found before it is what makes it
one's own and active. The check of a placement and its `INSERT` are two statements.
-/

namespace Liquifact.Retention.HoldRoutes
open Liquifact.Lib
open Concurrent (Accounted)

/-! ### What becomes of a hold -/

section Kept
variable {π : Type} (formats : Formats) (requests : π → HoldRequest)

/- The hold as it was, or as a request of its own tenant to release it writes it. -/
def Later (h r : HoldRow) : Prop :=
  r = h ∨ ∃ p now reason, (requests p).Releases h.tenantId h.id reason ∧ r = h.release now reason

/-- What a row of the first table has become. -/
def Kept (h r : HoldRow) : Prop := r = h ∨ h.status = .active ∧ Later requests h r

/-- A row that was not in the first table. -/
def Placed (r : HoldRow) : Prop :=
  ∃ p new id, (requests p).Places formats new ∧ Later requests (new.row id) r

/-- The event of a placement shows the row that was inserted, the event of a release a hold
that was active and what was written over it; the hold is in the table. -/
inductive Vouched (rows : List HoldRow) : HoldAudit → Prop
  | created {p : π} {new : NewHold} {id : String} {r : HoldRow} :
    (requests p).Places formats new → r ∈ rows → Later requests (new.row id) r →
      Vouched rows (createdEvent new.tenantId (new.row id))
  | released {p : π} {h r : HoldRow} {now : ℕ} {reason : Json} :
    (requests p).Releases h.tenantId h.id reason → h.status = .active →
      r ∈ rows → Later requests h r → r.status = .released →
      Vouched rows (releasedEvent h.tenantId h.id h (some (h.release now reason)))

structure Descends (db₀ db : HoldDb π) : Prop where
  rows : ∃ kept added, db.table.rows = kept ++ added ∧
    List.Forall₂ (Kept requests) db₀.table.rows kept ∧ ∀ r ∈ added, Placed formats requests r
  audit : ∃ events, db.audit = db₀.audit ++ events ∧
    ∀ event ∈ events, Vouched formats requests db.table.rows event

/- What a request has been told, as it still stands. -/
def Borne (rows₀ rows : List HoldRow) (p : π) : Told → Prop
  | .nothing => True
  | .unheld _ => True
  | .placed new h => (requests p).Places formats new ∧ (∃ id, h = new.row id) ∧
    ∃ r ∈ rows, Later requests h r
  | .found holdId tenantId h => (h.id = holdId ∧ h.tenantId = tenantId ∧ h.status = .active) ∧
    (∃ r ∈ rows, Later requests h r) ∧ ∀ r ∈ rows₀, r.id = holdId → r.status = .active
  | .released holdId tenantId h reason after =>
    (h.id = holdId ∧ h.tenantId = tenantId ∧ h.status = .active) ∧
    (requests p).Releases tenantId holdId reason ∧ (∃ now, after = some (h.release now reason)) ∧
    ∃ r ∈ rows, Later requests h r ∧ r.status = .released

def Consistent (db₀ : HoldDb π) (record : π → Told) (db : HoldDb π) : Prop :=
  Descends formats requests db₀ db ∧
    ∀ p, Borne formats requests db₀.table.rows db.table.rows p (record p)

variable {formats requests} {h r r' : HoldRow} {rows rows' rows₀ : List HoldRow} {p : π}

theorem Later.id_eq (hr : Later requests h r) : r.id = h.id := by
  rcases hr with rfl | ⟨p, now, reason, -, rfl⟩
  · rfl
  · rfl

theorem Later.tenantId_eq (hr : Later requests h r) : r.tenantId = h.tenantId := by
  rcases hr with rfl | ⟨p, now, reason, -, rfl⟩
  · rfl
  · rfl

/- A second release writes over the first one. -/
theorem Later.release_eq (hr : Later requests h r) (now : ℕ) (reason : Json) :
    r.release now reason = h.release now reason := by
  rcases hr with rfl | ⟨p, now', reason', -, rfl⟩
  · rfl
  · rfl

theorem Later.trans (hr : Later requests h r) (hr' : Later requests r r') : Later requests h r' := by
  rcases hr' with rfl | ⟨p, now, reason, hreleases, rfl⟩
  · exact hr
  · rw [hr.id_eq, hr.tenantId_eq] at hreleases
    exact .inr ⟨p, now, reason, hreleases, hr.release_eq now reason⟩

theorem Later.released (hr : Later requests h r) (hh : h.status = .released) :
    r.status = .released := by
  rcases hr with rfl | ⟨p, now, reason, -, rfl⟩
  · exact hh
  · rfl

theorem Kept.later (hr : Kept requests h r) : Later requests h r := by
  rcases hr with hr | ⟨-, hr⟩
  · exact .inl hr
  · exact hr

theorem Kept.active (hr : Kept requests h r) (hactive : r.status = .active) : h.status = .active := by
  rcases hr with rfl | ⟨hh, -⟩
  · exact hactive
  · exact hh

/- Holds are added, and released by their own tenants. -/
def Evolves (requests : π → HoldRequest) (rows rows' : List HoldRow) : Prop :=
  ∀ r ∈ rows, ∃ r' ∈ rows', Later requests r r'

theorem Evolves.refl (rows : List HoldRow) : Evolves requests rows rows :=
  fun r hr => ⟨r, hr, .inl rfl⟩

theorem Evolves.later (hrows : Evolves requests rows rows')
    (hh : ∃ r ∈ rows, Later requests h r) : ∃ r ∈ rows', Later requests h r := by
  obtain ⟨r, hr, hlater⟩ := hh
  obtain ⟨r', hr', hlater'⟩ := hrows r hr
  exact ⟨r', hr', hlater.trans hlater'⟩

theorem Evolves.released (hrows : Evolves requests rows rows')
    (hh : ∃ r ∈ rows, Later requests h r ∧ r.status = .released) :
    ∃ r ∈ rows', Later requests h r ∧ r.status = .released := by
  obtain ⟨r, hr, hlater, hreleased⟩ := hh
  obtain ⟨r', hr', hlater'⟩ := hrows r hr
  exact ⟨r', hr', hlater.trans hlater', hlater'.released hreleased⟩

theorem Vouched.mono {event : HoldAudit} (hrows : Evolves requests rows rows')
    (h : Vouched formats requests rows event) : Vouched formats requests rows' event := by
  cases h with
  | created hplaces hr hlater =>
    obtain ⟨r', hr', hlater'⟩ := hrows.later ⟨_, hr, hlater⟩
    exact .created hplaces hr' hlater'
  | released hreleases hactive hr hlater hreleased =>
    obtain ⟨r', hr', hlater', hreleased'⟩ := hrows.released ⟨_, hr, hlater, hreleased⟩
    exact .released hreleases hactive hr' hlater' hreleased'

theorem Borne.mono {told : Told} (hrows : Evolves requests rows rows')
    (h : Borne formats requests rows₀ rows p told) : Borne formats requests rows₀ rows' p told := by
  cases told with
  | nothing => trivial
  | unheld invoiceId => trivial
  | placed new hold => exact ⟨h.1, h.2.1, hrows.later h.2.2⟩
  | found holdId tenantId hold => exact ⟨h.1, hrows.later h.2.1, h.2.2⟩
  | released holdId tenantId hold reason after =>
    exact ⟨h.1, h.2.1, h.2.2.1, hrows.released h.2.2.2⟩

theorem HoldTable.eq_of_id (t : HoldTable) (hr : r ∈ t.rows) (hr' : r' ∈ t.rows)
    (hid : r.id = r'.id) : r = r' :=
  List.inj_on_of_nodup_map t.nodup hr hr' hid

theorem HoldTable.find_id (t : HoldTable) {holdId : String} (hr : r ∈ t.rows) (hid : r.id = holdId) :
    t.rows.find? (fun h => decide (h.id = holdId)) = some r := by
  cases hfind : t.rows.find? fun h => decide (h.id = holdId) with
  | none => exact absurd (decide_eq_true hid) (List.find?_eq_none.mp hfind r hr)
  | some r' =>
    have hid' : r'.id = holdId := by simpa using List.find?_some hfind
    rw [t.eq_of_id (List.mem_of_find?_eq_some hfind) hr (hid'.trans hid.symm)]

theorem HoldTable.add_eq_some {t t' : HoldTable} (h : t.add r = some t') :
    t'.rows = t.rows ++ [r] := by
  unfold HoldTable.add at h
  split at h
  · cases h
  · cases h
    rfl

variable {db₀ db : HoldDb π} {record : π → Told}

/- Another statement's `Descends`, from the table it leaves and the events it adds. -/
theorem Descends.next (h : Descends formats requests db₀ db) {db' : HoldDb π}
    (hrows : ∃ kept added, db'.table.rows = kept ++ added ∧
      List.Forall₂ (Kept requests) db₀.table.rows kept ∧ ∀ r ∈ added, Placed formats requests r)
    (hevolves : Evolves requests db.table.rows db'.table.rows) (haudit : db'.audit = db.audit) :
    Descends formats requests db₀ db' := by
  obtain ⟨events, hevents, hvouched⟩ := h.audit
  refine ⟨hrows, events, haudit.trans hevents, fun event hevent => ?_⟩
  exact (hvouched event hevent).mono hevolves

theorem Descends.insert (h : Descends formats requests db₀ db) {new : NewHold} {id : String}
    {t : HoldTable} (hplaces : (requests p).Places formats new)
    (hadd : db.table.add (new.row id) = some t) :
    Descends formats requests db₀ { db with table := t } := by
  obtain ⟨kept, added, hrows, hkept, hadded⟩ := h.rows
  have ht := HoldTable.add_eq_some hadd
  refine h.next ⟨kept, added ++ [new.row id], ?_, hkept, fun r hr => ?_⟩ (fun r hr => ?_) rfl
  · rw [ht, hrows, List.append_assoc]
  · rcases List.mem_append.mp hr with hr | hr
    · exact hadded r hr
    · obtain rfl := List.mem_singleton.mp hr
      exact ⟨p, new, id, hplaces, .inl rfl⟩
  · rw [ht]
    exact ⟨r, List.mem_append_left _ hr, .inl rfl⟩

/- What was active when it was found was so in the first table. -/
theorem Descends.active_of_find (h : Descends formats requests db₀ db) (hr : r ∈ db.table.rows)
    (hactive : r.status = .active) (hh : r' ∈ db₀.table.rows) (hid : r'.id = r.id) :
    r'.status = .active := by
  obtain ⟨kept, added, hrows, hkept, -⟩ := h.rows
  obtain ⟨i, hi, rfl⟩ := List.mem_iff_getElem.mp hh
  have hlength := hkept.length_eq
  have hi' : i < kept.length := by omega
  have hlater : Kept requests (db₀.table.rows.get ⟨i, hi⟩) (kept.get ⟨i, hi'⟩) := hkept.get hi hi'
  have hmem : kept.get ⟨i, hi'⟩ ∈ db.table.rows := by
    rw [hrows]
    exact List.mem_append_left _ (List.get_mem ..)
  have heq : kept.get ⟨i, hi'⟩ = r :=
    db.table.eq_of_id hmem hr (hlater.later.id_eq.trans hid)
  rw [heq] at hlater
  exact hlater.active hactive

/- The hold found before is the one that is written. -/
theorem later_release {holdId tenantId : String} {reason : Json}
    (hreleases : (requests p).Releases tenantId holdId reason)
    (hfound : Borne formats requests db₀.table.rows db.table.rows p (.found holdId tenantId r))
    (now : ℕ) : ∀ r' ∈ db.table.rows, Later requests r'
      (if decide (r'.id = holdId) then r'.release now reason else r') := by
  obtain ⟨⟨rfl, rfl, -⟩, ⟨current, hcurrent, hlater⟩, -⟩ := hfound
  intro r' hr'
  split
  · next hid =>
    obtain rfl := db.table.eq_of_id hr' hcurrent
      ((of_decide_eq_true hid).trans hlater.id_eq.symm)
    rw [← hlater.id_eq, ← hlater.tenantId_eq] at hreleases
    exact .inr ⟨p, now, reason, hreleases, rfl⟩
  · exact .inl rfl

theorem evolves_release {holdId tenantId : String} {reason : Json}
    (hreleases : (requests p).Releases tenantId holdId reason)
    (hfound : Borne formats requests db₀.table.rows db.table.rows p (.found holdId tenantId r))
    (now : ℕ) : Evolves requests db.table.rows (db.table.release holdId now reason).rows :=
  fun r' hr' => ⟨_, mem_updateWhere.mpr ⟨r', hr', rfl⟩, later_release hreleases hfound now r' hr'⟩

theorem Descends.release (h : Descends formats requests db₀ db) {holdId tenantId : String}
    {reason : Json} (hreleases : (requests p).Releases tenantId holdId reason)
    (hfound : Borne formats requests db₀.table.rows db.table.rows p (.found holdId tenantId r))
    (now : ℕ) : Descends formats requests db₀
      { db with table := db.table.release holdId now reason } := by
  obtain ⟨kept, added, hrows, hkept, hadded⟩ := h.rows
  have hlater := later_release hreleases hfound now
  refine h.next
    ⟨kept.map fun r' => if decide (r'.id = holdId) then r'.release now reason else r',
      added.map fun r' => if decide (r'.id = holdId) then r'.release now reason else r',
      ?_, ?_, ?_⟩ (evolves_release hreleases hfound now) rfl
  · rw [← List.map_append, ← hrows]
    rfl
  · refine List.forall₂_map_right_iff.mpr
      (List.forall₂_iff_get.mpr ⟨hkept.length_eq, fun i hi hi' => ?_⟩)
    have hkept' : Kept requests (db₀.table.rows.get ⟨i, hi⟩) (kept.get ⟨i, hi'⟩) := hkept.get hi hi'
    have hmem : kept.get ⟨i, hi'⟩ ∈ db.table.rows := by
      rw [hrows]
      exact List.mem_append_left _ (List.get_mem ..)
    have hlater' := hkept'.later.trans (hlater _ hmem)
    split
    · next hid =>
      rw [if_pos hid] at hlater'
      have hid' := hkept'.later.id_eq.symm.trans (of_decide_eq_true hid)
      exact .inr ⟨hfound.2.2 _ (List.get_mem ..) hid', hlater'⟩
    · exact hkept'
  · intro r' hr'
    obtain ⟨r₁, hr₁, rfl⟩ := List.mem_map.mp hr'
    obtain ⟨p', new, id, hplaces, hadded'⟩ := hadded r₁ hr₁
    have hmem : r₁ ∈ db.table.rows := by
      rw [hrows]
      exact List.mem_append_right _ hr₁
    exact ⟨p', new, id, hplaces, hadded'.trans (hlater r₁ hmem)⟩

theorem Descends.audit_append (h : Descends formats requests db₀ db) {event : HoldAudit}
    (hevent : Vouched formats requests db.table.rows event) :
    Descends formats requests db₀ { db with audit := db.audit ++ [event] } := by
  obtain ⟨events, hevents, hvouched⟩ := h.audit
  refine ⟨h.rows, events ++ [event], ?_, fun event' hevent' => ?_⟩
  · rw [← List.append_assoc, ← hevents]
  · rcases List.mem_append.mp hevent' with hevent' | hevent'
    · exact hvouched event' hevent'
    · obtain rfl := List.mem_singleton.mp hevent'
      exact hevent

theorem tells_error (told : Told) (q : HoldQuery) (message : String) :
    tells told q (.error message) = .nothing := by
  cases told <;> cases q <;> rfl

theorem tells_audit (told : Told) (event : HoldAudit) (answer : Except String Unit) :
    tells told (.audit event) answer = .nothing := by
  cases told <;> rfl

theorem tells_invoice (told : Told) (invoiceId tenantId : String)
    (answer : Except String (Option Invoice)) :
    tells told (.invoice invoiceId tenantId) answer = .nothing := by
  cases told <;> rfl

variable [DecidableEq π]

theorem Consistent.next (h : Consistent formats requests db₀ record db) {db' : HoldDb π}
    {told : Told} (hdescends : Descends formats requests db₀ db')
    (hevolves : Evolves requests db.table.rows db'.table.rows)
    (htold : Borne formats requests db₀.table.rows db'.table.rows p told) :
    Consistent formats requests db₀ (Function.update record p told) db' := by
  refine ⟨hdescends, fun p' => ?_⟩
  by_cases hp : p' = p
  · subst hp
    rw [Function.update_self]
    exact htold
  · rw [Function.update_of_ne hp]
    exact (h.2 p').mono hevolves

theorem consistent_executeAt (h : Consistent formats requests db₀ record db) (e : HoldEnv π)
    (now : ℕ) (q : HoldQuery) (hq : Entitled formats (requests p) (record p) q) :
    Consistent formats requests db₀
      (Function.update record p (tells (record p) q (executeAt e db now q).1))
      (executeAt e db now q).2 := by
  have hp := h.2 p
  generalize record p = told at hp hq ⊢
  cases q with
  | invoice invoiceId tenantId =>
    rw [tells_invoice]
    exact h.next h.1 (Evolves.refl _) trivial
  | existing invoiceId =>
    refine h.next ⟨h.1.rows, h.1.audit⟩ (Evolves.refl _) ?_
    simp only [executeAt]
    cases db.table.rows.find? (live invoiceId now) with
    | none => cases told <;> trivial
    | some r => cases told <;> trivial
  | insert new =>
    cases told with
    | unheld invoiceId =>
      simp only [executeAt]
      cases hadd : db.table.add (new.row e.id) with
      | none => exact h.next h.1 (Evolves.refl _) trivial
      | some t =>
        have hrows := HoldTable.add_eq_some hadd
        refine h.next (h.1.insert hq.2 hadd) (fun r hr => ⟨r, ?_, .inl rfl⟩)
          ⟨hq.2, ⟨e.id, rfl⟩, new.row e.id, ?_, .inl rfl⟩
        · rw [hrows]
          exact List.mem_append_left _ hr
        · rw [hrows]
          exact List.mem_append_right _ (List.mem_singleton_self _)
    | _ => cases hq
  | find holdId tenantId =>
    refine h.next h.1 (Evolves.refl _) ?_
    simp only [executeAt]
    cases hfind : db.table.rows.find? fun h =>
        decide (h.id = holdId) && decide (h.tenantId = tenantId) && decide (h.status = .active) with
    | none => cases told <;> trivial
    | some r =>
      have hr := List.mem_of_find?_eq_some hfind
      have hcond := List.find?_some hfind
      simp only [Bool.and_eq_true, decide_eq_true_eq] at hcond
      obtain ⟨⟨hid, htenant⟩, hactive⟩ := hcond
      have hborne : Borne formats requests db₀.table.rows db.table.rows p
          (.found holdId tenantId r) := by
        refine ⟨⟨hid, htenant, hactive⟩, ⟨r, hr, .inl rfl⟩, fun r₀ hr₀ hid₀ => ?_⟩
        exact h.1.active_of_find hr hactive hr₀ (hid₀.trans hid.symm)
      cases told <;> exact hborne
  | release holdId reason =>
    cases told with
    | found holdId' tenantId hold =>
      obtain ⟨rfl, hreleases⟩ := hq
      refine h.next (h.1.release hreleases hp now) (evolves_release hreleases hp now) ?_
      obtain ⟨⟨rfl, rfl, hactive⟩, ⟨r, hr, hlater⟩, -⟩ := hp
      refine ⟨⟨rfl, rfl, hactive⟩, hreleases, ⟨now, ?_⟩, r.release now reason, ?_, ?_, rfl⟩
      · rw [db.table.find_id hr hlater.id_eq, Option.map_some, hlater.release_eq]
      · exact mem_updateWhere.mpr ⟨r, hr, if_pos (decide_eq_true hlater.id_eq)⟩
      · exact .inr ⟨p, now, reason, hreleases, hlater.release_eq now reason⟩
    | _ => cases hq
  | audit event =>
    rw [tells_audit]
    refine h.next (h.1.audit_append ?_) (Evolves.refl _) trivial
    cases told with
    | placed new hold =>
      obtain rfl := hq
      obtain ⟨hplaces, ⟨id, rfl⟩, r, hr, hlater⟩ := hp
      exact .created hplaces hr hlater
    | released holdId tenantId hold reason after =>
      obtain rfl := hq
      obtain ⟨⟨rfl, rfl, hactive⟩, hreleases, ⟨now', rfl⟩, r, hr, hlater, hreleased⟩ := hp
      exact .released hreleases hactive hr hlater hreleased
    | _ => cases hq

theorem consistent_recorded : Concurrent.Recorded (@execute π _)
    (fun p => Entitled formats (requests p)) (fun told q answer told' => told' = tells told q answer)
    (Consistent formats requests db₀) (fun _ _ _ _ => True) := by
  intro record p e db q h hq _
  refine ⟨_, rfl, ?_⟩
  unfold execute
  cases e.failure with
  | some message =>
    rw [tells_error]
    exact h.next ⟨h.1.rows, h.1.audit⟩ (Evolves.refl _) trivial
  | none =>
    have hlater : Consistent formats requests db₀ record { db with clock := db.clock + e.elapsed } :=
      ⟨⟨h.1.rows, h.1.audit⟩, h.2⟩
    exact consistent_executeAt hlater e _ q hq

/-- After any interleaving of requests, failing statements included, the holds are those there
were, in their order, and then holds that requests placed for their own tenants. A hold is as
it was, or it was active and is as the last release by its own tenant wrote it: nothing else
about it changes, and none becomes active again. Each new audit event tells a placement, or
the release of a hold that had been active. -/
theorem holds_kept (formats : Formats) (requests : π → HoldRequest) (db₀ : HoldDb π)
    (es : List (HoldEnv π)) :
    Descends formats requests db₀
      (run HoldServer.step (HoldServer.start formats requests db₀) es).store := by
  have hend := run_keeps HoldServer.step
    (Accounted (fun p => Entitled formats (requests p))
      (fun told q answer told' => told' = tells told q answer) (Consistent formats requests db₀))
    (fun s e hs => hs.step consistent_recorded fun _ _ => trivial)
    (HoldServer.start formats requests db₀) es ?_
  · obtain ⟨record, -, hdescends, -⟩ := hend
    exact hdescends
  · refine ⟨fun _ => .nothing, fun p => asks_respond formats (requests p), ⟨?_, ?_⟩, ?_⟩
    · refine ⟨db₀.table.rows, [], (List.append_nil _).symm, ?_, ?_⟩
      · exact List.forall₂_same.mpr fun r _ => .inl rfl
      · rintro r ⟨⟩
    · refine ⟨[], (List.append_nil _).symm, ?_⟩
      rintro event ⟨⟩
    · exact fun _ => trivial

end Kept

/-! ### One active hold on an invoice -/

section OneHold
variable {π : Type}

/-- No two holds on one invoice are active. -/
def OneHold (db : HoldDb π) : Prop :=
  ∀ h ∈ db.table.rows, ∀ h' ∈ db.table.rows, h.invoiceId ≠ none → h.invoiceId = h'.invoiceId →
    h.activeAt db.clock = true → h'.activeAt db.clock = true → h = h'

/- The row that an `INSERT` adds. -/
def placed (e : HoldEnv π) (db : HoldDb π) : HoldQuery → Option HoldRow
  | .insert new =>
    if e.failure = none ∧ e.id ∉ db.table.rows.map (fun h => h.id) then some (new.row e.id) else none
  | _ => none

/-- A hold that has not expired is inserted when none is active of the holds placed on its
invoice since its request looked. -/
def NoneSince (db : HoldDb π) (e : HoldEnv π) (q : HoldQuery) : Prop :=
  ∀ h, placed e db q = some h → h.activeAt (db.clock + e.elapsed) = true →
    ∀ r ∈ db.table.rows.drop (db.seen e.session), r.invoiceId = h.invoiceId →
      r.activeAt (db.clock + e.elapsed) = false

def HoldServer.NoneSince (s : HoldServer π) (e : HoldEnv π) : Prop :=
  ∀ q, s.asked e.session = some q → HoldRoutes.NoneSince s.store e q

/- The holds there were when a request found none active are not. -/
def Looked (record : π → Told) (db : HoldDb π) : Prop :=
  ∀ p invoiceId, record p = .unheld invoiceId → db.seen p ≤ db.table.rows.length ∧
    ∀ r ∈ db.table.rows.take (db.seen p), r.invoiceId = some invoiceId →
      r.activeAt db.clock = false

variable {record : π → Told} {db : HoldDb π}

theorem activeAt_later {h : HoldRow} {t t' : ℕ} (ht : t ≤ t') (hactive : h.activeAt t' = true) :
    h.activeAt t = true := by
  by_contra hinactive
  have := activeAt_mono ht (Bool.not_eq_true _ ▸ hinactive)
  simp [this] at hactive

theorem OneHold.elapse (h : OneHold db) (elapsed : ℕ) :
    OneHold { db with clock := db.clock + elapsed } := by
  intro r hr r' hr' hinvoice hsame hactive hactive'
  have ht := Nat.le_add_right db.clock elapsed
  exact h r hr r' hr' hinvoice hsame (activeAt_later ht hactive) (activeAt_later ht hactive')

theorem Looked.elapse (h : Looked record db) (elapsed : ℕ) :
    Looked record { db with clock := db.clock + elapsed } := by
  intro p invoiceId hp
  refine ⟨(h p invoiceId hp).1, fun r hr hinvoice => ?_⟩
  exact activeAt_mono (Nat.le_add_right ..) ((h p invoiceId hp).2 r hr hinvoice)

theorem active_of_release {r : HoldRow} {holdId : String} {now t : ℕ} {reason : Json}
    (h : (if decide (r.id = holdId) then r.release now reason else r).activeAt t = true) :
    (if decide (r.id = holdId) then r.release now reason else r) = r ∧ r.activeAt t = true := by
  split at h
  · simp [HoldRow.release, LegalHold.activeAt] at h
  · next hid => exact ⟨if_neg hid, h⟩

theorem OneHold.release (h : OneHold db) (holdId : String) (now : ℕ) (reason : Json) :
    OneHold { db with table := db.table.release holdId now reason } := by
  intro r hr r' hr' hinvoice hsame hactive hactive'
  obtain ⟨r₁, hr₁, rfl⟩ := mem_updateWhere.mp hr
  obtain ⟨r₂, hr₂, rfl⟩ := mem_updateWhere.mp hr'
  obtain ⟨heq₁, hactive₁⟩ := active_of_release hactive
  obtain ⟨heq₂, hactive₂⟩ := active_of_release hactive'
  rw [heq₁, heq₂] at hsame
  rw [heq₁] at hinvoice
  rw [heq₁, heq₂]
  exact h r₁ hr₁ r₂ hr₂ hinvoice hsame hactive₁ hactive₂

theorem Looked.release (h : Looked record db) (holdId : String) (now : ℕ) (reason : Json) :
    Looked record { db with table := db.table.release holdId now reason } := by
  intro p invoiceId hp
  obtain ⟨hlength, hinactive⟩ := h p invoiceId hp
  refine ⟨?_, fun r hr hinvoice => ?_⟩
  · simp only [HoldTable.release, updateWhere, List.length_map]
    exact hlength
  · simp only [HoldTable.release, updateWhere, ← List.map_take] at hr
    obtain ⟨r₁, hr₁, rfl⟩ := List.mem_map.mp hr
    by_contra hactive
    obtain ⟨heq, hactive₁⟩ := active_of_release (Bool.not_eq_false _ ▸ hactive)
    rw [heq] at hinvoice
    rw [hinactive r₁ hr₁ hinvoice] at hactive₁
    cases hactive₁

theorem placed_of_add {e : HoldEnv π} {new : NewHold} {t : HoldTable} (hfailure : e.failure = none)
    (hadd : db.table.add (new.row e.id) = some t) :
    placed e db (.insert new) = some (new.row e.id) := by
  unfold HoldTable.add at hadd
  split at hadd
  · cases hadd
  · next hid => exact if_pos ⟨hfailure, hid⟩

theorem OneHold.insert (h : OneHold db) {row : HoldRow} {t : HoldTable}
    (hadd : db.table.add row = some t)
    (hinactive : row.activeAt db.clock = true → ∀ r ∈ db.table.rows, r.invoiceId = row.invoiceId →
      r.activeAt db.clock = false) : OneHold { db with table := t } := by
  have hrows := HoldTable.add_eq_some hadd
  intro r hr r' hr' hinvoice hsame hactive hactive'
  dsimp only at hr hr' hactive hactive'
  rw [hrows] at hr hr'
  rcases List.mem_append.mp hr with hold | hnew
  · rcases List.mem_append.mp hr' with hold' | hnew'
    · exact h r hold r' hold' hinvoice hsame hactive hactive'
    · obtain rfl := List.mem_singleton.mp hnew'
      rw [hinactive hactive' r hold hsame] at hactive
      cases hactive
  · obtain rfl := List.mem_singleton.mp hnew
    rcases List.mem_append.mp hr' with hold' | hnew'
    · rw [hinactive hactive r' hold' hsame.symm] at hactive'
      cases hactive'
    · exact (List.mem_singleton.mp hnew').symm

theorem Looked.insert (h : Looked record db) {row : HoldRow} {t : HoldTable}
    (hadd : db.table.add row = some t) : Looked record { db with table := t } := by
  have hrows := HoldTable.add_eq_some hadd
  intro p invoiceId hp
  obtain ⟨hlength, hinactive⟩ := h p invoiceId hp
  dsimp only
  rw [hrows, List.take_append_of_le_length hlength, List.length_append]
  exact ⟨Nat.le_add_right_of_le hlength, hinactive⟩

variable [DecidableEq π]

theorem Looked.update (h : Looked record db) (p : π) {told : Told}
    (htold : ∀ invoiceId, told ≠ .unheld invoiceId) : Looked (Function.update record p told) db := by
  intro p' invoiceId hp'
  by_cases hp : p' = p
  · subst hp
    rw [Function.update_self] at hp'
    exact absurd hp' (htold invoiceId)
  · rw [Function.update_of_ne hp] at hp'
    exact h p' invoiceId hp'

/- No hold that was there is active when its request found none. -/
theorem Looked.look (h : Looked record db) (p : π) {told : Told}
    (htold : ∀ invoiceId, told = .unheld invoiceId →
      db.table.rows.find? (live invoiceId db.clock) = none) :
    Looked (Function.update record p told)
      { db with seen := Function.update db.seen p db.table.rows.length } := by
  intro p' invoiceId hp'
  by_cases hp : p' = p
  · subst hp
    rw [Function.update_self] at hp'
    simp only [Function.update_self, List.take_length]
    refine ⟨le_refl _, fun r hr hinvoice => ?_⟩
    have hlive := List.find?_eq_none.mp (htold invoiceId hp') r hr
    simpa [live, hinvoice] using hlive
  · rw [Function.update_of_ne hp] at hp'
    simp only [Function.update_of_ne hp]
    exact h p' invoiceId hp'

variable {formats : Formats} {requests : π → HoldRequest}

theorem oneHold_executeAt {p : π} {e : HoldEnv π} {q : HoldQuery} (hone : OneHold db)
    (hlooked : Looked record db) (hsession : e.session = p)
    (hq : Entitled formats (requests p) (record p) q) (hfailure : e.failure = none)
    (hnone : ∀ h, placed e db q = some h → h.activeAt db.clock = true →
      ∀ r ∈ db.table.rows.drop (db.seen e.session), r.invoiceId = h.invoiceId →
        r.activeAt db.clock = false) :
    OneHold (executeAt e db db.clock q).2 ∧
      Looked (Function.update record p (tells (record p) q (executeAt e db db.clock q).1))
        (executeAt e db db.clock q).2 := by
  subst hsession
  have hp := hlooked e.session
  generalize record e.session = told at hp hq ⊢
  cases q with
  | invoice invoiceId tenantId =>
    rw [tells_invoice]
    exact ⟨hone, hlooked.update _ (by rintro _ ⟨⟩)⟩
  | existing invoiceId =>
    refine ⟨hone, hlooked.look e.session fun invoiceId' htold => ?_⟩
    simp only [executeAt] at htold
    cases hfind : db.table.rows.find? (live invoiceId db.clock) with
    | none =>
      rw [hfind] at htold
      cases told <;> cases htold <;> exact hfind
    | some r =>
      rw [hfind] at htold
      cases told <;> cases htold
  | insert new =>
    cases told with
    | unheld invoiceId =>
      obtain ⟨rfl, -⟩ := hq
      simp only [executeAt]
      cases hadd : db.table.add (new.row e.id) with
      | none => exact ⟨hone, hlooked.update _ (by rintro _ ⟨⟩)⟩
      | some t =>
        refine ⟨hone.insert hadd fun hactive r hr hinvoice => ?_,
          (hlooked.insert hadd).update _ (by rintro _ ⟨⟩)⟩
        rw [← List.take_append_drop (db.seen e.session) db.table.rows] at hr
        rcases List.mem_append.mp hr with hseen | hlater
        · exact (hp _ rfl).2 r hseen hinvoice
        · exact hnone _ (placed_of_add hfailure hadd) hactive r hlater hinvoice
    | _ => cases hq
  | find holdId tenantId =>
    refine ⟨hone, hlooked.update _ fun invoiceId htold => ?_⟩
    simp only [executeAt] at htold
    generalize List.find? _ db.table.rows = found at htold
    cases found <;> cases told <;> cases htold
  | release holdId reason =>
    have hlooked' := hlooked.release holdId db.clock reason
    refine ⟨hone.release holdId db.clock reason, hlooked'.update _ fun invoiceId htold => ?_⟩
    cases told <;> cases htold
  | audit event =>
    rw [tells_audit]
    exact ⟨hone, hlooked.update _ (by rintro _ ⟨⟩)⟩

theorem oneHold_recorded : Concurrent.Recorded (@execute π _)
    (fun p => Entitled formats (requests p)) (fun told q answer told' => told' = tells told q answer)
    (fun record db => OneHold db ∧ Looked record db)
    (fun db p e q => e.session = p ∧ NoneSince db e q) := by
  rintro record p e db q ⟨hone, hlooked⟩ hq ⟨hsession, hnone⟩
  refine ⟨_, rfl, ?_⟩
  unfold execute
  cases hfailure : e.failure with
  | some message =>
    rw [tells_error]
    exact ⟨hone.elapse e.elapsed, (hlooked.elapse e.elapsed).update _ (by rintro _ ⟨⟩)⟩
  | none =>
    exact oneHold_executeAt (hone.elapse e.elapsed) (hlooked.elapse e.elapsed) hsession hq
      hfailure hnone

/- The row that a statement inserts is in the table after it. -/
theorem rows_of_placed {e : HoldEnv π} {q : HoldQuery} {h : HoldRow} (hplaced : placed e db q = some h) :
    (execute e db q).2.table.rows = db.table.rows ++ [h] ∧
      (execute e db q).2.clock = db.clock + e.elapsed ∧ h.invoiceId ≠ none ∧
      h.id ∉ db.table.rows.map fun h => h.id := by
  cases q with
  | insert new =>
    simp only [placed] at hplaced
    split at hplaced
    · next hcond =>
      cases hplaced
      obtain ⟨hfailure, hid⟩ := hcond
      have hadd : db.table.add (new.row e.id) = some _ := dif_neg hid
      simp only [execute, hfailure, executeAt, hadd]
      exact ⟨trivial, trivial, by rintro ⟨⟩, hid⟩
    · cases hplaced
  | _ => cases hplaced

/-- Where no two holds on an invoice are active, this stays so in every state of any interleaving
exactly when, at each `INSERT` of a hold that has not expired, none of the holds placed on the
invoice since its request looked is still active. -/
theorem one_hold_iff (formats : Formats) (requests : π → HoldRequest) (db : HoldDb π)
    (hone : OneHold db) (es : List (HoldEnv π)) :
    (∀ pre, pre <+: es →
      OneHold (run HoldServer.step (HoldServer.start formats requests db) pre).store) ↔
      Along HoldServer.step HoldServer.NoneSince (HoldServer.start formats requests db) es := by
  refine forall_prefix_iff_along_of HoldServer.step (fun _ _ => True) HoldServer.NoneSince
    (Accounted (fun p => Entitled formats (requests p))
      (fun told q answer told' => told' = tells told q answer)
      (fun record db => OneHold db ∧ Looked record db)) (fun s => OneHold s.store)
    (fun s hs => ?_) (fun s e hs _ hnone => ?_) (fun s e hs _ hnext q hq h hplaced => ?_) _ es ?_
    (along_of_mem _ _ es fun _ _ => trivial)
  · obtain ⟨_, _, h, _⟩ := hs
    exact h
  · exact hs.step oneHold_recorded fun q hq => ⟨rfl, hnone q hq⟩
  · obtain ⟨hrows, hclock, hinvoice, hid⟩ := rows_of_placed hplaced
    rw [HoldServer.step, Concurrent.store_step hq, OneHold, hrows, hclock] at hnext
    intro hactive r hr hsame
    by_contra hrace
    have hmem := List.mem_of_mem_drop hr
    have heq := hnext h (List.mem_append_right _ (List.mem_singleton_self h)) r
      (List.mem_append_left _ hmem) hinvoice hsame.symm hactive (Bool.not_eq_false _ ▸ hrace)
    subst heq
    exact hid (List.mem_map_of_mem hmem)
  · refine ⟨fun _ => .nothing, fun p => asks_respond formats (requests p), hone, ?_⟩
    rintro p invoiceId ⟨⟩

end OneHold

def sampleFormats : Formats := ⟨fun _ => true, fun _ => none⟩

def samplePlacement : HoldRequest where
  tenantId := some "tenant-a"
  userId := none
  route := .create (some (.obj [("invoiceId", .str "inv-1"), ("holdReason", .str "dispute"),
    ("holdType", .str "audit")]))

def sampleHoldDb : HoldDb Bool :=
  ⟨⟨[], List.nodup_nil⟩, [sampleInvoice "inv-1" none], [], 0, fun _ => 0⟩

def sends (p : Bool) (id : String) : HoldEnv Bool := ⟨p, 0, none, id⟩

/- Two placements look, and then both insert. -/
def bothPlaced : List (HoldEnv Bool) :=
  [sends false "", sends true "", sends false "", sends true "", sends false "hold-1",
    sends true "hold-2"]

def sampleHold (id : String) : HoldRow :=
  NewHold.row ⟨"tenant-a", ⟨"inv-1", "dispute", "audit", none⟩, none⟩ id

theorem one_hold_iff_race : ¬ Along HoldServer.step HoldServer.NoneSince
    (HoldServer.start sampleFormats (fun _ => samplePlacement) sampleHoldDb) bothPlaced := by
  have hone : OneHold sampleHoldDb := by
    rintro h ⟨⟩
  rw [← one_hold_iff sampleFormats (fun _ => samplePlacement) sampleHoldDb hone]
  intro h
  have hend := h bothPlaced (List.prefix_refl _)
  have hrows : (run HoldServer.step (HoldServer.start sampleFormats (fun _ => samplePlacement)
      sampleHoldDb) bothPlaced).store.table.rows = [sampleHold "hold-1", sampleHold "hold-2"] := rfl
  rw [OneHold, hrows] at hend
  have heq := hend (sampleHold "hold-1") (by simp) (sampleHold "hold-2") (by simp) (by rintro ⟨⟩)
    rfl rfl rfl
  exact absurd (congrArg (fun h => h.id) heq) (by decide)

end Liquifact.Retention.HoldRoutes
