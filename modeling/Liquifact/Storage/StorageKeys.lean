import Liquifact.Lib.Fallible
import Liquifact.Lib.PosixPath

/-!
# Object keys of uploaded files (`services/storage.js`)

A key is `tenants/<tenant>/invoices/<invoice>/<uuid>-<file name>`. An argument that is not
a string is `none`. Path traversal is looked for in the normalised name, before NUL
characters are taken out of it: dots that only these keep apart come together afterwards.
-/

namespace Liquifact.Storage
open Liquifact.Lib PosixPath

structure StorageError where
  message : String
  code : String
  deriving DecidableEq

def nul : UInt16 := 0

def backslash : UInt16 := 0x5C

def underscore : UInt16 := 0x5F

def hyphen : UInt16 := 0x2D

/- `[<>:\"|?*\\/]`. -/
def isReserved (u : UInt16) : Bool := (units "<>:\"|?*\\/").contains u

def sanitizeFilename (filename : Option Units) : Except StorageError Units :=
  match filename with
  | none => .error ⟨"Invalid filename", "INVALID_FILENAME"⟩
  | some filename =>
    if filename = [] then .error ⟨"Invalid filename", "INVALID_FILENAME"⟩
    else
      let normalized := normalize filename
      if includes [dot, dot] normalized ∨ normalized.head? = some slash ∨
          normalized.head? = some backslash then
        .error ⟨"Path traversal detected", "INVALID_FILENAME"⟩
      else
        let name := (basename normalized).filter fun u => u != nul
        .ok ((name.map fun u => if isReserved u then underscore else u).take 255)

/- `[a-zA-Z0-9_-]`. -/
def isIdUnit (u : UInt16) : Bool :=
  (0x61 ≤ u && u ≤ 0x7A) || (0x41 ≤ u && u ≤ 0x5A) || (0x30 ≤ u && u ≤ 0x39) ||
    u == underscore || u == hyphen

/- `typeof id === 'string' && /^[a-zA-Z0-9_-]+$/.test(id)`, with the id. -/
def validId (id : Option Units) : Option Units :=
  id.filter fun id => !id.isEmpty && id.all isIdUnit

def validateTenantId (tenantId : Option Units) : Option Units := validId tenantId

def validateInvoiceId (invoiceId : Option Units) : Option Units := validId invoiceId

/-- A result of `crypto.randomUUID()`: hexadecimal digits and hyphens. -/
structure Uuid where
  text : Units
  hex : ∀ u ∈ text, (0x30 ≤ u ∧ u ≤ 0x39) ∨ (0x61 ≤ u ∧ u ≤ 0x66) ∨ u = hyphen

def generateKeyOf (uuid : Uuid) (tenantId invoiceId : Option Units) (safeName : Units) :
    Except StorageError Units :=
  match validateTenantId tenantId with
  | none => .error ⟨"Invalid tenant ID", "INVALID_TENANT_ID"⟩
  | some tenantId =>
    match validateInvoiceId invoiceId with
    | none => .error ⟨"Invalid invoice ID", "INVALID_INVOICE_ID"⟩
    | some invoiceId =>
      .ok (units "tenants/" ++ tenantId ++ units "/invoices/" ++ invoiceId ++ units "/" ++
        uuid.text ++ units "-" ++ safeName)

/- `generateKey({ tenantId, invoiceId, fileName })`; an upload makes its key in the same way. -/
def generateKey (uuid : Uuid) (tenantId invoiceId fileName : Option Units) :
    Except StorageError Units := do
  let safeName ← sanitizeFilename fileName
  generateKeyOf uuid tenantId invoiceId safeName

/-! ### Dots that come together -/

/-- Within the first `n` units of a name without its NUL characters, a dot follows a dot. -/
def DotsMeet (n : ℕ) (name : Units) : Prop :=
  ∃ front between rest, name = front ++ dot :: (between ++ dot :: rest) ∧
    (∀ u ∈ between, u = nul) ∧ (front.filter fun u => u != nul).length + 2 ≤ n

theorem filter_eq_nil_of_nul {l : Units} (h : ∀ u ∈ l, u = nul) :
    (l.filter fun u => u != nul) = [] := by
  rw [List.filter_eq_nil_iff]
  intro u hu
  simp [h u hu]

theorem dots_infix_iff (n : ℕ) (name : Units) :
    [dot, dot] <:+: (name.filter fun u => u != nul).take n ↔ DotsMeet n name := by
  constructor
  · rintro ⟨x, y, hxy⟩
    have hlen := congrArg List.length hxy
    simp only [List.length_append, List.length_cons, List.length_nil, List.length_take] at hlen
    have hall : (name.filter fun u => u != nul) =
        x ++ dot :: dot :: (y ++ (name.filter fun u => u != nul).drop n) := by
      calc (name.filter fun u => u != nul)
          = (name.filter fun u => u != nul).take n ++ (name.filter fun u => u != nul).drop n :=
            (List.take_append_drop n _).symm
        _ = _ := by simp [← hxy]
    obtain ⟨front, tail, rfl, hfront, htail⟩ := List.filter_eq_append_iff.mp hall
    obtain ⟨skipped, after, rfl, hskipped, -, hafter⟩ := List.filter_eq_cons_iff.mp htail
    obtain ⟨between, rest, rfl, hbetween, -, -⟩ := List.filter_eq_cons_iff.mp hafter
    have hnul : ∀ u ∈ skipped, u = nul := fun u hu => by simpa using hskipped u hu
    refine ⟨front ++ skipped, between, rest, by simp, fun u hu => by simpa using hbetween u hu, ?_⟩
    rw [List.filter_append, hfront, filter_eq_nil_of_nul hnul, List.append_nil]
    omega
  · rintro ⟨front, between, rest, rfl, hbetween, hlen⟩
    have hcons : ∀ l : Units, ((dot :: l).filter fun u => u != nul) =
        dot :: l.filter fun u => u != nul := fun l => List.filter_cons_of_pos (by decide)
    have hpre : (front.filter fun u => u != nul) ++ [dot, dot] <+:
        ((front ++ dot :: (between ++ dot :: rest)).filter fun u => u != nul) := by
      refine ⟨rest.filter fun u => u != nul, ?_⟩
      rw [List.filter_append, hcons, List.filter_append, filter_eq_nil_of_nul hbetween, hcons]
      simp
    have htake : (front.filter fun u => u != nul) ++ [dot, dot] <+:
        ((front ++ dot :: (between ++ dot :: rest)).filter fun u => u != nul).take n :=
      List.prefix_take_iff.mpr ⟨hpre, by simpa using hlen⟩
    exact (List.suffix_append _ _).isInfix.trans htake.isInfix

theorem dots_infix_map_iff {f : UInt16 → UInt16} (hf : ∀ u, f u = dot ↔ u = dot) (l : Units) :
    [dot, dot] <:+: l.map f ↔ [dot, dot] <:+: l := by
  constructor
  · rintro ⟨x, y, hxy⟩
    obtain ⟨front, rest, rfl, hfront, -⟩ := List.map_eq_append_iff.mp hxy.symm
    obtain ⟨head, mid, rfl, -, hmid⟩ := List.map_eq_append_iff.mp hfront
    rw [List.map_eq_cons_iff] at hmid
    obtain ⟨a, as, rfl, ha, hmid⟩ := hmid
    obtain ⟨b, bs, rfl, hb, hnil⟩ := List.map_eq_cons_iff.mp hmid
    rw [List.map_eq_nil_iff] at hnil
    rw [(hf a).mp ha, (hf b).mp hb, hnil]
    exact ⟨head, rest, rfl⟩
  · intro h
    have hmap := h.map f
    rwa [List.map_cons, List.map_cons, List.map_nil, (hf dot).mpr rfl] at hmap

theorem dots_infix_append {front : Units} (hfront : dot ∉ front) (l : Units) :
    [dot, dot] <:+: front ++ l ↔ [dot, dot] <:+: l := by
  induction front with
  | nil => rfl
  | cons u front ih =>
    rw [List.mem_cons, not_or] at hfront
    rw [List.cons_append, List.infix_cons_iff, ih hfront.2]
    refine or_iff_right ?_
    intro hpre
    exact hfront.1 (List.cons_prefix_cons.mp hpre).1

/-! ### Accepted arguments -/

theorem validId_eq_some {id : Option Units} {text : Units} (h : validId id = some text) :
    id = some text ∧ text ≠ [] ∧ ∀ u ∈ text, isIdUnit u = true := by
  obtain ⟨hid, hvalid⟩ := Option.filter_eq_some_iff.mp h
  simp only [Bool.and_eq_true, Bool.not_eq_true', List.isEmpty_eq_false_iff, List.all_eq_true]
    at hvalid
  exact ⟨hid, hvalid.1, hvalid.2⟩

theorem sanitizeFilename_ok {filename : Option Units} {safeName : Units}
    (h : sanitizeFilename filename = .ok safeName) :
    ∃ text, filename = some text ∧ ¬ [dot, dot] <:+: normalize text ∧
      safeName = (((basename (normalize text)).filter fun u => u != nul).map
        fun u => if isReserved u then underscore else u).take 255 := by
  cases filename with
  | none => cases h
  | some text =>
    simp only [sanitizeFilename] at h
    split at h
    · cases h
    · split at h
      · cases h
      · rename_i hsafe
        cases h
        exact ⟨text, rfl, fun hdots => hsafe (.inl ((includes_iff _ _).mpr hdots)), rfl⟩

theorem generateKey_ok {uuid : Uuid} {tenantId invoiceId fileName : Option Units} {key : Units}
    (h : generateKey uuid tenantId invoiceId fileName = .ok key) :
    ∃ tenant invoice safeName, validId tenantId = some tenant ∧ validId invoiceId = some invoice ∧
      sanitizeFilename fileName = .ok safeName ∧
      key = units "tenants/" ++ tenant ++ units "/invoices/" ++ invoice ++ units "/" ++
        uuid.text ++ units "-" ++ safeName := by
  obtain ⟨safeName, hname, h⟩ := bind_ok h
  simp only [generateKeyOf, validateTenantId, validateInvoiceId] at h
  split at h
  · cases h
  · rename_i tenant htenant
    split at h
    · cases h
    · rename_i invoice hinvoice
      cases h
      exact ⟨tenant, invoice, safeName, htenant, hinvoice, hname, rfl⟩

/-! ### The segments of a key -/

/-- The part of a key that an upload makes up itself. -/
def lastSegment (uuid : Uuid) (safeName : Units) : Units := uuid.text ++ hyphen :: safeName

theorem not_mem_of_isIdUnit {u : UInt16} {text : Units} (hu : isIdUnit u = false)
    (htext : ∀ v ∈ text, isIdUnit v = true) : u ∉ text :=
  fun h => Bool.false_ne_true (hu.symm.trans (htext u h))

theorem Uuid.isIdUnit (uuid : Uuid) : ∀ u ∈ uuid.text, isIdUnit u = true := by
  intro u hu
  have hup : u ≤ 0x66 → u ≤ 0x7A := fun h => UInt16.le_trans h (by decide)
  rcases uuid.hex u hu with h | h | rfl
  · simp [Storage.isIdUnit, h]
  · simp [Storage.isIdUnit, h.1, hup h.2]
  · decide

theorem mem_safeName {text : Units} {n : ℕ} {u : UInt16}
    (hu : u ∈ ((text.filter fun u => u != nul).map
      fun u => if isReserved u then underscore else u).take n) :
    isReserved u = false ∧ u ≠ nul := by
  obtain ⟨v, hv, hvu⟩ := List.mem_map.mp (List.mem_of_mem_take hu)
  have hnul : v ≠ nul := by simpa using (List.mem_filter.mp hv).2
  by_cases hreserved : isReserved v = true
  · rw [if_pos hreserved] at hvu
    subst hvu
    decide
  · rw [if_neg hreserved] at hvu
    subst hvu
    exact ⟨Bool.not_eq_true _ ▸ hreserved, hnul⟩

theorem key_segments {uuid : Uuid} {tenant invoice safeName : Units}
    (htenant : ∀ u ∈ tenant, isIdUnit u = true) (hinvoice : ∀ u ∈ invoice, isIdUnit u = true)
    (hlast : slash ∉ lastSegment uuid safeName) :
    (units "tenants/" ++ tenant ++ units "/invoices/" ++ invoice ++ units "/" ++
        uuid.text ++ units "-" ++ safeName).splitOn slash =
      [units "tenants", tenant, units "invoices", invoice, lastSegment uuid safeName] := by
  have hslash : Storage.isIdUnit slash = false := by decide
  have hjoin : units "tenants/" ++ tenant ++ units "/invoices/" ++ invoice ++ units "/" ++
        uuid.text ++ units "-" ++ safeName =
      [slash].intercalate
        [units "tenants", tenant, units "invoices", invoice, lastSegment uuid safeName] := by
    have hfirst : units "tenants/" = units "tenants" ++ [slash] := by decide
    have hsecond : units "/invoices/" = slash :: units "invoices" ++ [slash] := by decide
    have hthird : units "/" = [slash] := by decide
    have hfourth : units "-" = [hyphen] := by decide
    simp [hfirst, hsecond, hthird, hfourth, List.intercalate, lastSegment]
  rw [hjoin]
  apply List.splitOn_intercalate
  · intro segment hsegment
    simp only [List.mem_cons, List.not_mem_nil, or_false] at hsegment
    rcases hsegment with rfl | rfl | rfl | rfl | rfl
    · decide
    · exact not_mem_of_isIdUnit hslash htenant
    · decide
    · exact not_mem_of_isIdUnit hslash hinvoice
    · exact hlast
  · exact List.cons_ne_nil _ _

/- What no id contains, and the file name has lost. -/
theorem not_mem_lastSegment (uuid : Uuid) (text : Units) (n : ℕ) {u : UInt16}
    (hid : isIdUnit u = false) (hlost : isReserved u = true ∨ u = nul) :
    u ∉ lastSegment uuid (((text.filter fun u => u != nul).map
      fun u => if isReserved u then underscore else u).take n) := by
  intro h
  rcases List.mem_append.mp h with h | h
  · exact not_mem_of_isIdUnit hid uuid.isIdUnit h
  · rcases List.mem_cons.mp h with rfl | h
    · exact absurd hid (by decide)
    · obtain ⟨hreserved, hnul⟩ := mem_safeName h
      rcases hlost with hlost | hlost
      · exact Bool.false_ne_true (hreserved.symm.trans hlost)
      · exact hnul hlost

/-- What is promised of a key. -/
def Contained (tenantId invoiceId : Option Units) (key : Units) : Prop :=
  ∃ tenant invoice last, tenantId = some tenant ∧ invoiceId = some invoice ∧
    key.splitOn slash = [units "tenants", tenant, units "invoices", invoice, last] ∧
    slash ∉ last ∧ backslash ∉ last ∧ nul ∉ last ∧ ¬ [dot, dot] <:+: last

theorem dots_infix_lastSegment (uuid : Uuid) (name : Units) :
    [dot, dot] <:+: lastSegment uuid
        (((name.filter fun u => u != nul).map
          fun u => if isReserved u then underscore else u).take 255) ↔ DotsMeet 255 name := by
  have hreplace : ∀ u, (if isReserved u then underscore else u) = dot ↔ u = dot := by
    intro u
    by_cases hreserved : isReserved u = true
    · rw [if_pos hreserved]
      refine iff_of_false (by decide) ?_
      rintro rfl
      exact absurd hreserved (by decide)
    · rw [if_neg hreserved]
  have hfront : dot ∉ uuid.text ++ [hyphen] := by
    intro h
    rcases List.mem_append.mp h with h | h
    · exact not_mem_of_isIdUnit (by decide) uuid.isIdUnit h
    · exact absurd (List.mem_singleton.mp h) (by decide)
  rw [lastSegment, List.append_cons, dots_infix_append hfront, ← List.map_take,
    dots_infix_map_iff hreplace, dots_infix_iff]

/-- A key stays in its folder and its last segment is clean unless NUL characters keep two dots
apart in the base name that the file name has as a path. -/
theorem generateKey_contained_iff (uuid : Uuid) (tenantId invoiceId fileName : Option Units)
    (key : Units) (h : generateKey uuid tenantId invoiceId fileName = .ok key) :
    Contained tenantId invoiceId key ↔
      ¬ DotsMeet 255 (basename (normalize (fileName.getD []))) := by
  obtain ⟨tenant, invoice, safeName, htenant, hinvoice, hname, rfl⟩ := generateKey_ok h
  obtain ⟨rfl, -, htenant⟩ := validId_eq_some htenant
  obtain ⟨rfl, -, hinvoice⟩ := validId_eq_some hinvoice
  obtain ⟨text, rfl, -, rfl⟩ := sanitizeFilename_ok hname
  have hid : isIdUnit slash = false := by decide
  have hslash := not_mem_lastSegment uuid (basename (normalize text)) 255 hid (.inl (by decide))
  have hkey := key_segments htenant hinvoice hslash
  rw [Option.getD_some, ← dots_infix_lastSegment uuid]
  constructor
  · rintro ⟨t, i, last, -, -, hsegments, -, -, -, hdots⟩
    rw [hkey] at hsegments
    simp only [List.cons.injEq] at hsegments
    rw [hsegments.2.2.2.2.1]
    exact hdots
  · intro hdots
    refine ⟨tenant, invoice, _, rfl, rfl, hkey, hslash, ?_, ?_, hdots⟩
    · exact not_mem_lastSegment uuid _ _ (by decide) (.inl (by decide))
    · exact not_mem_lastSegment uuid _ _ (by decide) (.inr rfl)

def isHexUnit (u : UInt16) : Bool :=
  decide ((0x30 ≤ u ∧ u ≤ 0x39) ∨ (0x61 ≤ u ∧ u ≤ 0x66) ∨ u = hyphen)

theorem sampleText_hex :
    (units "1b4e28ba-2fa1-41d2-883f-0016d3cca427").all isHexUnit = true := by
  decide

def sampleUuid : Uuid where
  text := units "1b4e28ba-2fa1-41d2-883f-0016d3cca427"
  hex := fun u hu => of_decide_eq_true (List.all_eq_true.mp sampleText_hex u hu)

theorem generateKey_sample :
    generateKey sampleUuid (some (units "t1")) (some (units "inv-1")) (some (units "docs/scan.pdf")) =
      .ok (units "tenants/t1/invoices/inv-1/1b4e28ba-2fa1-41d2-883f-0016d3cca427-scan.pdf") := by
  decide

theorem generateKey_contained_sample :
    Contained (some (units "t1")) (some (units "inv-1"))
      (units "tenants/t1/invoices/inv-1/1b4e28ba-2fa1-41d2-883f-0016d3cca427-scan.pdf") := by
  refine (generateKey_contained_iff sampleUuid _ _ _ _ generateKey_sample).mpr ?_
  rw [← dots_infix_iff, ← includes_iff]
  decide

/- The NUL character is taken out after the search for two dots. -/
theorem generateKey_not_contained :
    generateKey sampleUuid (some (units "t1")) (some (units "inv-1")) (some (units "a.\x00.b")) =
        .ok (units "tenants/t1/invoices/inv-1/1b4e28ba-2fa1-41d2-883f-0016d3cca427-a..b") ∧
      ¬ Contained (some (units "t1")) (some (units "inv-1"))
        (units "tenants/t1/invoices/inv-1/1b4e28ba-2fa1-41d2-883f-0016d3cca427-a..b") := by
  refine ⟨by decide, ?_⟩
  rintro ⟨tenant, invoice, last, -, -, hsegments, -, -, -, hdots⟩
  have hlast : last = units "1b4e28ba-2fa1-41d2-883f-0016d3cca427-a..b" := by
    have hget := congrArg List.getLast? hsegments
    rw [show [units "tenants", tenant, units "invoices", invoice, last].getLast? = some last from rfl]
      at hget
    rw [← Option.some_inj, ← hget]
    decide
  rw [hlast, ← includes_iff] at hdots
  exact absurd hdots (by decide)

end Liquifact.Storage
