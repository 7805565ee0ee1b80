import Liquifact.Escrow.EscrowRead
import Liquifact.Jobs.EscrowIndexer

/-!
# Which strings are invoice identifiers

Three patterns decide: that of `validateInvoiceId` (`src/services/escrowRead.js`, 118-150), which
allows dots and colons after the first character, that of the indexer
(`src/jobs/escrowIndexer.js`, 15), which allows neither, and that of the summary cache
(`src/cache/redis.js`, 127-129), which allows colons. The first two look at the trimmed string.

`deriveInvoiceId` (escrowIndexer.js 72-129) looks for the identifier of an event record in its
labelled fields and then under its contract address. A field is `none` when it is null or
undefined and its text otherwise.
-/

namespace Liquifact.Jobs
open Liquifact.Lib Liquifact.Escrow

/-! ### Deriving the identifier of a record -/

structure InvoiceLabels where
  invoice_id : Option String
  invoiceId : Option String

def InvoiceLabels.toList (labels : InvoiceLabels) : List (Option String) :=
  [labels.invoice_id, labels.invoiceId]

/- `value` and an entry of `topics` or `topic` is `none` when it is not an object, `topics` and
`topic` when they are no array, `contract_id` when it is falsy. -/
structure EventRecord where
  explicit : InvoiceLabels
  value : Option InvoiceLabels
  topics : Option (List (Option InvoiceLabels))
  topic : Option (List (Option InvoiceLabels))
  contract_id : Option String

/- The `isValid` of `deriveInvoiceId`. -/
def validCandidate (candidate : Option String) : Option String :=
  candidate.bind fun text => if isInvoiceId (trim text) then some (trim text) else none

/- The labelled fields in the order in which they are looked at. -/
def EventRecord.labels (record : EventRecord) : List (Option String) :=
  record.explicit.toList ++ record.value.toList.flatMap InvoiceLabels.toList ++
    ((record.topics.orElse fun _ => record.topic).getD []).flatMap fun topic =>
      topic.toList.flatMap InvoiceLabels.toList

def lookupContract (checksum : String → Option Bool) (reverseLookup : String → Option String)
    (contractId : String) : Option String :=
  match reverseLookup contractId with
  | none => none
  | some resolved =>
    if resolved = contractId ∨ isValidStellarContractId checksum resolved = true then none
    else validCandidate (some resolved)

def deriveInvoiceId (checksum : String → Option Bool) (reverseLookup : String → Option String)
    (record : Option EventRecord) : Option String :=
  record.bind fun record =>
    match record.labels.findSome? validCandidate with
    | some invoiceId => some invoiceId
    | none => record.contract_id.bind (lookupContract checksum reverseLookup)

/-! ### The three patterns on one string -/

/- The first labelled field that is there holds the string. -/
def EventRecord.Carries (record : EventRecord) (s : String) : Prop :=
  record.labels.find? Option.isSome = some (some s)

/- An event that some identifier would let in. -/
def OtherwiseAccepted (checksum : String → Option Bool) (now : String) (raw : RawEvent) : Prop :=
  ∃ id e, normalizeEvent checksum now (some { raw with invoiceId := some id }) = .ok e

structure SameMeaning (s : String) : Prop where
  indexed : ∀ checksum now raw, OtherwiseAccepted checksum now raw →
    ∃ e, normalizeEvent checksum now (some { raw with invoiceId := some s }) = .ok e ∧ e.invoiceId = s
  derived : ∀ checksum reverseLookup record, EventRecord.Carries record s →
    deriveInvoiceId checksum reverseLookup (some record) = some s
  cached : isValidInvoiceId s = true

theorem normalizeEvent_renamed {checksum : String → Option Bool} {now : String} {raw : RawEvent}
    (h : OtherwiseAccepted checksum now raw) {s : String} (hs : isInvoiceId (trim s) = true) :
    ∃ e, normalizeEvent checksum now (some { raw with invoiceId := some s }) = .ok e ∧
      e.invoiceId = trim s := by
  obtain ⟨id, e, h⟩ := h
  obtain ⟨raw', hraw, h⟩ := bind_ok h
  cases hraw
  obtain ⟨_, -, h⟩ := bind_ok h
  obtain ⟨_, hevent, h⟩ := bind_ok h
  obtain ⟨_, htype, h⟩ := bind_ok h
  obtain ⟨ledger, hledger, h⟩ := bind_ok h
  obtain ⟨_, hcontract, h⟩ := bind_ok h
  obtain ⟨_, hhash, h⟩ := bind_ok h
  refine ⟨⟨trim (raw.eventId.getD ""), trim s, trim (raw.eventType.getD ""), ledger,
    trim (raw.pagingToken.getD ""), raw.contractId.map trim, raw.txHash.map trim,
    raw.eventBody.getD (.obj []), raw.observedAt.getD now⟩, ?_, rfl⟩
  unfold normalizeEvent
  refine (bind_of rfl).trans ((bind_of (require_of hs)).trans ?_)
  refine (bind_of (require_of (require_ok hevent))).trans ?_
  refine (bind_of (require_of (require_ok htype))).trans ((bind_of hledger).trans ?_)
  exact (bind_of (require_of (require_ok hcontract))).trans (bind_of (require_of (require_ok hhash)))

theorem validCandidate_eq_some_iff {text id : String} :
    validCandidate (some text) = some id ↔ isInvoiceId (trim text) = true ∧ trim text = id := by
  unfold validCandidate
  by_cases h : isInvoiceId (trim text) = true
  · simp [h]
  · simp [h]

theorem findSome_of_find {labels : List (Option String)} {s id : String}
    (hfirst : labels.find? Option.isSome = some (some s)) (hvalid : validCandidate (some s) = some id) :
    labels.findSome? validCandidate = some id := by
  induction labels with
  | nil => cases hfirst
  | cons label rest ih =>
    cases label with
    | none =>
      have hnone : validCandidate none = none := rfl
      rw [List.find?_cons_of_neg (by simp)] at hfirst
      rw [List.findSome?_cons, hnone]
      exact ih hfirst
    | some text =>
      rw [List.find?_cons_of_pos (by simp), Option.some.injEq, Option.some.injEq] at hfirst
      rw [List.findSome?_cons, hfirst, hvalid]

theorem deriveInvoiceId_of_carries {checksum : String → Option Bool}
    {reverseLookup : String → Option String} {record : EventRecord} {s id : String}
    (h : record.Carries s) (hvalid : validCandidate (some s) = some id) :
    deriveInvoiceId checksum reverseLookup (some record) = some id := by
  rw [deriveInvoiceId, Option.bind_some, findSome_of_find h hvalid]

/- A record with the identifier in its first field and nothing else. -/
def explicitRecord (s : String) : EventRecord := ⟨⟨some s, none⟩, none, none, none, none⟩

theorem explicitRecord_carries (s : String) : (explicitRecord s).Carries s := rfl

theorem deriveInvoiceId_explicit (checksum : String → Option Bool)
    (reverseLookup : String → Option String) (s : String) :
    deriveInvoiceId checksum reverseLookup (some (explicitRecord s)) = validCandidate (some s) := by
  have hlabels : (explicitRecord s).labels = [some s, none] := rfl
  have hnone : validCandidate none = none := rfl
  rw [deriveInvoiceId, Option.bind_some, hlabels, List.findSome?_cons]
  cases hvalid : validCandidate (some s) with
  | some id => rfl
  | none =>
    rw [List.findSome?_cons, hnone]
    rfl

/-! ### Where the patterns agree -/

/- What the read allows and the indexer does not. -/
theorem allowed_iff {c : Char} : isIdentifierChar ['.', '_', ':', '-'] c = true ↔
    (c.isAlphanum || c = '_' || c = '-') = true ∨ c = '.' ∨ c = ':' := by
  simp only [isIdentifierChar, List.contains_cons, List.contains_nil, Bool.or_eq_true, beq_iff_eq,
    Bool.or_false, decide_eq_true_eq]
  tauto

theorem isIdentifierChar_colon {c : Char} (h : (c.isAlphanum || c = '_' || c = '-') = true) :
    isIdentifierChar [':', '_', '-'] c = true := by
  simp only [isIdentifierChar, List.contains_cons, List.contains_nil, Bool.or_eq_true, beq_iff_eq,
    Bool.or_false, decide_eq_true_eq] at h ⊢
  rcases h with (h | h) | h
  · exact Or.inl h
  · exact Or.inr (Or.inr (Or.inl h))
  · exact Or.inr (Or.inr (Or.inr h))

theorem allowed_of_matches {t : String} (h : matchesInvoiceIdRe t = true) :
    ∀ c ∈ t.toList, isIdentifierChar ['.', '_', ':', '-'] c = true := by
  unfold matchesInvoiceIdRe at h
  split at h
  · cases h
  · next first rest heq =>
    obtain ⟨hchars, -⟩ := Bool.and_eq_true_iff.mp h
    obtain ⟨hfirst, hrest⟩ := Bool.and_eq_true_iff.mp hchars
    rw [heq]
    intro c hc
    rcases List.mem_cons.mp hc with rfl | hc
    · exact Bool.or_eq_true_iff.mpr (Or.inl hfirst)
    · exact List.all_eq_true.mp hrest c hc

theorem patterns_agree {t : String} (hread : matchesInvoiceIdRe t = true) (hdot : '.' ∉ t.toList)
    (hcolon : ':' ∉ t.toList) : isInvoiceId t = true ∧ isValidInvoiceId t = true := by
  have hlength : 1 ≤ t.toList.length ∧ t.toList.length ≤ 128 := by
    unfold matchesInvoiceIdRe at hread
    split at hread
    · cases hread
    · next c cs heq =>
      have hcs := of_decide_eq_true (Bool.and_eq_true_iff.mp hread).2
      rw [heq, List.length_cons]
      omega
  have hplain : ∀ c ∈ t.toList, (c.isAlphanum || c = '_' || c = '-') = true := by
    intro c hc
    rcases allowed_iff.mp (allowed_of_matches hread c hc) with hplain | rfl | rfl
    · exact hplain
    · exact absurd hc hdot
    · exact absurd hc hcolon
  constructor
  · unfold isInvoiceId
    rw [String.length_toList] at hlength
    rw [decide_eq_true hlength.1, decide_eq_true hlength.2, Bool.true_and, Bool.true_and]
    exact List.all_eq_true.mpr hplain
  · unfold isValidInvoiceId
    rw [decide_eq_true hlength, Bool.true_and]
    exact List.all_eq_true.mpr fun c hc => isIdentifierChar_colon (hplain c hc)

theorem plain_of_isInvoiceId {t : String} (h : isInvoiceId t = true) :
    '.' ∉ t.toList ∧ ':' ∉ t.toList := by
  have hall := (Bool.and_eq_true_iff.mp h).2
  rw [List.all_eq_true] at hall
  constructor
  · intro hmem
    exact absurd (hall _ hmem) (by decide)
  · intro hmem
    exact absurd (hall _ hmem) (by decide)

/-- For every string that `validateInvoiceId` accepts: the indexer takes it and derives it as it
stands, and the summary cache takes it, if and only if it has no white space around it and
neither a dot nor a colon in it. -/
theorem same_meaning_iff (s id : String) (h : validateInvoiceId (.string s) = .ok id) :
    SameMeaning s ↔ trim s = s ∧ '.' ∉ s.toList ∧ ':' ∉ s.toList := by
  have hread : matchesInvoiceIdRe (trim s) = true := by
    simp only [validateInvoiceId] at h
    split at h
    · cases h
    · split at h
      · rename_i hmatch
        exact hmatch
      · cases h
  constructor
  · intro hsame
    have hderived := hsame.derived (fun _ => none) (fun _ => none) _ (explicitRecord_carries s)
    rw [deriveInvoiceId_explicit, validCandidate_eq_some_iff] at hderived
    obtain ⟨hvalid, htrim⟩ := hderived
    rw [htrim] at hvalid
    exact ⟨htrim, plain_of_isInvoiceId hvalid⟩
  · rintro ⟨htrim, hdot, hcolon⟩
    rw [htrim] at hread
    obtain ⟨hindexed, hcached⟩ := patterns_agree hread hdot hcolon
    have htrimmed : isInvoiceId (trim s) = true := by rw [htrim]; exact hindexed
    refine ⟨?_, ?_, hcached⟩
    · intro checksum now raw haccepted
      obtain ⟨e, he, hid⟩ := normalizeEvent_renamed haccepted htrimmed
      exact ⟨e, he, hid.trans htrim⟩
    · intro checksum reverseLookup record hcarries
      exact deriveInvoiceId_of_carries hcarries (validCandidate_eq_some_iff.mpr ⟨htrimmed, htrim⟩)

theorem same_meaning_plain : validateInvoiceId (.string "inv_1") = .ok "inv_1" ∧
    (SameMeaning "inv_1" ↔ trim "inv_1" = "inv_1" ∧ '.' ∉ "inv_1".toList ∧ ':' ∉ "inv_1".toList) := by
  have h : validateInvoiceId (.string "inv_1") = .ok "inv_1" := by decide
  exact ⟨h, same_meaning_iff "inv_1" "inv_1" h⟩

theorem colon_not_indexed : ¬ ∀ s id : String, validateInvoiceId (.string s) = .ok id → SameMeaning s := by
  intro h
  have haccepted : validateInvoiceId (.string "inv:1") = .ok "inv:1" := by decide
  have hderived := (h _ _ haccepted).derived (fun _ => none) (fun _ => none) _
    (explicitRecord_carries "inv:1")
  rw [deriveInvoiceId_explicit] at hderived
  exact absurd hderived (by decide)

end Liquifact.Jobs
