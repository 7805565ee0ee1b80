import Liquifact.Lib.JsValue

/-!
# Redacting audit metadata (`src/services/auditLogStore.js`)

`redactValue` (24-46) copies a value and puts `***REDACTED***` in the place of what stands
under a sensitive key; `normalizeMetadata` (54-59) applies it to the metadata of an event.

A sensitive pattern is a choice of lower-case words, searched without regard to case. An
assignment to `__proto__` sets the prototype of the copy and adds no member.
-/

namespace Liquifact.Audit
open Liquifact.Lib

def redacted : Json := .str "***REDACTED***"

/- `api[-_]?key` and `private[-_]?key` are three words each. -/
def sensitiveKeyPatterns : List (List String) :=
  [["password"], ["secret"], ["token"], ["apikey", "api-key", "api_key"], ["authorization"],
    ["privatekey", "private-key", "private_key"], ["seed"], ["mnemonic"]]

/- `/word/i.test(key)`. -/
def testWord (key word : String) : Bool :=
  (key.toList.map Char.toLower).tails.any fun rest => word.toList.isPrefixOf rest

def isSensitive (key : String) : Bool :=
  sensitiveKeyPatterns.any fun pattern => pattern.any (testWord key)

/- `sanitized[key] = v`. -/
def assignProperty (key : String) (v : Json) (sanitized : List (String × Json)) :
    List (String × Json) :=
  if key = "__proto__" then sanitized else OrdMap.setL key v sanitized

mutual

/-- `redactValue` (`auditLogStore.js:24-46`). -/
def redactValue : Json → Json
  | .arr vs => .arr (redactItems vs)
  | .obj ms => .obj (redactMembers [] ms)
  | .null => .null
  | .bool b => .bool b
  | .num x => .num x
  | .str s => .str s

def redactItems : List Json → List Json
  | [] => []
  | v :: vs => redactValue v :: redactItems vs

def redactMembers (sanitized : List (String × Json)) : List (String × Json) → List (String × Json)
  | [] => sanitized
  | (key, v) :: ms =>
    if isSensitive key then redactMembers (assignProperty key redacted sanitized) ms
    else redactMembers (assignProperty key (redactValue v) sanitized) ms

end

/- `none` is undefined. -/
def normalizeMetadata : Option Json → Json
  | some (.arr vs) => redactValue (.arr vs)
  | some (.obj ms) => redactValue (.obj ms)
  | _ => .obj []

mutual

/- No object repeats a name, as none does, and no member is called `__proto__`. -/
def Ordinary : Json → Prop
  | .arr vs => OrdinaryItems vs
  | .obj ms => OrdinaryMembers ms ∧ (ms.map Prod.fst).Nodup ∧ "__proto__" ∉ ms.map Prod.fst
  | .null => True
  | .bool _ => True
  | .num _ => True
  | .str _ => True

def OrdinaryItems : List Json → Prop
  | [] => True
  | v :: vs => Ordinary v ∧ OrdinaryItems vs

def OrdinaryMembers : List (String × Json) → Prop
  | [] => True
  | (_, v) :: ms => Ordinary v ∧ OrdinaryMembers ms

end

mutual

/- The values differ in nothing but what stands under sensitive keys. -/
inductive SameButSecrets : Json → Json → Prop
  | refl (v : Json) : SameButSecrets v v
  | arr {vs ws : List Json} (h : SameItems vs ws) : SameButSecrets (.arr vs) (.arr ws)
  | obj {ms ns : List (String × Json)} (h : SameMembers ms ns) : SameButSecrets (.obj ms) (.obj ns)

inductive SameItems : List Json → List Json → Prop
  | nil : SameItems [] []
  | cons {v w : Json} {vs ws : List Json} (h : SameButSecrets v w) (hs : SameItems vs ws) :
    SameItems (v :: vs) (w :: ws)

inductive SameMembers : List (String × Json) → List (String × Json) → Prop
  | nil : SameMembers [] []
  | secret {key : String} (v w : Json) {ms ns : List (String × Json)} (hkey : isSensitive key = true)
    (hs : SameMembers ms ns) : SameMembers ((key, v) :: ms) ((key, w) :: ns)
  | cons (key : String) {v w : Json} {ms ns : List (String × Json)} (h : SameButSecrets v w)
    (hs : SameMembers ms ns) : SameMembers ((key, v) :: ms) ((key, w) :: ns)

end

inductive Step where
  | index (i : ℕ)
  | key (k : String)

/- The value at a place. -/
def valueAt : List Step → Json → Option Json
  | [], v => some v
  | .index i :: path, .arr vs => vs[i]?.bind (valueAt path)
  | .key k :: path, .obj ms => (OrdMap.lookupL k ms).bind (valueAt path)
  | _ :: _, _ => none

/- The place is not under a sensitive key. -/
def Public (path : List Step) : Prop := ∀ k, Step.key k ∈ path → isSensitive k = false

def isScalar : Json → Bool
  | .arr _ => false
  | .obj _ => false
  | _ => true

/-! ### Members -/

def redactMember (m : String × Json) : String × Json :=
  (m.1, if isSensitive m.1 then redacted else redactValue m.2)

theorem redactItems_eq (vs : List Json) : redactItems vs = vs.map redactValue := by
  induction vs with
  | nil => rfl
  | cons v vs ih => rw [redactItems, ih, List.map_cons]

/- Names that are new are appended in turn. -/
theorem redactMembers_eq {sanitized ms : List (String × Json)}
    (hproto : "__proto__" ∉ ms.map Prod.fst) (hnodup : ((sanitized ++ ms).map Prod.fst).Nodup) :
    redactMembers sanitized ms = sanitized ++ ms.map redactMember := by
  induction ms generalizing sanitized with
  | nil => simp [redactMembers]
  | cons m ms ih =>
    obtain ⟨key, v⟩ := m
    simp only [List.map_cons, List.mem_cons, not_or] at hproto
    have hnew : key ∉ sanitized.map Prod.fst := by
      rw [List.map_append, List.map_cons, List.nodup_append] at hnodup
      intro hmem
      exact hnodup.2.2 key hmem key (List.mem_cons_self ..) rfl
    have hassign : ∀ w, assignProperty key w sanitized = sanitized ++ [(key, w)] := by
      intro w
      rw [assignProperty, if_neg (Ne.symm hproto.1), OrdMap.setL_of_not_mem key w sanitized hnew]
    have hnodup' : ∀ w, ((sanitized ++ [(key, w)] ++ ms).map Prod.fst).Nodup := by
      intro w
      simpa using hnodup
    rw [redactMembers, hassign, hassign, ih hproto.2 (hnodup' _), ih hproto.2 (hnodup' _),
      List.map_cons, redactMember]
    split
    · simp
    · simp

theorem redactValue_obj {ms : List (String × Json)} (h : Ordinary (.obj ms)) :
    redactValue (.obj ms) = .obj (ms.map redactMember) := by
  simp only [Ordinary] at h
  have hmembers : redactMembers [] ms = [] ++ ms.map redactMember :=
    redactMembers_eq h.2.2 (by simpa using h.2.1)
  rw [redactValue, hmembers, List.nil_append]

theorem redactValue_scalar {v : Json} (h : isScalar v = true) : redactValue v = v := by
  cases v with
  | arr vs => cases h
  | obj ms => cases h
  | _ => simp only [redactValue]

theorem ordinaryItems_iff {vs : List Json} : OrdinaryItems vs ↔ ∀ v ∈ vs, Ordinary v := by
  induction vs with
  | nil => simp [OrdinaryItems]
  | cons v vs ih => simp [OrdinaryItems, ih]

theorem ordinaryMembers_iff {ms : List (String × Json)} :
    OrdinaryMembers ms ↔ ∀ m ∈ ms, Ordinary m.2 := by
  induction ms with
  | nil => simp [OrdinaryMembers]
  | cons m ms ih => simp [OrdinaryMembers, ih]

/-! ### Secrets do not show -/

mutual

theorem redactValue_same : {v w : Json} → SameButSecrets v w → Ordinary v → Ordinary w →
    redactValue v = redactValue w
  | _, _, .refl _, _, _ => rfl
  | _, _, .arr h, hv, hw => by
    simp only [Ordinary] at hv hw
    rw [redactValue, redactValue, redactItems_same h hv hw]
  | _, _, .obj h, hv, hw => by
    rw [redactValue_obj hv, redactValue_obj hw]
    simp only [Ordinary] at hv hw
    rw [redactMembers_same h hv.1 hw.1]

theorem redactItems_same : {vs ws : List Json} → SameItems vs ws → OrdinaryItems vs →
    OrdinaryItems ws → redactItems vs = redactItems ws
  | _, _, .nil, _, _ => rfl
  | _, _, .cons h hs, hv, hw => by
    simp only [OrdinaryItems] at hv hw
    rw [redactItems, redactItems, redactValue_same h hv.1 hw.1, redactItems_same hs hv.2 hw.2]

theorem redactMembers_same : {ms ns : List (String × Json)} → SameMembers ms ns →
    OrdinaryMembers ms → OrdinaryMembers ns → ms.map redactMember = ns.map redactMember
  | _, _, .nil, _, _ => rfl
  | _, _, .secret v w hkey hs, hm, hn => by
    simp only [OrdinaryMembers] at hm hn
    rw [List.map_cons, List.map_cons, redactMembers_same hs hm.2 hn.2, redactMember, redactMember,
      if_pos hkey, if_pos hkey]
  | _, _, .cons key h hs, hm, hn => by
    simp only [OrdinaryMembers] at hm hn
    rw [List.map_cons, List.map_cons, redactMembers_same hs hm.2 hn.2, redactMember, redactMember,
      redactValue_same h hm.1 hn.1]

end

/-! ### Nothing else changes -/

mutual

theorem same_redactValue : (v : Json) → Ordinary v →
    SameButSecrets v (redactValue v) ∧ Ordinary (redactValue v)
  | .arr vs, h => by
    simp only [Ordinary] at h
    obtain ⟨hsame, hord⟩ := same_redactItems vs h
    rw [redactValue]
    exact ⟨.arr hsame, by simpa only [Ordinary] using hord⟩
  | .obj ms, h => by
    rw [redactValue_obj h]
    simp only [Ordinary] at h ⊢
    obtain ⟨hsame, hord⟩ := same_redactMembers ms h.1
    have hkeys : (ms.map redactMember).map Prod.fst = ms.map Prod.fst := by
      rw [List.map_map]
      rfl
    rw [hkeys]
    exact ⟨.obj hsame, hord, h.2⟩
  | .null, _ => ⟨.refl _, by simp [redactValue, Ordinary]⟩
  | .bool b, _ => by
    rw [redactValue]
    exact ⟨.refl _, by simp only [Ordinary]⟩
  | .num x, _ => by
    rw [redactValue]
    exact ⟨.refl _, by simp only [Ordinary]⟩
  | .str s, _ => by
    rw [redactValue]
    exact ⟨.refl _, by simp only [Ordinary]⟩

theorem same_redactItems : (vs : List Json) → OrdinaryItems vs →
    SameItems vs (redactItems vs) ∧ OrdinaryItems (redactItems vs)
  | [], _ => ⟨.nil, trivial⟩
  | v :: vs, h => by
    simp only [OrdinaryItems] at h
    obtain ⟨hsame, hord⟩ := same_redactValue v h.1
    obtain ⟨hsames, hords⟩ := same_redactItems vs h.2
    rw [redactItems]
    exact ⟨.cons hsame hsames, by simpa only [OrdinaryItems] using ⟨hord, hords⟩⟩

theorem same_redactMembers : (ms : List (String × Json)) → OrdinaryMembers ms →
    SameMembers ms (ms.map redactMember) ∧ OrdinaryMembers (ms.map redactMember)
  | [], _ => ⟨.nil, trivial⟩
  | (key, v) :: ms, h => by
    simp only [OrdinaryMembers] at h
    obtain ⟨hsame, hord⟩ := same_redactValue v h.1
    obtain ⟨hsames, hords⟩ := same_redactMembers ms h.2
    rw [List.map_cons, redactMember]
    cases hkey : isSensitive key with
    | true => exact ⟨.secret _ _ hkey hsames, by simp [OrdinaryMembers, redacted, Ordinary, hords]⟩
    | false => exact ⟨.cons key hsame hsames, by simp [OrdinaryMembers, hord, hords]⟩

end

theorem lookupL_redactMember {k : String} (hkey : isSensitive k = false) (ms : List (String × Json)) :
    OrdMap.lookupL k (ms.map redactMember) = (OrdMap.lookupL k ms).map redactValue := by
  induction ms with
  | nil => rfl
  | cons m ms ih =>
    rw [List.map_cons, OrdMap.lookupL, OrdMap.lookupL, ih]
    by_cases hm : m.1 = k
    · rw [if_pos hm, if_pos (show (redactMember m).1 = k from hm), redactMember, hm, hkey]
      rfl
    · rw [if_neg hm, if_neg (show (redactMember m).1 ≠ k from hm)]

theorem valueAt_redactValue {path : List Step} (hpath : Public path) {v : Json} (h : Ordinary v) :
    valueAt path (redactValue v) = (valueAt path v).map redactValue := by
  induction path generalizing v with
  | nil => rfl
  | cons step path ih =>
    have hrest : Public path := fun k hk => hpath k (List.mem_cons_of_mem step hk)
    cases v with
    | arr vs =>
      rw [redactValue, redactItems_eq]
      cases step with
      | key k => rfl
      | index i =>
        simp only [Ordinary, ordinaryItems_iff] at h
        simp only [valueAt, List.getElem?_map]
        cases hi : vs[i]? with
        | none => rfl
        | some w => exact ih hrest (h w (List.mem_of_getElem? hi))
    | obj ms =>
      rw [redactValue_obj h]
      cases step with
      | index i => rfl
      | key k =>
        simp only [Ordinary, ordinaryMembers_iff] at h
        simp only [valueAt, lookupL_redactMember (hpath k (List.mem_cons_self ..))]
        cases hk : OrdMap.lookupL k ms with
        | none => rfl
        | some w => exact ih hrest (h.1 (k, w) (OrdMap.mem_of_lookupL k w ms hk))
    | _ => cases step <;> simp only [redactValue, valueAt, Option.map_none]

/-- Values that differ under sensitive keys alone have one redaction; a redaction differs from
its value under sensitive keys alone, and at every place that is not under such a key it has
the redaction of the value there, which is the value itself where this is no container; and a
second redaction changes nothing. -/
theorem redaction_exact :
    (∀ v w, Ordinary v → Ordinary w → SameButSecrets v w → redactValue v = redactValue w) ∧
    (∀ v, Ordinary v → SameButSecrets v (redactValue v) ∧
      ∀ path, Public path → valueAt path (redactValue v) = (valueAt path v).map redactValue ∧
        ∀ w, isScalar w = true → valueAt path v = some w → valueAt path (redactValue v) = some w) ∧
    (∀ v, Ordinary v → redactValue (redactValue v) = redactValue v) := by
  refine ⟨fun v w hv hw h => redactValue_same h hv hw, ?_, ?_⟩
  · intro v hv
    refine ⟨(same_redactValue v hv).1, fun path hpath => ⟨valueAt_redactValue hpath hv, ?_⟩⟩
    intro w hw hat
    rw [valueAt_redactValue hpath hv, hat, Option.map_some, redactValue_scalar hw]
  · intro v hv
    obtain ⟨hsame, hord⟩ := same_redactValue v hv
    exact (redactValue_same hsame hv hord).symm

/- What is stored of the metadata of an event is an object or an array. -/
theorem normalizeMetadata_container (metadata : Option Json) :
    isScalar (normalizeMetadata metadata) = false := by
  unfold normalizeMetadata
  split
  · simp [redactValue, isScalar]
  · simp [redactValue, isScalar]
  · rfl

def sampleMetadata (secret : String) : Json :=
  .obj [("user", .str "ada"), ("Api-Key", .str secret),
    ("items", .arr [.obj [("note", .str "n"), ("password", .str secret)]])]

theorem redaction_exact_sample :
    redactValue (sampleMetadata "one") = redactValue (sampleMetadata "two") ∧
      valueAt [.key "items", .index 0, .key "note"] (redactValue (sampleMetadata "one")) =
        some (.str "n") ∧
      redactValue (redactValue (sampleMetadata "one")) = redactValue (sampleMetadata "one") := by
  have hord : ∀ secret, Ordinary (sampleMetadata secret) := by
    intro secret
    simp [sampleMetadata, Ordinary, OrdinaryMembers, OrdinaryItems]
  have hkey : isSensitive "Api-Key" = true := by decide
  have hpassword : isSensitive "password" = true := by decide
  have hsame : SameButSecrets (sampleMetadata "one") (sampleMetadata "two") :=
    .obj (.cons "user" (.refl _) (.secret _ _ hkey (.cons "items" (.arr (.cons (.obj
      (.cons "note" (.refl _) (.secret _ _ hpassword .nil))) .nil)) .nil)))
  have hpath : Public [.key "items", .index 0, .key "note"] := by
    intro k hk
    have hcases : k = "items" ∨ k = "note" := by simpa using hk
    rcases hcases with rfl | rfl
    · decide
    · decide
  exact ⟨redaction_exact.1 _ _ (hord "one") (hord "two") hsame,
    ((redaction_exact.2.1 _ (hord "one")).2 _ hpath).2 _ rfl rfl,
    redaction_exact.2.2 _ (hord "one")⟩

end Liquifact.Audit
