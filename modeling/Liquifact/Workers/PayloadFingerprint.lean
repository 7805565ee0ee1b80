import Liquifact.Lib.JsonAlike
import Liquifact.Lib.Numerals
import Liquifact.Lib.ShortestDigits
import Mathlib.Data.List.Sort

/-!
# Payload fingerprints (`workers/jobQueue.js`)

A payload is hashed as the text of a copy whose object keys were assigned in sorted order.
`sha256` is the digest of a text. Assigning `__proto__` sets the prototype of the copy, or
does nothing, so a member of that name is not in the text.
-/

namespace Liquifact.Workers
open Liquifact.Lib

/- An array index: a canonical numeral below `2 ** 32 - 1`. -/
def arrayIndex (key : String) : Option ℕ :=
  let n := numeralValue key
  if n.repr = key ∧ n < 2 ^ 32 - 1 then some n else none

/- Array indices come first, in ascending order. -/
def standsBefore (n : ℕ) (m : String × Json) : Bool :=
  match arrayIndex m.1 with
  | some i => decide (i < n)
  | none => false

/- A new property, in the order in which an object lists its own. -/
def insertOwn (key : String) (value : Json) (members : List (String × Json)) :
    List (String × Json) :=
  match arrayIndex key with
  | some n =>
    members.takeWhile (standsBefore n) ++ (key, value) :: members.dropWhile (standsBefore n)
  | none => members ++ [(key, value)]

/- `acc[key] = value`. -/
def assign (acc : List (String × Json)) (key : String) (value : Json) : List (String × Json) :=
  if key = "__proto__" then acc
  else if key ∈ acc.map Prod.fst then OrdMap.setL key value acc
  else insertOwn key value acc

/- `Array.prototype.sort` on the keys. -/
def sortByKey (members : List (String × Json)) : List (String × Json) :=
  members.insertionSort fun a b => utf16 a.1 ≤ utf16 b.1

/- The `reduce` over the sorted keys. -/
def rebuild (members : List (String × Json)) : List (String × Json) :=
  (sortByKey members).foldl (fun acc m => assign acc m.1 m.2) []

mutual

/- `value[key]` is the value of the member `key`. -/
def sortKeys : Json → Json
  | .arr items => .arr (sortItems items)
  | .obj members => .obj (rebuild (sortMembers members))
  | value => value

def sortItems : List Json → List Json
  | [] => []
  | item :: items => sortKeys item :: sortItems items

def sortMembers : List (String × Json) → List (String × Json)
  | [] => []
  | (key, value) :: members => (key, sortKeys value) :: sortMembers members

end

def computePayloadFingerprint (sha256 : String → String) (payload : Json) : String :=
  sha256 (sortKeys payload).stringify

/-! ### The rebuilt object -/

def isOwn (m : String × Json) : Bool := m.1 ≠ "__proto__"

theorem insertOwn_perm (key : String) (value : Json) (members : List (String × Json)) :
    (insertOwn key value members).Perm ((key, value) :: members) := by
  unfold insertOwn
  split
  · rename_i n _
    have hsplit := List.takeWhile_append_dropWhile (p := standsBefore n) (l := members)
    refine List.perm_middle.trans ?_
    rw [hsplit]
  · exact List.perm_append_singleton _ _

theorem assign_proto (acc : List (String × Json)) (value : Json) : assign acc "__proto__" value = acc :=
  if_pos rfl

theorem assign_new {acc : List (String × Json)} {m : String × Json} (hown : isOwn m = true)
    (hnew : m.1 ∉ acc.map Prod.fst) : (assign acc m.1 m.2).Perm (m :: acc) := by
  rw [assign, if_neg (by simpa [isOwn] using hown), if_neg hnew]
  exact insertOwn_perm m.1 m.2 acc

theorem foldl_assign_perm (members acc : List (String × Json))
    (hnames : ((members ++ acc).map Prod.fst).Nodup) :
    (members.foldl (fun acc m => assign acc m.1 m.2) acc).Perm (members.filter isOwn ++ acc) := by
  induction members generalizing acc with
  | nil => exact List.Perm.refl _
  | cons m members ih =>
    rw [List.cons_append, List.map_cons, List.nodup_cons] at hnames
    rw [List.foldl_cons]
    by_cases hown : isOwn m = true
    · have hnew : m.1 ∉ acc.map Prod.fst := by
        intro h
        rw [List.map_append] at hnames
        exact hnames.1 (List.mem_append_right _ h)
      have hassign := assign_new hown hnew
      have hrest : ((members ++ assign acc m.1 m.2).map Prod.fst).Nodup := by
        refine (((hassign.append_left members).trans List.perm_middle).map Prod.fst).nodup_iff.mpr ?_
        rw [List.map_cons, List.nodup_cons]
        exact hnames
      rw [List.filter_cons_of_pos hown]
      exact (ih _ hrest).trans ((hassign.append_left _).trans List.perm_middle)
    · have hname : m.1 = "__proto__" := by simpa [isOwn] using hown
      rw [List.filter_cons_of_neg hown, hname, assign_proto]
      exact ih acc hnames.2

theorem sortByKey_perm (members : List (String × Json)) : (sortByKey members).Perm members :=
  List.perm_insertionSort _ _

theorem rebuild_perm {members : List (String × Json)} (hnames : (members.map Prod.fst).Nodup) :
    (rebuild members).Perm (members.filter isOwn) := by
  have hsorted := sortByKey_perm members
  have hfold := foldl_assign_perm (sortByKey members) [] (by
    rw [List.append_nil]
    exact (hsorted.map Prod.fst).nodup_iff.mpr hnames)
  rw [List.append_nil] at hfold
  exact hfold.trans (hsorted.filter isOwn)

theorem sortByKey_sorted (members : List (String × Json)) :
    (sortByKey members).Pairwise fun a b => utf16 a.1 ≤ utf16 b.1 := by
  have : Std.Total (fun a b : String × Json => utf16 a.1 ≤ utf16 b.1) :=
    ⟨fun a b => le_total _ _⟩
  have : IsTrans (String × Json) (fun a b => utf16 a.1 ≤ utf16 b.1) := ⟨fun _ _ _ => le_trans⟩
  exact List.pairwise_insertionSort _ _

/- The keys are different, so there is one sorted order of the members. -/
theorem eq_of_sorted {l l' : List (String × Json)} (hnames : (l.map Prod.fst).Nodup)
    (hperm : l.Perm l') (hl : l.Pairwise fun a b => utf16 a.1 ≤ utf16 b.1)
    (hl' : l'.Pairwise fun a b => utf16 a.1 ≤ utf16 b.1) : l = l' := by
  refine List.Perm.eq_of_pairwise (fun a b ha hb hab hba => ?_) hl hl' hperm
  have hname : a.1 = b.1 := utf16_injective (le_antisymm hab hba)
  exact List.inj_on_of_nodup_map hnames ha (hperm.mem_iff.mpr hb) hname

theorem rebuild_eq_of_perm {members members' : List (String × Json)}
    (hnames : (members.map Prod.fst).Nodup) (hperm : members.Perm members') :
    rebuild members = rebuild members' := by
  have hsorted := (sortByKey_perm members).trans (hperm.trans (sortByKey_perm members').symm)
  have hsame := eq_of_sorted (((sortByKey_perm members).map Prod.fst).nodup_iff.mpr hnames) hsorted
    (sortByKey_sorted members) (sortByKey_sorted members')
  rw [rebuild, hsame, rebuild]

theorem foldl_assign_filter (members acc : List (String × Json)) :
    (members.filter isOwn).foldl (fun acc m => assign acc m.1 m.2) acc =
      members.foldl (fun acc m => assign acc m.1 m.2) acc := by
  induction members generalizing acc with
  | nil => rfl
  | cons m members ih =>
    by_cases hown : isOwn m = true
    · rw [List.filter_cons_of_pos hown, List.foldl_cons, List.foldl_cons, ih]
    · have hname : m.1 = "__proto__" := by simpa [isOwn] using hown
      rw [List.filter_cons_of_neg hown, List.foldl_cons, hname, assign_proto, ih]

theorem rebuild_filter {members : List (String × Json)} (hnames : (members.map Prod.fst).Nodup) :
    rebuild (members.filter isOwn) = rebuild members := by
  have hfilter : ((members.filter isOwn).map Prod.fst).Nodup :=
    hnames.sublist (List.filter_sublist.map Prod.fst)
  have hsame : sortByKey (members.filter isOwn) = (sortByKey members).filter isOwn := by
    refine eq_of_sorted (((sortByKey_perm _).map Prod.fst).nodup_iff.mpr hfilter) ?_
      (sortByKey_sorted _) ((sortByKey_sorted members).filter _)
    exact (sortByKey_perm _).trans ((sortByKey_perm members).filter isOwn).symm
  rw [rebuild, hsame, foldl_assign_filter, rebuild]

/- Two objects are rebuilt alike exactly when they have the same members but `__proto__`. -/
theorem rebuild_eq_iff {members members' : List (String × Json)}
    (hnames : (members.map Prod.fst).Nodup) (hnames' : (members'.map Prod.fst).Nodup) :
    rebuild members = rebuild members' ↔ (members.filter isOwn).Perm (members'.filter isOwn) := by
  constructor
  · intro h
    have hperm := (rebuild_perm hnames).symm
    rw [h] at hperm
    exact hperm.trans (rebuild_perm hnames')
  · intro h
    rw [← rebuild_filter hnames, ← rebuild_filter hnames']
    exact rebuild_eq_of_perm (hnames.sublist (List.filter_sublist.map Prod.fst)) h

/-! ### The sorted copy -/

theorem sortItems_eq_map (items : List Json) : sortItems items = items.map sortKeys := by
  induction items with
  | nil => rfl
  | cons item items ih => rw [sortItems, ih, List.map_cons]

theorem sortMembers_eq_map (members : List (String × Json)) :
    sortMembers members = members.map fun m => (m.1, sortKeys m.2) := by
  induction members with
  | nil => rfl
  | cons m members ih => rw [sortMembers, ih, List.map_cons]

theorem sortKeys_arr (items : List Json) : sortKeys (.arr items) = .arr (items.map sortKeys) := by
  rw [sortKeys, sortItems_eq_map]

theorem sortKeys_obj (members : List (String × Json)) :
    sortKeys (.obj members) = .obj (rebuild (members.map fun m => (m.1, sortKeys m.2))) := by
  rw [sortKeys, sortMembers_eq_map]

mutual

/-- The value without any member of the name `__proto__`. -/
def withoutProto : Json → Json
  | .arr items => .arr (withoutProtoItems items)
  | .obj members => .obj (withoutProtoMembers members)
  | value => value

def withoutProtoItems : List Json → List Json
  | [] => []
  | item :: items => withoutProto item :: withoutProtoItems items

def withoutProtoMembers : List (String × Json) → List (String × Json)
  | [] => []
  | (key, value) :: members =>
    if key = "__proto__" then withoutProtoMembers members
    else (key, withoutProto value) :: withoutProtoMembers members

end

theorem withoutProto_arr (items : List Json) :
    withoutProto (.arr items) = .arr (items.map withoutProto) := by
  have hitems : withoutProtoItems items = items.map withoutProto := by
    induction items with
    | nil => rfl
    | cons item items ih => rw [withoutProtoItems, ih, List.map_cons]
  rw [withoutProto, hitems]

theorem withoutProto_obj (members : List (String × Json)) :
    withoutProto (.obj members) =
      .obj ((members.filter isOwn).map fun m => (m.1, withoutProto m.2)) := by
  have hmembers : withoutProtoMembers members =
      (members.filter isOwn).map fun m => (m.1, withoutProto m.2) := by
    induction members with
    | nil => rfl
    | cons m members ih =>
      obtain ⟨key, value⟩ := m
      by_cases hkey : key = "__proto__"
      · rw [withoutProtoMembers, if_pos hkey, ih, List.filter_cons_of_neg (by simp [isOwn, hkey])]
      · rw [withoutProtoMembers, if_neg hkey, ih, List.filter_cons_of_pos (by simp [isOwn, hkey]),
          List.map_cons]
  rw [withoutProto, hmembers]

theorem map_fst_map (f : Json → Json) (members : List (String × Json)) :
    (members.map fun m => (m.1, f m.2)).map Prod.fst = members.map Prod.fst := by
  rw [List.map_map]
  rfl

theorem filter_isOwn_map (f : Json → Json) (members : List (String × Json)) :
    (members.map fun m => (m.1, f m.2)).filter isOwn =
      (members.filter isOwn).map fun m => (m.1, f m.2) := by
  rw [List.filter_map]
  rfl

/- Two lists with equal images correspond one by one. -/
theorem map_eq_map_iff_forall₂ {α β : Type} {f g : α → β} (l l' : List α) :
    l.map f = l'.map g ↔ List.Forall₂ (fun a b => f a = g b) l l' := by
  rw [← List.forall₂_eq_eq_eq, List.forall₂_map_left_iff, List.forall₂_map_right_iff]

/- Two values that are equal after a function of the values, up to the order of the members. -/
theorem perm_map_values_iff (f : Json → Json) (ms ns : List (String × Json)) :
    (ms.map fun m => (m.1, f m.2)).Perm (ns.map fun m => (m.1, f m.2)) ↔
      ∃ ns' : List (String × Json), ns'.Perm ns ∧
        List.Forall₂ (fun m n => m.1 = n.1 ∧ f m.2 = f n.2) ms ns' := by
  rw [perm_map_iff]
  refine exists_congr fun ns' => and_congr_right fun _ => ?_
  rw [map_eq_map_iff_forall₂]
  simp only [Prod.mk.injEq]

theorem alike_obj_map (f : Json → Json) (ms ns : List (String × Json)) :
    (Json.obj (ms.map fun m => (m.1, f m.2))).Alike (.obj (ns.map fun m => (m.1, f m.2))) ↔
      ∃ ns' : List (String × Json), ns'.Perm ns ∧
        List.Forall₂ (fun m n => m.1 = n.1 ∧ (f m.2).Alike (f n.2)) ms ns' := by
  rw [alike_obj]
  constructor
  · rintro ⟨mapped, hperm, h⟩
    obtain ⟨ns', hns', rfl⟩ := perm_map_iff.mp hperm
    rw [List.forall₂_map_left_iff, List.forall₂_map_right_iff] at h
    exact ⟨ns', hns', h⟩
  · rintro ⟨ns', hns', h⟩
    refine ⟨_, hns'.map _, ?_⟩
    rw [List.forall₂_map_left_iff, List.forall₂_map_right_iff]
    exact h

theorem forall₂_imp_of_mem {α β : Type} {R S : α → β → Prop} {l : List α} {l' : List β}
    (h : ∀ a ∈ l, ∀ b ∈ l', R a b → S a b) (hR : List.Forall₂ R l l') : List.Forall₂ S l l' := by
  induction hR with
  | nil => exact List.Forall₂.nil
  | cons hhead _ ih =>
    refine List.Forall₂.cons (h _ List.mem_cons_self _ List.mem_cons_self hhead) (ih ?_)
    intro a ha b hb
    exact h a (List.mem_cons_of_mem _ ha) b (List.mem_cons_of_mem _ hb)

theorem forall₂_congr_of_mem {α β : Type} {R S : α → β → Prop} {l : List α} {l' : List β}
    (h : ∀ a ∈ l, ∀ b ∈ l', R a b ↔ S a b) : List.Forall₂ R l l' ↔ List.Forall₂ S l l' :=
  ⟨forall₂_imp_of_mem fun a ha b hb => (h a ha b hb).mp,
    forall₂_imp_of_mem fun a ha b hb => (h a ha b hb).mpr⟩

theorem forall₂_filter {α : Type} {R : α → α → Prop} {p : α → Bool}
    (hp : ∀ a b, R a b → p a = p b) {l l' : List α} (h : List.Forall₂ R l l') :
    List.Forall₂ R (l.filter p) (l'.filter p) := by
  induction h with
  | nil => exact List.Forall₂.nil
  | @cons a b l l' hhead _ ih =>
    by_cases ha : p a = true
    · rw [List.filter_cons_of_pos ha, List.filter_cons_of_pos (hp a b hhead ▸ ha)]
      exact List.Forall₂.cons hhead ih
    · rw [List.filter_cons_of_neg ha, List.filter_cons_of_neg (hp a b hhead ▸ ha)]
      exact ih

/-- Two values have the same sorted copy exactly when they are alike without `__proto__`. -/
theorem sortKeys_eq_iff {P : JsNumber → Prop} (v w : Json) (hv : v.Over P) (hw : w.Over P) :
    sortKeys v = sortKeys w ↔ (withoutProto v).Alike (withoutProto w) := by
  induction v using Json.induct_tree generalizing w with
  | leaf v harr hobj =>
    cases v with
    | arr vs => exact absurd rfl (harr vs)
    | obj ms => exact absurd rfl (hobj ms)
    | _ =>
      cases w with
      | arr ws => simp [sortKeys, withoutProto, Json.Alike]
      | obj ns => simp [sortKeys, withoutProto, Json.Alike]
      | _ => simp [sortKeys, withoutProto, Json.Alike]
  | arr vs ih =>
    cases w with
    | arr ws =>
      rw [sortKeys_arr, sortKeys_arr, withoutProto_arr, withoutProto_arr, alike_arr,
        Json.arr.injEq, map_eq_map_iff_forall₂, List.forall₂_map_left_iff,
        List.forall₂_map_right_iff]
      refine forall₂_congr_of_mem fun a ha b hb => ?_
      exact ih a ha b (over_arr.mp hv a ha) (over_arr.mp hw b hb)
    | _ => simp [sortKeys, withoutProto, Json.Alike]
  | obj ms ih =>
    cases w with
    | obj ns =>
      obtain ⟨hms, hnames⟩ := over_obj.mp hv
      obtain ⟨hns, hnames'⟩ := over_obj.mp hw
      rw [sortKeys_obj, sortKeys_obj, withoutProto_obj, withoutProto_obj, Json.obj.injEq,
        rebuild_eq_iff (by rwa [map_fst_map]) (by rwa [map_fst_map]), filter_isOwn_map,
        filter_isOwn_map, perm_map_values_iff, alike_obj_map]
      refine exists_congr fun ns' => and_congr_right fun hperm => ?_
      refine forall₂_congr_of_mem fun a ha b hb => and_congr_right fun _ => ?_
      have ha' := (List.mem_filter.mp ha).1
      have hb' := (List.mem_filter.mp (hperm.mem_iff.mp hb)).1
      exact ih a ha' b.2 (hms a ha') (hns b hb')
    | _ => simp [sortKeys, withoutProto, Json.Alike]

theorem alike_withoutProto (v w : Json) (h : v.Alike w) :
    (withoutProto v).Alike (withoutProto w) := by
  induction v using Json.induct_tree generalizing w with
  | leaf v harr hobj =>
    cases v with
    | arr vs => exact absurd rfl (harr vs)
    | obj ms => exact absurd rfl (hobj ms)
    | _ =>
      simp only [Json.Alike] at h
      subst h
      simp [withoutProto, Json.Alike]
  | arr vs ih =>
    rw [Json.Alike] at h
    obtain ⟨ws, rfl, h⟩ := h
    rw [withoutProto_arr, withoutProto_arr, alike_arr, List.forall₂_map_left_iff,
      List.forall₂_map_right_iff]
    exact forall₂_imp_of_mem (fun a ha b _ => ih a ha b) ((alikeItems_iff vs ws).mp h)
  | obj ms ih =>
    rw [Json.Alike] at h
    obtain ⟨ns, ns', rfl, hperm, h⟩ := h
    rw [withoutProto_obj, withoutProto_obj, alike_obj_map]
    refine ⟨ns'.filter isOwn, hperm.filter isOwn, ?_⟩
    have hown := forall₂_filter (p := isOwn) (fun a b hab => by rw [isOwn, hab.1, isOwn])
      ((alikeMembers_iff ms ns').mp h)
    refine forall₂_imp_of_mem (fun a ha b _ hab => ⟨hab.1, ?_⟩) hown
    exact ih a (List.mem_filter.mp ha).1 b.2 hab.2

/-! ### The fingerprint -/

/-- A finite double, as JSON has them. -/
def IsJsonNumber (x : JsNumber) : Prop := IsDouble x ∧ ∃ q, x = .fin q

/-- A JSON value: its numbers are finite doubles and no object repeats a key. -/
def IsJsonValue (v : Json) : Prop := v.Over IsJsonNumber

theorem sortKeys_over {P : JsNumber → Prop} (v : Json) (hv : v.Over P) : (sortKeys v).Over P := by
  induction v using Json.induct_tree with
  | leaf v harr hobj =>
    cases v with
    | arr vs => exact absurd rfl (harr vs)
    | obj ms => exact absurd rfl (hobj ms)
    | _ => exact hv
  | arr vs ih =>
    rw [sortKeys_arr, over_arr]
    intro w hw
    obtain ⟨v, hmem, rfl⟩ := List.mem_map.mp hw
    exact ih v hmem (over_arr.mp hv v hmem)
  | obj ms ih =>
    obtain ⟨hms, hnames⟩ := over_obj.mp hv
    have hnames' : ((ms.map fun m => (m.1, sortKeys m.2)).map Prod.fst).Nodup := by
      rwa [map_fst_map]
    have hperm := rebuild_perm hnames'
    rw [sortKeys_obj, over_obj]
    constructor
    · intro m hm
      obtain ⟨n, hn, rfl⟩ := List.mem_map.mp (List.mem_filter.mp (hperm.mem_iff.mp hm)).1
      exact ih n hn (hms n hn)
    · exact (hperm.map Prod.fst).nodup_iff.mpr
        (hnames'.sublist (List.filter_sublist.map Prod.fst))

theorem fingerprint_eq_iff {sha256 : String → String} (hsha : Function.Injective sha256)
    {a b : Json} (ha : IsJsonValue a) (hb : IsJsonValue b) :
    computePayloadFingerprint sha256 a = computePayloadFingerprint sha256 b ↔
      (withoutProto a).Alike (withoutProto b) := by
  rw [← sortKeys_eq_iff a b ha hb, computePayloadFingerprint, computePayloadFingerprint]
  constructor
  · intro h
    exact Json.stringify_inj (fun _ hx => hx.2) (fun q hq => readsBack_of_double q hq.1)
      (sortKeys_over a ha) (sortKeys_over b hb) (hsha h)
  · intro h
    rw [h]

/-- Two fingerprints agree exactly when the payloads do, up to key order at every depth, unless
the payloads differ in members of the name `__proto__` only. -/
theorem computePayloadFingerprint_iff (sha256 : String → String)
    (hsha : Function.Injective sha256) (a b : Json) (ha : IsJsonValue a) (hb : IsJsonValue b) :
    (computePayloadFingerprint sha256 a = computePayloadFingerprint sha256 b ↔ a.Alike b) ↔
      ¬ ((withoutProto a).Alike (withoutProto b) ∧ ¬ a.Alike b) := by
  have hdrop := alike_withoutProto a b
  rw [fingerprint_eq_iff hsha ha hb]
  tauto

def sampleMembers : List (String × Json) :=
  [("10", .str "x"), ("a", .arr [.bool true]), ("b", .null)]

def samplePayload : Json := .obj sampleMembers

def reorderedPayload : Json := .obj sampleMembers.reverse

theorem samplePayload_value : IsJsonValue samplePayload := by
  simp [samplePayload, sampleMembers, IsJsonValue, Json.Over, OverMembers, OverItems]

theorem reorderedPayload_value : IsJsonValue reorderedPayload := by
  simp [reorderedPayload, sampleMembers, IsJsonValue, Json.Over, OverMembers, OverItems]

theorem samplePayload_alike : samplePayload.Alike reorderedPayload := by
  refine alike_obj.mpr ⟨sampleMembers, (List.reverse_perm sampleMembers).symm, ?_⟩
  refine .cons ⟨rfl, by simp [Json.Alike]⟩ (.cons ⟨rfl, ?_⟩ (.cons ⟨rfl, by simp [Json.Alike]⟩ .nil))
  exact alike_arr.mpr (.cons (by simp [Json.Alike]) .nil)

theorem computePayloadFingerprint_sample :
    computePayloadFingerprint id samplePayload = computePayloadFingerprint id reorderedPayload :=
  ((computePayloadFingerprint_iff id Function.injective_id samplePayload reorderedPayload
    samplePayload_value reorderedPayload_value).mpr fun h => h.2 samplePayload_alike).mpr
      samplePayload_alike

def protoPayload : Json := .obj [("__proto__", .num (.fin 1))]

/- The member is lost, whatever the digest. -/
theorem computePayloadFingerprint_drops_proto :
    (∀ sha256 : String → String, computePayloadFingerprint sha256 protoPayload =
      computePayloadFingerprint sha256 (.obj [])) ∧ ¬ protoPayload.Alike (.obj []) := by
  constructor
  · intro sha256
    rfl
  · rw [protoPayload, alike_obj]
    rintro ⟨ns', hperm, h⟩
    obtain rfl := hperm.eq_nil
    cases h

end Liquifact.Workers
