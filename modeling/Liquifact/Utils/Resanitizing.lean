import Liquifact.Utils.Sanitization
import Mathlib.Data.List.Infix

/-!
# Sanitising what is sanitised already

The steps for a string do not commute: what is cut at the length limit was trimmed and
normalised before. Of `String.prototype.normalize` this uses that it is idempotent, that a
piece of a normalised text is normalised, that it makes no control character and no white
space but the blank, and none at all of units which are normalised by themselves.
-/

namespace Liquifact.Utils
open Liquifact.Lib

/-- What is documented of normalisation form KC. -/
structure Normalizer (normalize : Units → Units) : Prop where
  idem : ∀ s, normalize (normalize s) = normalize s
  closed : ∀ s t, t.IsInfix s → normalize s = s → normalize t = t
  blank : normalize [blank] = [blank]
  special : ∀ s, ∀ u ∈ normalize s,
    (isControlUnit u = true ∨ isSpaceUnit u = true ∧ u ≠ Utils.blank) → u ∈ s
  spaces : ∀ s, (∀ u ∈ s, normalize [u] = [u]) →
    (normalize s).countP isSpaceUnit ≤ s.countP isSpaceUnit

theorem normalizer_id : Normalizer id where
  idem _ := rfl
  closed _ _ _ _ := rfl
  blank := rfl
  special _ _ hu _ := hu
  spaces _ _ := le_refl _

section

variable (normalize : Units → Units)

def cleanWords (value : Units) : List Units :=
  words isSpaceUnit ((normalize value).filter fun u => !isNonPrintable u)

/-- The words of a text that are left of its normal form, one blank between them. -/
def cleanText (value : Units) : Units := [blank].intercalate (cleanWords normalize value)

/-- No word but the first starts at the limit, and what stands before it is normalised; a
negative limit takes everything away. -/
structure Settles (maxLength : ℤ) (value : Units) : Prop where
  fits : 0 ≤ maxLength ∨ (cleanText normalize value).length ≤ maxLength.natAbs
  boundary : ¬ WordAt (cleanWords normalize value) maxLength.toNat
  normal : normalize ((cleanText normalize value).take maxLength.toNat) =
    (cleanText normalize value).take maxLength.toNat

end

variable {normalize : Units → Units}

/-! ### One string -/

theorem sanitizeUserString_eq (normalize : Units → Units) (value : Units) (maxLength : ℤ) :
    sanitizeUserString normalize value (.number (.fin maxLength)) =
      if ((cleanText normalize value).length : ℤ) > maxLength
      then sliceTo maxLength (cleanText normalize value) else cleanText normalize value := by
  have hclean := trimEnds_collapse_eq_words (r := blank) (p := isSpaceUnit) (by decide)
    ((normalize value).filter fun u => !isNonPrintable u)
  simp only [sanitizeUserString, integerOr_intCast, cleanText, cleanWords, hclean]
  rfl

theorem sanitizeUserString_prefix_cleanText (normalize : Units → Units) (value : Units)
    (maxLength : ℤ) :
    (sanitizeUserString normalize value (.number (.fin maxLength))).IsPrefix
      (cleanText normalize value) := by
  rw [sanitizeUserString_eq]
  split
  · exact sliceTo_isPrefix _ _
  · exact List.prefix_refl _

theorem sanitizeUserString_of_fits {value : Units} {maxLength : ℤ}
    (hfits : 0 ≤ maxLength ∨ (cleanText normalize value).length ≤ maxLength.natAbs) :
    sanitizeUserString normalize value (.number (.fin maxLength)) =
      (cleanText normalize value).take maxLength.toNat := by
  rw [sanitizeUserString_eq]
  by_cases hmax : 0 ≤ maxLength
  · split
    · rw [sliceTo, if_pos hmax]
    · rw [List.take_of_length_le (by omega)]
  · have hlen : (cleanText normalize value).length ≤ maxLength.natAbs := hfits.resolve_left hmax
    rw [if_pos (by omega), sliceTo, if_neg hmax, Nat.sub_eq_zero_of_le hlen,
      Int.toNat_of_nonpos (by omega)]

theorem isControlUnit_of_isNonPrintable {u : UInt16} (h : isNonPrintable u = true) :
    isControlUnit u = true := by
  simp only [isNonPrintable, isControlUnit, Bool.or_eq_true, Bool.and_eq_true, decide_eq_true_eq,
    beq_iff_eq] at h ⊢
  rcases h with (((h | rfl) | rfl) | h) | rfl
  · have hle : (0x8 : UInt16) ≤ 0x1F := by decide
    exact .inl (UInt16.le_trans h hle)
  · decide
  · decide
  · exact .inl h.2
  · decide

/- A text as `sanitizeUserString` leaves it. -/
structure Cleaned (normalize : Units → Units) (s : Units) : Prop where
  printable : ∀ u ∈ s, isControlUnit u = false
  blanks : ∀ u ∈ s, isSpaceUnit u = true → u = blank
  spaced : Apart isSpaceUnit s
  head : ∀ u ∈ s.head?, isSpaceUnit u = false
  stable : ∀ u ∈ s, normalize [u] = [u]

theorem mem_cleanText {value : Units} {u : UInt16} (hu : u ∈ cleanText normalize value) :
    u = blank ∨ u ∈ normalize value ∧ isNonPrintable u = false ∧ isSpaceUnit u = false := by
  rw [cleanText, cleanWords, ← trimEnds_collapse_eq_words (by decide)] at hu
  refine (mem_trimEnds_collapse hu).imp id ?_
  rintro ⟨hmem, hspace⟩
  obtain ⟨hnorm, hspared⟩ := List.mem_filter.mp hmem
  exact ⟨hnorm, by simpa using hspared, hspace⟩

theorem cleaned_sanitizeUserString (hnorm : Normalizer normalize) (value : Units)
    (maxLength : ℤ) :
    Cleaned normalize (sanitizeUserString normalize value (.number (.fin maxLength))) := by
  have hpre := sanitizeUserString_prefix_cleanText normalize value maxLength
  constructor
  · intro u hu
    exact not_control_of_mem_sanitizeUserString hu
  · intro u hu hspace
    rcases mem_cleanText (hpre.subset hu) with h | ⟨-, -, hnot⟩
    · exact h
    · exact absurd (hspace.symm.trans hnot) Bool.noConfusion
  · exact apart_sanitizeUserString value _
  · intro u hu
    apply head_trimEnds (p := isSpaceUnit) _ u
    rw [trimEnds_collapse_eq_words (r := blank) (by decide)
      ((normalize value).filter fun u => !isNonPrintable u)]
    obtain ⟨rest, hrest⟩ := hpre
    have hhead : (cleanText normalize value).head? = some u := by
      rw [← hrest, List.head?_append, Option.mem_def.mp hu, Option.some_or]
    exact hhead
  · intro u hu
    rcases mem_cleanText (hpre.subset hu) with rfl | ⟨hmem, -⟩
    · exact hnorm.blank
    · refine hnorm.closed (normalize value) [u] ?_ (hnorm.idem value)
      exact (List.singleton_infix_iff u _).mpr hmem

theorem Cleaned.filter_printable {s : Units} (hs : Cleaned normalize s) :
    s.filter (fun u => !isNonPrintable u) = s := by
  rw [List.filter_eq_self]
  intro u hu
  rw [Bool.not_eq_true']
  by_contra hnon
  rw [Bool.not_eq_false] at hnon
  exact absurd ((hs.printable u hu).symm.trans (isControlUnit_of_isNonPrintable hnon))
    Bool.noConfusion

/- The second pass undoes nothing of what normalising does, so a text that comes back as the
   beginning of a second pass is normalised. -/
theorem Cleaned.normal_of_prefix (hnorm : Normalizer normalize) {s : Units}
    (hs : Cleaned normalize s) (hpre : s.IsPrefix (cleanText normalize s)) : normalize s = s := by
  have hfilter : (normalize s).filter (fun u => !isNonPrintable u) = normalize s := by
    rw [List.filter_eq_self]
    intro u hu
    rw [Bool.not_eq_true']
    by_contra hnon
    rw [Bool.not_eq_false] at hnon
    have hcontrol := isControlUnit_of_isNonPrintable hnon
    have hmem := hnorm.special s u hu (.inl hcontrol)
    exact absurd ((hs.printable u hmem).symm.trans hcontrol) Bool.noConfusion
  have hblanks : ∀ u ∈ normalize s, isSpaceUnit u = true → u = blank := by
    intro u hu hspace
    by_contra hne
    exact hne (hs.blanks u (hnorm.special s u hu (.inr ⟨hspace, hne⟩)) hspace)
  have htext : cleanText normalize s =
      trimEnds isSpaceUnit (collapse isSpaceUnit blank (normalize s)) := by
    rw [cleanText, cleanWords, hfilter, ← trimEnds_collapse_eq_words (by decide)]
  have hcount : (normalize s).countP isSpaceUnit ≤
      (trimEnds isSpaceUnit (collapse isSpaceUnit blank (normalize s))).countP isSpaceUnit :=
    calc (normalize s).countP isSpaceUnit ≤ s.countP isSpaceUnit := hnorm.spaces s hs.stable
      _ ≤ (cleanText normalize s).countP isSpaceUnit := hpre.sublist.countP_le
      _ = _ := by rw [htext]
  have hfull := trimEnds_collapse_eq_self_of_count (by decide) hblanks hcount
  rw [htext, hfull] at hpre
  exact hnorm.closed (normalize s) s hpre.isInfix (hnorm.idem s)

/- A clean text in normal form is its own clean text, but for a blank at its end. -/
theorem Cleaned.cleanText_eq {s : Units} (hs : Cleaned normalize s) (hnormal : normalize s = s) :
    cleanText normalize s = s.rdropWhile isSpaceUnit := by
  rw [cleanText, cleanWords, hnormal, hs.filter_printable, ← trimEnds_collapse_eq_words (by decide),
    collapse, collapseFrom_eq_self false s hs.blanks hs.spaced (fun h => absurd h Bool.false_ne_true),
    trimEnds_of_head hs.head]

theorem cleanWords_ne_nil (value : Units) : ∀ w ∈ cleanWords normalize value, w ≠ [] :=
  fun _ hw => not_isEmpty_of_mem_words hw

theorem wordAt_cleanWords_iff (value : Units) (n : ℕ) :
    WordAt (cleanWords normalize value) n ↔
      ∃ u ∈ ((cleanText normalize value).take n).getLast?, isSpaceUnit u = true :=
  (ends_blank_take_iff (by decide) (cleanWords_ne_nil value)
    (fun _ hw => not_blank_of_mem_words hw) n).symm

theorem sanitizeUserString_of_settles (hnorm : Normalizer normalize) {value : Units}
    {maxLength : ℤ} (h : Settles normalize maxLength value) :
    sanitizeUserString normalize
        (sanitizeUserString normalize value (.number (.fin maxLength))) (.number (.fin maxLength)) =
      sanitizeUserString normalize value (.number (.fin maxLength)) := by
  have hclean := cleaned_sanitizeUserString hnorm value maxLength
  have hkept := sanitizeUserString_of_fits h.fits
  generalize sanitizeUserString normalize value (.number (.fin maxLength)) = kept at *
  have hnormal : normalize kept = kept := by
    rw [hkept]
    exact h.normal
  have hlast : kept.rdropWhile isSpaceUnit = kept := by
    rw [List.rdropWhile_eq_self_iff]
    intro hne hspace
    apply h.boundary
    rw [wordAt_cleanWords_iff, ← hkept]
    exact ⟨_, List.getLast?_eq_getLast_of_ne_nil hne, hspace⟩
  rw [sanitizeUserString_eq, hclean.cleanText_eq hnormal, hlast]
  split
  · rename_i hlong
    have hlen := congrArg List.length hkept
    rw [List.length_take] at hlen
    have hnil : kept = [] := List.eq_nil_of_length_eq_zero (by omega)
    rw [hnil]
    exact List.prefix_nil.mp (sliceTo_isPrefix maxLength [])
  · rfl

theorem settles_of_sanitizeUserString (hnorm : Normalizer normalize) {value : Units}
    {maxLength : ℤ}
    (h : sanitizeUserString normalize
        (sanitizeUserString normalize value (.number (.fin maxLength))) (.number (.fin maxLength)) =
      sanitizeUserString normalize value (.number (.fin maxLength))) :
    Settles normalize maxLength value := by
  have hclean := cleaned_sanitizeUserString hnorm value maxLength
  have hfirst := sanitizeUserString_eq normalize value maxLength
  have hfits := @sanitizeUserString_of_fits normalize value maxLength
  generalize sanitizeUserString normalize value (.number (.fin maxLength)) = kept at *
  have hpre : kept.IsPrefix (cleanText normalize kept) := by
    have hagain := sanitizeUserString_prefix_cleanText normalize kept maxLength
    rwa [h] at hagain
  have hnormal := hclean.normal_of_prefix hnorm hpre
  have hdrop := hclean.cleanText_eq hnormal
  have htext : cleanText normalize kept = kept := by
    have hle := hpre.length_le
    rw [hdrop] at hle ⊢
    exact (List.rdropWhile_prefix isSpaceUnit kept).eq_of_length_le hle
  have hshort : 0 ≤ maxLength ∨ (cleanText normalize value).length ≤ maxLength.natAbs := by
    by_cases hmax : 0 ≤ maxLength
    · exact .inl hmax
    · -- A negative limit cuts the kept text again, unless nothing is left of it.
      rw [sanitizeUserString_eq, htext, if_pos (by omega), sliceTo, if_neg hmax] at h
      rw [if_pos (by omega), sliceTo, if_neg hmax] at hfirst
      have hlen := congrArg List.length h
      have hlen' := congrArg List.length hfirst
      rw [List.length_take] at hlen hlen'
      omega
  have hkept := hfits hshort
  refine ⟨hshort, ?_, ?_⟩
  · rw [wordAt_cleanWords_iff, ← hkept]
    rintro ⟨u, hu, hspace⟩
    rw [htext] at hdrop
    have hne : kept ≠ [] := by
      rintro rfl
      cases hu
    have hlast := List.rdropWhile_eq_self_iff.mp hdrop.symm hne
    rw [List.getLast?_eq_getLast_of_ne_nil hne] at hu
    obtain rfl := Option.some.inj hu
    exact hlast hspace
  · rw [← hkept]
    exact hnormal

/-! ### The tree -/

/-- `Reached v d s`: the string `s` stands in `v`, `d` levels down and under no dangerous key. -/
inductive Reached : Value → ℕ → Units → Prop
  | here (s : Units) : Reached (.string s) 0 s
  | item {items : List Value} {v : Value} {s : Units} {d : ℕ} (hmem : v ∈ items)
      (hreached : Reached v d s) : Reached (.array items) (d + 1) s
  | member {members : List (Units × Value)} {m : Units × Value} {s : Units} {d : ℕ}
      (hmem : m ∈ members) (hkey : m.1 ∉ DANGEROUS_KEYS) (hreached : Reached m.2 d s) :
      Reached (.object members) (d + 1) s

/-- Every object has its names once. -/
def Distinct (v : Value) : Prop :=
  ∀ d members, NodeAt v d (.object members) → (members.map Prod.fst).Nodup

theorem Distinct.item {items : List Value} (h : Distinct (.array items)) {v : Value}
    (hv : v ∈ items) : Distinct v :=
  fun d members hnode => h (d + 1) members (.item hv hnode)

theorem Distinct.member {members : List (Units × Value)} (h : Distinct (.object members))
    {m : Units × Value} (hm : m ∈ members) : Distinct m.2 :=
  fun d inner hnode => h (d + 1) inner (.member hm hnode)

section Induction

variable {P : Value → Prop}

mutual

/- Induction on a tree. -/
theorem Value.induct_tree (leaf : ∀ v, (∀ items, v ≠ .array items) →
      (∀ members, v ≠ .object members) → P v)
    (array : ∀ items, (∀ v ∈ items, P v) → P (.array items))
    (object : ∀ members : List (Units × Value), (∀ m ∈ members, P m.2) → P (.object members))
    (v : Value) : P v := by
  cases v with
  | array items => exact array items (Value.induct_items leaf array object items)
  | object members => exact object members (Value.induct_members leaf array object members)
  | _ => exact leaf _ (fun _ => Value.noConfusion) (fun _ => Value.noConfusion)

theorem Value.induct_items (leaf : ∀ v, (∀ items, v ≠ .array items) →
      (∀ members, v ≠ .object members) → P v)
    (array : ∀ items, (∀ v ∈ items, P v) → P (.array items))
    (object : ∀ members : List (Units × Value), (∀ m ∈ members, P m.2) → P (.object members)) :
    (items : List Value) → ∀ v ∈ items, P v
  | [] => fun _ hv => absurd hv List.not_mem_nil
  | item :: items => by
    have hitem := Value.induct_tree leaf array object item
    have hitems := Value.induct_items leaf array object items
    intro v hv
    rcases List.mem_cons.mp hv with rfl | hv
    · exact hitem
    · exact hitems v hv

theorem Value.induct_members (leaf : ∀ v, (∀ items, v ≠ .array items) →
      (∀ members, v ≠ .object members) → P v)
    (array : ∀ items, (∀ v ∈ items, P v) → P (.array items))
    (object : ∀ members : List (Units × Value), (∀ m ∈ members, P m.2) → P (.object members)) :
    (members : List (Units × Value)) → ∀ m ∈ members, P m.2
  | [] => fun _ hm => absurd hm List.not_mem_nil
  | (_, value) :: members => by
    have hvalue := Value.induct_tree leaf array object value
    have hmembers := Value.induct_members leaf array object members
    intro m hm
    rcases List.mem_cons.mp hm with rfl | hm
    · exact hvalue
    · exact hmembers m hm

end

end Induction

theorem Value.eq_undefined {v : Value} (h : v.isUndefined = true) : v = .undefined := by
  cases v with
  | undefined => rfl
  | _ => cases h

section

variable {options : Limits} {depth : ℕ}

theorem sanitize_too_deep (hdeep : options.maxDepth < depth) (v : Value) :
    sanitizeValueAtDepth normalize options v depth = .undefined := by
  rw [sanitizeValueAtDepth.eq_def, if_pos hdeep]

theorem sanitize_undefined : sanitizeValueAtDepth normalize options .undefined depth = .undefined := by
  rw [sanitizeValueAtDepth.eq_def, ite_self]

theorem isUndefined_sanitize (hdepth : (depth : ℤ) ≤ options.maxDepth) (v : Value) :
    (sanitizeValueAtDepth normalize options v depth).isUndefined = v.isUndefined := by
  rw [sanitizeValueAtDepth.eq_def, if_neg (by omega)]
  cases v <;> rfl

/- What is left of a value is left of it the second time. -/
theorem isUndefined_sanitize_again {v : Value}
    (h : (sanitizeValueAtDepth normalize options v depth).isUndefined = false) :
    (sanitizeValueAtDepth normalize options
      (sanitizeValueAtDepth normalize options v depth) depth).isUndefined = false := by
  rw [isUndefined_sanitize (le_of_defined h), h]

theorem sanitize_again_of_undefined {v : Value}
    (h : (sanitizeValueAtDepth normalize options v depth).isUndefined = true) :
    sanitizeValueAtDepth normalize options
        (sanitizeValueAtDepth normalize options v depth) depth =
      sanitizeValueAtDepth normalize options v depth := by
  rw [Value.eq_undefined h, sanitize_undefined]

theorem sanitize_array (hdepth : (depth : ℤ) ≤ options.maxDepth) (items : List Value) :
    sanitizeValueAtDepth normalize options (.array items) depth =
      .array ((items.map fun v => sanitizeValueAtDepth normalize options v (depth + 1)).filter
        fun v => !v.isUndefined) := by
  rw [sanitizeValueAtDepth, if_neg (by omega), sanitizeItems_eq]

/- What the loop over the entries assigns for one of them. -/
def keptEntry (normalize : Units → Units) (options : Limits) (depth : ℕ) (e : Units × Value) :
    Option (Units × Value) :=
  if DANGEROUS_KEYS.contains e.1 then none
  else if (sanitizeValueAtDepth normalize options e.2 depth).isUndefined then none
  else some (e.1, sanitizeValueAtDepth normalize options e.2 depth)

theorem sanitizeEntries_eq (entries object : List (Units × Value))
    (hnames : ((object ++ entries).map Prod.fst).Nodup) :
    sanitizeEntries normalize options entries depth object =
      object ++ entries.filterMap (keptEntry normalize options depth) := by
  induction entries generalizing object with
  | nil => simp [sanitizeEntries]
  | cons e entries ih =>
    obtain ⟨key, value⟩ := e
    have hskip : ((object ++ entries).map Prod.fst).Nodup := by
      refine hnames.sublist (List.Sublist.map Prod.fst ?_)
      exact (List.Sublist.refl object).append (List.sublist_cons_self _ entries)
    rw [sanitizeEntries, List.filterMap_cons]
    by_cases hkey : DANGEROUS_KEYS.contains key = true
    · rw [if_pos hkey, keptEntry, if_pos hkey]
      exact ih object hskip
    · by_cases hvalue : (sanitizeValueAtDepth normalize options value depth).isUndefined = true
      · rw [if_neg hkey, if_pos hvalue, keptEntry, if_neg hkey, if_pos hvalue]
        exact ih object hskip
      · rw [if_neg hkey, if_neg hvalue, keptEntry, if_neg hkey, if_neg hvalue]
        have hnew : key ∉ object.map Prod.fst := by
          intro hmem
          rw [List.map_append, List.nodup_append] at hnames
          exact hnames.2.2 key hmem key (by simp) rfl
        rw [OrdMap.setL_of_not_mem key _ object hnew, ih, List.append_assoc, List.singleton_append]
        simpa using hnames

theorem sanitize_object (hdepth : (depth : ℤ) ≤ options.maxDepth)
    {members : List (Units × Value)} (hnames : (members.map Prod.fst).Nodup) :
    sanitizeValueAtDepth normalize options (.object members) depth =
      .object (members.filterMap (keptEntry normalize options (depth + 1))) := by
  rw [sanitizeValueAtDepth, if_neg (by omega), sanitizeEntries_eq members [] hnames,
    List.nil_append]

theorem map_eq_self_iff {α : Type} {f : α → α} {l : List α} : l.map f = l ↔ ∀ a ∈ l, f a = a := by
  constructor
  · intro h a ha
    have hid : l.map f = l.map id := by rw [h, List.map_id]
    exact List.map_inj_left.mp hid a ha
  · intro h
    rw [List.map_congr_left h, List.map_id']

theorem again_array (hdepth : (depth : ℤ) ≤ options.maxDepth) (items : List Value) :
    sanitizeValueAtDepth normalize options
        (sanitizeValueAtDepth normalize options (.array items) depth) depth =
      sanitizeValueAtDepth normalize options (.array items) depth ↔
    ∀ v ∈ items, sanitizeValueAtDepth normalize options
        (sanitizeValueAtDepth normalize options v (depth + 1)) (depth + 1) =
      sanitizeValueAtDepth normalize options v (depth + 1) := by
  rw [sanitize_array hdepth items, sanitize_array hdepth, List.filter_eq_self.mpr, Value.array.injEq,
    map_eq_self_iff]
  · constructor
    · intro h v hv
      cases hdefined : (sanitizeValueAtDepth normalize options v (depth + 1)).isUndefined with
      | true => exact sanitize_again_of_undefined hdefined
      | false =>
        refine h _ (List.mem_filter.mpr ⟨List.mem_map_of_mem hv, ?_⟩)
        simp [hdefined]
    · intro h w hw
      obtain ⟨v, hv, rfl⟩ := List.mem_map.mp (List.mem_filter.mp hw).1
      exact h v hv
  · intro w hw
    obtain ⟨u, hu, rfl⟩ := List.mem_map.mp hw
    obtain ⟨hu, hdefined⟩ := List.mem_filter.mp hu
    obtain ⟨v, -, rfl⟩ := List.mem_map.mp hu
    rw [isUndefined_sanitize_again (by simpa using hdefined)]
    rfl

theorem keptEntry_eq_some {e m : Units × Value} :
    keptEntry normalize options depth e = some m ↔ e.1 ∉ DANGEROUS_KEYS ∧
      (sanitizeValueAtDepth normalize options e.2 depth).isUndefined = false ∧
      m = (e.1, sanitizeValueAtDepth normalize options e.2 depth) := by
  rw [keptEntry]
  by_cases hkey : DANGEROUS_KEYS.contains e.1 = true
  · rw [if_pos hkey]
    rw [List.contains_iff_mem] at hkey
    simp [hkey]
  · rw [if_neg hkey]
    rw [List.contains_iff_mem] at hkey
    by_cases hdefined : (sanitizeValueAtDepth normalize options e.2 depth).isUndefined = true
    · simp [hdefined]
    · simp [hkey, hdefined, eq_comm]

theorem names_filterMap_keptEntry (members : List (Units × Value)) :
    ((members.filterMap (keptEntry normalize options depth)).map Prod.fst).Sublist
      (members.map Prod.fst) := by
  induction members with
  | nil => exact List.Sublist.slnil
  | cons e members ih =>
    rw [List.filterMap_cons]
    cases hkept : keptEntry normalize options depth e with
    | none => exact ih.cons _
    | some m =>
      obtain ⟨-, -, rfl⟩ := keptEntry_eq_some.mp hkept
      exact ih.cons_cons _

theorem again_object (hdepth : (depth : ℤ) ≤ options.maxDepth) {members : List (Units × Value)}
    (hnames : (members.map Prod.fst).Nodup) :
    sanitizeValueAtDepth normalize options
        (sanitizeValueAtDepth normalize options (.object members) depth) depth =
      sanitizeValueAtDepth normalize options (.object members) depth ↔
    ∀ m ∈ members, m.1 ∉ DANGEROUS_KEYS → sanitizeValueAtDepth normalize options
        (sanitizeValueAtDepth normalize options m.2 (depth + 1)) (depth + 1) =
      sanitizeValueAtDepth normalize options m.2 (depth + 1) := by
  rw [sanitize_object hdepth hnames,
    sanitize_object hdepth (hnames.sublist (names_filterMap_keptEntry members))]
  -- Every member of the result is kept the second time, with a value that may be another.
  have hkeep : (members.filterMap (keptEntry normalize options (depth + 1))).filterMap
        (keptEntry normalize options (depth + 1)) =
      (members.filterMap (keptEntry normalize options (depth + 1))).map
        fun m => (m.1, sanitizeValueAtDepth normalize options m.2 (depth + 1)) := by
    rw [← List.filterMap_eq_map]
    apply List.filterMap_congr
    intro m hm
    obtain ⟨e, -, he⟩ := List.mem_filterMap.mp hm
    obtain ⟨hkey, hdefined, rfl⟩ := keptEntry_eq_some.mp he
    exact keptEntry_eq_some.mpr ⟨hkey, isUndefined_sanitize_again hdefined, rfl⟩
  rw [hkeep, Value.object.injEq, map_eq_self_iff]
  constructor
  · intro h m hm hkey
    cases hdefined : (sanitizeValueAtDepth normalize options m.2 (depth + 1)).isUndefined with
    | true => exact sanitize_again_of_undefined hdefined
    | false =>
      have hm' := h _ (List.mem_filterMap.mpr ⟨m, hm, keptEntry_eq_some.mpr ⟨hkey, hdefined, rfl⟩⟩)
      exact (Prod.ext_iff.mp hm').2
  · intro h m hm
    obtain ⟨e, he, hkept⟩ := List.mem_filterMap.mp hm
    obtain ⟨hkey, -, rfl⟩ := keptEntry_eq_some.mp hkept
    exact Prod.ext rfl (h e he hkey)

theorem again_too_deep (hdeep : options.maxDepth < depth) (v : Value) :
    sanitizeValueAtDepth normalize options
        (sanitizeValueAtDepth normalize options v depth) depth =
      sanitizeValueAtDepth normalize options v depth ↔
    ∀ below s, Reached v below s → (depth + below : ℤ) ≤ options.maxDepth →
      Settles normalize options.maxStringLength s := by
  refine iff_of_true ?_ (fun below s _ hbelow => absurd hbelow (by omega))
  rw [sanitize_too_deep hdeep, sanitize_too_deep hdeep]

theorem again_iff (hnorm : Normalizer normalize) (v : Value) (hdistinct : Distinct v) :
    sanitizeValueAtDepth normalize options
        (sanitizeValueAtDepth normalize options v depth) depth =
      sanitizeValueAtDepth normalize options v depth ↔
    ∀ below s, Reached v below s → (depth + below : ℤ) ≤ options.maxDepth →
      Settles normalize options.maxStringLength s := by
  induction v using Value.induct_tree generalizing depth with
  | leaf v harray hobject =>
    by_cases hdepth : (depth : ℤ) ≤ options.maxDepth
    · cases v with
      | string s =>
        have hdeep : ¬ (depth : ℤ) > options.maxDepth := by omega
        simp only [sanitizeValueAtDepth, if_neg hdeep, Value.string.injEq]
        constructor
        · intro h below t ht hbelow
          cases ht
          exact settles_of_sanitizeUserString hnorm h
        · intro h
          exact sanitizeUserString_of_settles hnorm (h 0 s (.here s) (by omega))
      | array items => exact absurd rfl (harray items)
      | object members => exact absurd rfl (hobject members)
      | _ =>
        refine iff_of_true ?_ ?_
        · simp [sanitizeValueAtDepth, not_lt.mpr hdepth]
        · intro below t ht
          cases ht
    · exact again_too_deep (by omega) _
  | array items ih =>
    by_cases hdepth : (depth : ℤ) ≤ options.maxDepth
    · rw [again_array hdepth]
      constructor
      · intro h below s hs hbelow
        cases hs with
        | @item _ v _ d hmem hreached =>
          refine (ih v hmem (hdistinct.item hmem)).mp (h v hmem) d s hreached ?_
          push_cast at hbelow ⊢
          omega
      · intro h v hv
        refine (ih v hv (hdistinct.item hv)).mpr fun below s hs hbelow => ?_
        refine h (below + 1) s (.item hv hs) ?_
        push_cast at hbelow ⊢
        omega
    · exact again_too_deep (by omega) _
  | object members ih =>
    by_cases hdepth : (depth : ℤ) ≤ options.maxDepth
    · rw [again_object hdepth (hdistinct 0 members (.root _))]
      constructor
      · intro h below s hs hbelow
        cases hs with
        | @member _ m _ d hmem hkey hreached =>
          refine (ih m hmem (hdistinct.member hmem)).mp (h m hmem hkey) d s hreached ?_
          push_cast at hbelow ⊢
          omega
      · intro h m hm hkey
        refine (ih m hm (hdistinct.member hm)).mpr fun below s hs hbelow => ?_
        refine h (below + 1) s (.member hm hkey hs) ?_
        push_cast at hbelow ⊢
        omega
    · exact again_too_deep (by omega) _

end

/-- Sanitising twice gives what sanitising once gives exactly when every string that is reached
settles: it is not cut right before a word, and what is left of it is normalised. -/
theorem sanitizeValue_idempotent_iff (normalize : Units → Units) (hnorm : Normalizer normalize)
    (input : Value) (hdistinct : Distinct input) (options : Options) :
    sanitizeValue normalize (sanitizeValue normalize input options) options =
        sanitizeValue normalize input options ↔
      ∀ depth s, Reached input depth s → (depth : ℤ) ≤ options.limits.maxDepth →
        Settles normalize options.limits.maxStringLength s := by
  rw [sanitizeValue, sanitizeValue, again_iff hnorm input hdistinct]
  simp only [Nat.cast_zero, zero_add]

theorem sampleBody_distinct : Distinct sampleBody := by
  intro d members hnode
  cases hnode with
  | root => decide
  | member hmem hnode =>
    rcases List.mem_cons.mp hmem with rfl | hmem
    · cases hnode
    · obtain rfl := List.mem_singleton.mp hmem
      cases hnode

theorem sampleBody_settles (depth : ℕ) (s : Units) (h : Reached sampleBody depth s) :
    Settles id 4096 s := by
  cases h with
  | member hmem hkey hreached =>
    rcases List.mem_cons.mp hmem with rfl | hmem
    · exact absurd hkey (by decide)
    · obtain rfl := List.mem_singleton.mp hmem
      cases hreached
      refine ⟨.inl (by decide), ?_, rfl⟩
      rintro ⟨j, hpos, hlt, hsum⟩
      have hwords : cleanWords id (units "a\n\tb\x7f") = [units "a", units "b"] := by decide
      rw [hwords] at hlt hsum
      obtain rfl : j = 1 := by
        simp only [List.length_cons, List.length_nil] at hlt
        omega
      exact absurd hsum (by decide)

theorem sanitizeValue_idempotent_sample :
    sanitizeValue id (sanitizeValue id sampleBody ⟨.undefined, .undefined⟩)
        ⟨.undefined, .undefined⟩ =
      sanitizeValue id sampleBody ⟨.undefined, .undefined⟩ :=
  (sanitizeValue_idempotent_iff id normalizer_id sampleBody sampleBody_distinct
    ⟨.undefined, .undefined⟩).mpr fun depth s hs _ => sampleBody_settles depth s hs

/- The blank at the cut is trimmed the second time. -/
theorem sanitizeValue_not_idempotent :
    sanitizeValue id (.string (units "aaa bbb")) ⟨.undefined, .number (.fin 4)⟩ =
        .string (units "aaa ") ∧
      sanitizeValue id (sanitizeValue id (.string (units "aaa bbb"))
          ⟨.undefined, .number (.fin 4)⟩) ⟨.undefined, .number (.fin 4)⟩ =
        .string (units "aaa") ∧
      ¬ ∀ (input : Value) (options : Options),
        sanitizeValue id (sanitizeValue id input options) options =
          sanitizeValue id input options := by
  refine ⟨rfl, rfl, ?_⟩
  intro h
  have heq := h (.string (units "aaa bbb")) ⟨.undefined, .number (.fin 4)⟩
  have hlen : (Value.string (units "aaa")) = .string (units "aaa ") := heq
  rw [Value.string.injEq] at hlen
  exact absurd hlen (by decide)

end Liquifact.Utils
