import Liquifact.Lib.Blanks
import Liquifact.Lib.CodeUnits
import Liquifact.Lib.JsValue
import Mathlib.Tactic.Linarith

/-!
# Sanitising user input (`utils/sanitization.js`)

A value tree is rebuilt without dangerous keys and without what lies too deep, and its
strings are normalised. `normalize` is `String.prototype.normalize('NFKC')`, of which
nothing is used here. A hole of an array counts as an `undefined` item; both are dropped.
-/

namespace Liquifact.Utils
open Liquifact.Lib

/-- A value; an object lists its own enumerable properties in property order. -/
inductive Value where
  | undefined
  | null
  | bool (b : Bool)
  | number (x : JsNumber)
  | bigint (n : ℤ)
  | symbol (id : ℕ)
  | function (id : ℕ)
  | string (s : Units)
  | array (items : List Value)
  | object (members : List (Units × Value))

def Value.isUndefined : Value → Bool
  | .undefined => true
  | _ => false

def DANGEROUS_KEYS : List Units := ["__proto__", "prototype", "constructor"].map units

def DEFAULT_MAX_DEPTH : ℤ := 20

def DEFAULT_MAX_STRING_LENGTH : ℤ := 4096

/- `Number.isInteger(v) ? v : fallback`. -/
def integerOr (v : JsValue) (fallback : ℤ) : ℤ :=
  match v with
  | .number (.fin q) => if q.den = 1 then q.num else fallback
  | _ => fallback

/- `[\u0000-\u0008\u000B\u000C\u000E-\u001F\u007F]`. -/
def isNonPrintable (u : UInt16) : Bool :=
  u ≤ 0x8 || u == 0xB || u == 0xC || (0xE ≤ u && u ≤ 0x1F) || u == 0x7F

def blank : UInt16 := 0x20

/-- The caller's options as they are passed, with any value or none. -/
structure Options where
  maxDepth : JsValue
  maxStringLength : JsValue

structure Limits where
  maxDepth : ℤ
  maxStringLength : ℤ

def Options.limits (options : Options) : Limits where
  maxDepth := integerOr options.maxDepth DEFAULT_MAX_DEPTH
  maxStringLength := integerOr options.maxStringLength DEFAULT_MAX_STRING_LENGTH

variable (normalize : Units → Units)

def sanitizeUserString (value : Units) (maxLengthOption : JsValue) : Units :=
  let maxLength := integerOr maxLengthOption DEFAULT_MAX_STRING_LENGTH
  let normalized := trimEnds isSpaceUnit (collapse isSpaceUnit blank
    ((normalize value).filter fun u => !isNonPrintable u))
  if (normalized.length : ℤ) > maxLength then sliceTo maxLength normalized else normalized

mutual

def sanitizeValueAtDepth (options : Limits) (input : Value) (depth : ℕ) : Value :=
  if (depth : ℤ) > options.maxDepth then .undefined
  else
    match input with
    | .string s => .string (sanitizeUserString normalize s (.number (.fin options.maxStringLength)))
    | .array items =>
      .array ((sanitizeItems options items (depth + 1)).filter fun item => !item.isUndefined)
    | .object members => .object (sanitizeEntries options members (depth + 1) [])
    | input => input

/- The callback of `map`. -/
def sanitizeItems (options : Limits) : List Value → ℕ → List Value
  | [], _ => []
  | item :: items, depth =>
    sanitizeValueAtDepth options item depth :: sanitizeItems options items depth

/- The loop over `Object.entries`. -/
def sanitizeEntries (options : Limits) :
    List (Units × Value) → ℕ → List (Units × Value) → List (Units × Value)
  | [], _, sanitizedObject => sanitizedObject
  | (key, value) :: entries, depth, sanitizedObject =>
    if DANGEROUS_KEYS.contains key then sanitizeEntries options entries depth sanitizedObject
    else
      let sanitizedValue := sanitizeValueAtDepth options value depth
      if sanitizedValue.isUndefined then sanitizeEntries options entries depth sanitizedObject
      else sanitizeEntries options entries depth (OrdMap.setL key sanitizedValue sanitizedObject)

end

def sanitizeValue (input : Value) (options : Options) : Value :=
  sanitizeValueAtDepth normalize options.limits input 0

/-! ### Trees -/

/-- `NodeAt v d w`: the value `w` stands in `v`, `d` levels down. -/
inductive NodeAt : Value → ℕ → Value → Prop
  | root (v : Value) : NodeAt v 0 v
  | item {items : List Value} {v w : Value} {d : ℕ} (hmem : v ∈ items) (hnode : NodeAt v d w) :
      NodeAt (.array items) (d + 1) w
  | member {members : List (Units × Value)} {m : Units × Value} {w : Value} {d : ℕ}
      (hmem : m ∈ members) (hnode : NodeAt m.2 d w) : NodeAt (.object members) (d + 1) w

/-- The control characters U+0000..U+001F and U+007F. -/
def isControlUnit (u : UInt16) : Bool := u ≤ 0x1F || u == 0x7F

/- What the pattern of non-printable characters spares of them is white space. -/
theorem isSpaceUnit_of_spared {u : UInt16} (hcontrol : isControlUnit u = true)
    (hspared : isNonPrintable u = false) : isSpaceUnit u = true := by
  have hle : u ≤ 0x1F ∨ u = 0x7F := by simpa [isControlUnit] using hcontrol
  rcases hle with hle | rfl
  · have hnat : u.toNat < 32 := Nat.lt_succ_of_le (UInt16.le_iff_toNat_le.mp hle)
    have hcases : ∀ n < 32, isNonPrintable (UInt16.ofNat n) = false →
        isSpaceUnit (UInt16.ofNat n) = true := by
      decide
    rw [← UInt16.ofNat_toNat (x := u)] at hspared ⊢
    exact hcases _ hnat hspared
  · exact absurd hspared (by decide)

/-! ### One string -/

@[simp] theorem integerOr_intCast (n fallback : ℤ) :
    integerOr (.number (.fin n)) fallback = n := by
  simp [integerOr]

section

variable {normalize : Units → Units}

theorem sanitizeUserString_isPrefix (value : Units) (maxLength : JsValue) :
    (sanitizeUserString normalize value maxLength).IsPrefix
      (trimEnds isSpaceUnit (collapse isSpaceUnit blank
        ((normalize value).filter fun u => !isNonPrintable u))) := by
  simp only [sanitizeUserString]
  split
  · exact sliceTo_isPrefix _ _
  · exact List.prefix_refl _

theorem length_sanitizeUserString_le {maxLength : ℤ} (hmax : 0 ≤ maxLength) (value : Units) :
    ((sanitizeUserString normalize value (.number (.fin maxLength))).length : ℤ) ≤ maxLength := by
  simp only [sanitizeUserString, integerOr_intCast]
  split
  · exact length_sliceTo_le hmax _
  · omega

theorem apart_sanitizeUserString (value : Units) (maxLength : JsValue) :
    Apart isSpaceUnit (sanitizeUserString normalize value maxLength) :=
  (apart_trimEnds_collapse _).of_isInfix (sanitizeUserString_isPrefix value maxLength).isInfix

theorem not_control_of_mem_sanitizeUserString {value : Units} {maxLength : JsValue} {u : UInt16}
    (hu : u ∈ sanitizeUserString normalize value maxLength) : isControlUnit u = false := by
  have hclean := (sanitizeUserString_isPrefix value maxLength).subset hu
  rcases mem_trimEnds_collapse hclean with rfl | ⟨hmem, hspace⟩
  · decide
  · have hspared : isNonPrintable u = false := by simpa using (List.mem_filter.mp hmem).2
    rw [← Bool.not_eq_true]
    intro hcontrol
    exact Bool.false_ne_true (hspace.symm.trans (isSpaceUnit_of_spared hcontrol hspared))

/-! ### The tree -/

theorem sanitizeItems_eq (options : Limits) (items : List Value) (depth : ℕ) :
    sanitizeItems normalize options items depth =
      items.map fun item => sanitizeValueAtDepth normalize options item depth := by
  induction items with
  | nil => rfl
  | cons item items ih => rw [sanitizeItems, ih, List.map_cons]

/- A member of the rebuilt object was there before, or is a kept entry under its name. -/
theorem mem_sanitizeEntries {options : Limits} {entries : List (Units × Value)} {depth : ℕ}
    {object : List (Units × Value)} {m : Units × Value}
    (hm : m ∈ sanitizeEntries normalize options entries depth object) :
    m ∈ object ∨ ∃ e ∈ entries, m.1 = e.1 ∧ e.1 ∉ DANGEROUS_KEYS ∧
      m.2 = sanitizeValueAtDepth normalize options e.2 depth ∧ m.2.isUndefined = false := by
  induction entries generalizing object with
  | nil => exact .inl hm
  | cons e entries ih =>
    obtain ⟨key, value⟩ := e
    have hlater : ∀ {object' : List (Units × Value)},
        m ∈ sanitizeEntries normalize options entries depth object' →
        m ∈ object' ∨ ∃ e ∈ (key, value) :: entries, m.1 = e.1 ∧ e.1 ∉ DANGEROUS_KEYS ∧
          m.2 = sanitizeValueAtDepth normalize options e.2 depth ∧ m.2.isUndefined = false := by
      intro object' h
      exact (ih h).imp id fun ⟨e, he, hrest⟩ => ⟨e, List.mem_cons_of_mem _ he, hrest⟩
    simp only [sanitizeEntries] at hm
    split at hm
    · exact hlater hm
    · rename_i hkey
      split at hm
      · exact hlater hm
      · rename_i hdefined
        rcases hlater hm with hset | hlate
        · rcases OrdMap.mem_setL hset with rfl | hold
          · refine .inr ⟨(key, value), List.mem_cons_self, rfl, ?_, rfl, ?_⟩
            · simpa using hkey
            · simpa using hdefined
          · exact .inl hold
        · exact .inr hlate

/- Only a value that lies too deep, or is undefined, gives `undefined`. -/
theorem le_of_defined {options : Limits} {v : Value} {depth : ℕ}
    (h : (sanitizeValueAtDepth normalize options v depth).isUndefined = false) :
    (depth : ℤ) ≤ options.maxDepth := by
  by_contra hdeep
  rw [sanitizeValueAtDepth.eq_def, if_pos (by omega)] at h
  simp [Value.isUndefined] at h

/-- What is promised of a value that stands `depth` levels down in a result. -/
structure Harmless (options : Limits) (depth : ℕ) (node : Value) : Prop where
  shallow : (depth : ℤ) ≤ options.maxDepth
  keys : ∀ members, node = .object members → ∀ m ∈ members, m.1 ∉ DANGEROUS_KEYS
  short : ∀ s, node = .string s → (s.length : ℤ) ≤ options.maxStringLength
  printable : ∀ s, node = .string s → ∀ u ∈ s, isControlUnit u = false
  spaced : ∀ s, node = .string s → Apart isSpaceUnit s

/- What a result is made of, by the kind of the value. -/
theorem nodeAt_sanitizeValueAtDepth {options : Limits} (hlength : 0 ≤ options.maxStringLength)
    {result : Value} {below : ℕ} {node : Value} (hnode : NodeAt result below node) (v : Value)
    (depth : ℕ) (hdepth : (depth : ℤ) ≤ options.maxDepth)
    (hresult : result = sanitizeValueAtDepth normalize options v depth) :
    Harmless options (depth + below) node := by
  induction hnode generalizing v depth with
  | root result =>
    rw [sanitizeValueAtDepth.eq_def, if_neg (by omega)] at hresult
    subst hresult
    cases v with
    | string s =>
      constructor
      · exact hdepth
      · intro members h
        cases h
      · intro t h
        cases h
        exact length_sanitizeUserString_le hlength s
      · intro t h u hu
        cases h
        exact not_control_of_mem_sanitizeUserString hu
      · intro t h
        cases h
        exact apart_sanitizeUserString s _
    | object members =>
      constructor
      · exact hdepth
      · intro rebuilt h m hm
        cases h
        rcases mem_sanitizeEntries hm with hnone | ⟨e, -, hname, hkey, -⟩
        · cases hnone
        · rwa [hname]
      all_goals
        intro t h
        cases h
    | _ =>
      constructor
      · exact hdepth
      all_goals
        intro t h
        cases h
  | @item items w node d hmem _ ih =>
    rw [sanitizeValueAtDepth.eq_def, if_neg (by omega)] at hresult
    cases v with
    | array source =>
      cases hresult
      obtain ⟨hw, hdefined⟩ := List.mem_filter.mp hmem
      rw [sanitizeItems_eq] at hw
      obtain ⟨item, -, rfl⟩ := List.mem_map.mp hw
      have hshallow := le_of_defined (by simpa using hdefined)
      have hbelow := ih item (depth + 1) hshallow rfl
      rwa [show depth + (d + 1) = depth + 1 + d by omega]
    | _ => cases hresult
  | @member members m node d hmem _ ih =>
    rw [sanitizeValueAtDepth.eq_def, if_neg (by omega)] at hresult
    cases v with
    | object source =>
      cases hresult
      rcases mem_sanitizeEntries hmem with hnone | ⟨e, -, -, -, hvalue, hdefined⟩
      · cases hnone
      · rw [hvalue] at hdefined
        have hbelow := ih e.2 (depth + 1) (le_of_defined hdefined) hvalue
        rwa [show depth + (d + 1) = depth + 1 + d by omega]
    | _ => cases hresult

end

/-- No dangerous key, nothing too deep and no unclean string is left anywhere in a result. -/
theorem sanitizeValue_harmless (normalize : Units → Units) (input : Value) (options : Options)
    (hdepth : 0 ≤ options.limits.maxDepth) (hlength : 0 ≤ options.limits.maxStringLength)
    (depth : ℕ) (node : Value) (hnode : NodeAt (sanitizeValue normalize input options) depth node) :
    Harmless options.limits depth node := by
  have hall := nodeAt_sanitizeValueAtDepth hlength hnode input 0 (by simpa using hdepth) rfl
  rwa [Nat.zero_add] at hall

/- A dangerous key, and a string with a control character and a run of white space. -/
def sampleBody : Value :=
  .object [(units "constructor", .null), (units "memo", .string (units "a\n\tb\x7f"))]

theorem sampleBody_memo :
    NodeAt (sanitizeValue id sampleBody ⟨.undefined, .undefined⟩) 1 (.string (units "a b")) := by
  refine .member (m := (units "memo", .string (units "a b"))) ?_ (.root _)
  exact List.mem_of_mem_head? rfl

theorem sanitizeValue_harmless_sample :
    NodeAt (sanitizeValue id sampleBody ⟨.undefined, .undefined⟩) 1 (.string (units "a b")) ∧
      Harmless ⟨20, 4096⟩ 1 (.string (units "a b")) := by
  refine ⟨sampleBody_memo, ?_⟩
  exact sanitizeValue_harmless id sampleBody ⟨.undefined, .undefined⟩ (by decide) (by decide) 1 _
    sampleBody_memo

end Liquifact.Utils
