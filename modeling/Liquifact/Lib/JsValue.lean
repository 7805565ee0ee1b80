import Liquifact.Lib.JsNumber
import Liquifact.Lib.OrdMap

/-!
# ECMAScript values that cross a serialisation boundary

JSON values, `String.prototype.trim` with the code points it removes, and thrown values.
`Json.isPlainObject` is `v !== null && typeof v === 'object' && !Array.isArray(v)`,
`Thrown.describe` is `error && error.message ? error.message : String(error)`, and
`Thrown.ofMessage` is `new Error(message)`. `JsValue` has every value of the language;
reading a member of one is a lookup, which runs no code.
-/

namespace Liquifact.Lib

/-- A JSON value; an object lists its members in property order. -/
inductive Json where
  | null
  | bool (b : Bool)
  | num (x : JsNumber)
  | str (s : String)
  | arr (items : List Json)
  | obj (members : List (String × Json))

def Json.isPlainObject : Json → Bool
  | .obj _ => true
  | _ => false

def isJsSpace (c : Char) : Bool :=
  c.val ∈ [0x9, 0xA, 0xB, 0xC, 0xD, 0x20, 0xA0, 0x1680, 0x2028, 0x2029, 0x202F, 0x205F,
    0x3000, 0xFEFF] || (0x2000 ≤ c.val && c.val ≤ 0x200A)

def trim (s : String) : String :=
  String.ofList (((s.toList.dropWhile isJsSpace).reverse.dropWhile isJsSpace).reverse)

/- A string that may also be null or undefined: these and the empty one are falsy. -/
def truthy : Option String → Option String
  | some "" => none
  | s => s

theorem truthy_of_ne {s : String} (h : s ≠ "") : truthy (some s) = some s := by
  rw [truthy.eq_def]
  split
  · simp_all
  · rfl

def JsNumber.truthy : JsNumber → Bool
  | .nan => false
  | .fin q => decide (q ≠ 0)
  | _ => true

def Json.truthy : Json → Bool
  | .null => false
  | .bool b => b
  | .num x => x.truthy
  | .str s => decide (s ≠ "")
  | .arr _ => true
  | .obj _ => true

/- `v.name`; `none` is undefined. -/
def Json.member (name : String) : Json → Option Json
  | .obj members => OrdMap.lookupL name members
  | _ => none

/- `a || b`, where `none` is undefined. -/
def jsOr (a b : Option Json) : Option Json :=
  match a with
  | some v => if v.truthy then some v else b
  | none => b

/-- Any value; arrays and functions are objects with the members they have. -/
inductive JsValue where
  | undefined
  | null
  | bool (b : Bool)
  | number (x : JsNumber)
  | bigint (n : ℤ)
  | string (s : String)
  | symbol
  | object (members : List (String × JsValue))

namespace JsValue

def truthy : JsValue → Bool
  | .undefined => false
  | .null => false
  | .bool b => b
  | .number x => x.truthy
  | .bigint n => decide (n ≠ 0)
  | .string s => decide (s ≠ "")
  | .symbol => true
  | .object _ => true

/- `v?.name`: no member of null or undefined, and none that is read here of a primitive. -/
def get (name : String) : JsValue → JsValue
  | .object members => (OrdMap.lookupL name members).getD .undefined
  | _ => .undefined

/- `v === text`. -/
def isText (v : JsValue) (text : String) : Bool :=
  match v with
  | .string s => decide (s = text)
  | _ => false

/- The text of a value with `typeof v === 'string'`. -/
def asString : JsValue → Option String
  | .string s => some s
  | _ => none

/- `v || fallback`. -/
def or (v fallback : JsValue) : JsValue := if v.truthy then v else fallback

end JsValue

/-- A value a handler throws: its `message` property if it has one, and `String(v)`. -/
structure Thrown where
  message : Option String
  text : String

def Thrown.describe (e : Thrown) : String :=
  match e.message with
  | none => e.text
  | some m => if m = "" then e.text else m

def Thrown.ofMessage (m : String) : Thrown :=
  ⟨some m, if m = "" then "Error" else "Error: " ++ m⟩

end Liquifact.Lib
