import Mathlib.Data.List.Basic
import Mathlib.Tactic.Common
import Liquifact.Lib.JsString

/-!
# Strings as code units

What cuts, trims or replaces in a string works on its UTF-16 code units and may leave half
of a surrogate pair, so here a string is the list of its units. `isSpaceUnit` is the class
`\s`, which `trim` takes away as well, and `sliceTo n s` is `s.slice(0, n)`.
-/

namespace Liquifact.Lib

abbrev Units := List UInt16

def units (s : String) : Units := (utf16 s).map UInt16.ofNat

def isSpaceUnit (u : UInt16) : Bool :=
  [0x9, 0xA, 0xB, 0xC, 0xD, 0x20, 0xA0, 0x1680, 0x2028, 0x2029, 0x202F, 0x205F, 0x3000,
    0xFEFF].contains u || (0x2000 ≤ u && u ≤ 0x200A)

/- A negative place counts from the end. -/
def sliceTo (n : ℤ) (s : Units) : Units :=
  if 0 ≤ n then s.take n.toNat else s.take (s.length - n.natAbs)

/- `s.includes(part)`. -/
def includes (part : Units) : Units → Bool
  | [] => part.isEmpty
  | u :: s => part.isPrefixOf (u :: s) || includes part s

theorem includes_iff (part s : Units) : includes part s = true ↔ part.IsInfix s := by
  induction s with
  | nil => simp [includes]
  | cons u s ih =>
    rw [includes, Bool.or_eq_true, List.isPrefixOf_iff_prefix, ih]
    exact List.infix_cons_iff.symm

theorem sliceTo_isPrefix (n : ℤ) (s : Units) : (sliceTo n s).IsPrefix s := by
  unfold sliceTo
  split
  · exact List.take_prefix _ s
  · exact List.take_prefix _ s

theorem length_sliceTo_le {n : ℤ} (hn : 0 ≤ n) (s : Units) : ((sliceTo n s).length : ℤ) ≤ n := by
  rw [sliceTo, if_pos hn, List.length_take]
  omega

end Liquifact.Lib
