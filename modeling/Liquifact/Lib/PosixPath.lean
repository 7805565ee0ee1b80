import Liquifact.Lib.CodeUnits

/-!
# POSIX paths of the Node library

`normalize` and `basename` are `path.posix.normalize` and `path.posix.basename`, in terms
of the segments between slashes: empty ones and `.` are dropped, and `..` takes the segment
before it away or, where there is none, stays at the front of a relative path.
-/

namespace Liquifact.Lib.PosixPath

def slash : UInt16 := 0x2F

def dot : UInt16 := 0x2E

/- The segments that are left, the last one first. -/
def resolve (allowAboveRoot : Bool) : List Units → List Units → List Units
  | left, [] => left
  | left, segment :: segments =>
    if segment = [] ∨ segment = [dot] then resolve allowAboveRoot left segments
    else if segment = [dot, dot] then
      match left with
      | [] => resolve allowAboveRoot (if allowAboveRoot then [[dot, dot]] else []) segments
      | last :: rest =>
        if last = [dot, dot] then
          resolve allowAboveRoot (if allowAboveRoot then [dot, dot] :: left else left) segments
        else resolve allowAboveRoot rest segments
    else resolve allowAboveRoot (segment :: left) segments

def normalize (path : Units) : Units :=
  if path = [] then [dot]
  else
    let isAbsolute := decide (path.head? = some slash)
    let trailingSeparator := decide (path.getLast? = some slash)
    let resolved := [slash].intercalate (resolve (!isAbsolute) [] (path.splitOn slash)).reverse
    if resolved = [] then
      if isAbsolute then [slash] else if trailingSeparator then [dot, slash] else [dot]
    else
      let closed := if trailingSeparator then resolved ++ [slash] else resolved
      if isAbsolute then slash :: closed else closed

/- The last segment that is not empty. -/
def basename (path : Units) : Units :=
  ((path.splitOn slash).filter fun segment => !segment.isEmpty).getLast?.getD []

example : normalize (units "a/./b//../c") = units "a/c" := by decide

end Liquifact.Lib.PosixPath
