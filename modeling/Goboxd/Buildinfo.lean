import Goboxd.Lib.GoSearch

/-!
# Versions

`AtLeast` of package `buildinfo`, by which `/info` tells an operator whether the
service is at least as new as a version asked for. What stands behind the first
minus or plus is dropped, and of the three numbers in front of it those that are
missing or that `Atoi` refuses count as zero.
-/

namespace Goboxd.Buildinfo

open Go

/-- `Version`, unless the linker sets another. -/
def version : GoString := str "0.2.0"

/-- What `parts` makes of one segment. -/
def segment (s : GoString) : Int :=
  match atoi (trimSpace s) with
  | some n => if n ≥ 0 then n else 0
  | none => 0

/-- The version without "-..." and "+...". -/
def dropMetadata (v : GoString) : GoString :=
  match indexAny v (str "-+") with
  | some i => v.take i
  | none => v

/-- `parts`, the three elements of its array. -/
def parts (v : GoString) : List Int :=
  let segments := splitN 46 3 (dropMetadata v)
  (List.range 3).map fun i => (segments[i]?).elim 0 segment

/-- The loop of `AtLeast`, over the elements still to be compared. -/
def compareFrom : List Int → List Int → Bool
  | a :: as, b :: bs => if a ≠ b then a > b else compareFrom as bs
  | _, _ => true

def atLeast (current minimum : GoString) : Bool :=
  compareFrom (parts current) (parts minimum)

/-- What `HandleInfo` adds to `build_info` when the query has a `min`. -/
structure MinVersion where
  minVersionRequested : GoString
  versionSatisfiesMin : Bool
deriving DecidableEq, Repr

def minVersion (version min : GoString) : Option MinVersion :=
  if min ≠ [] then some ⟨min, atLeast version min⟩ else none

end Goboxd.Buildinfo
