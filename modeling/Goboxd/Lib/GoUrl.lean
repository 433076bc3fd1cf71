import Goboxd.Lib.GoPath
import Goboxd.Lib.GoSearch

/-!
# The paths of URLs

What package `net/url` does to the path of a request. A URL keeps the path
decoded, and keeps the spelling it came in beside it only when that is not the
one the package would choose itself. `EscapedPath` answers a spelling: the kept
one if it is fit to be one, and else its own.

Whatever a URL holds, the spelling it answers decodes to its path, because a kept
one is only used when it does. A slash in a spelling is a slash in the path, and
the converse fails, as `%2F` is one too: a reader of the spelling and a
reader of the path agree on a path of one element when that element has no
slash in it.
-/

namespace Go

/-! ## Percent-encoding -/

/-- `unhex`, of a digit. -/
def unhex (c : UInt8) : Option Nat :=
  if 48 ≤ c ∧ c ≤ 57 then some (c.toNat - 48)
  else if 97 ≤ c ∧ c ≤ 102 then some (c.toNat - 87)
  else if 65 ≤ c ∧ c ≤ 70 then some (c.toNat - 55)
  else none

def upperhex (n : Nat) : UInt8 := UInt8.ofNat (if n < 10 then 48 + n else 55 + n)

/-- `url.PathUnescape`. -/
def unescape : GoString → Option GoString
  | [] => some []
  | c :: s =>
      if c = 37 then
        match s with
        | h :: l :: s =>
            (unhex h).bind fun h =>
              (unhex l).bind fun l => (unescape s).map fun t => UInt8.ofNat (h * 16 + l) :: t
        | _ => none
      else (unescape s).map fun t => c :: t

/-- `pathUnescape` of `net/http`: what cannot be decoded stands for itself. -/
def pathUnescape (s : GoString) : GoString := (unescape s).getD s

/-- `shouldEscape` in a path. -/
def shouldEscape (c : UInt8) : Bool :=
  !(97 ≤ c ∧ c ≤ 122 ∨ 65 ≤ c ∧ c ≤ 90 ∨ 48 ≤ c ∧ c ≤ 57 ∨ c ∈ str "-_.~$&+,/:;=@")

/-- `escape` of a path. -/
def escape (s : GoString) : GoString :=
  s.flatMap fun c =>
    if shouldEscape c then [37, upperhex (c.toNat / 16), upperhex (c.toNat % 16)] else [c]

/-- `validEncoded`: nothing in the spelling had to be escaped. -/
def validEncoded (s : GoString) : Bool :=
  s.all fun c => (str "!$&'()*+,;=:@[]%").contains c || !shouldEscape c

theorem unescape_percent (h l : UInt8) (s : GoString) :
    unescape (37 :: h :: l :: s) =
      (unhex h).bind fun h =>
        (unhex l).bind fun l => (unescape s).map fun t => UInt8.ofNat (h * 16 + l) :: t := by
  rw [unescape, if_pos rfl]

theorem unescape_cons {c : UInt8} (hc : c ≠ 37) (s : GoString) :
    unescape (c :: s) = (unescape s).map fun t => c :: t := by
  rw [unescape.eq_def]
  exact if_neg hc

theorem unhex_upperhex : ∀ n < 16, unhex (upperhex n) = some n := by decide

/-- Decoding undoes encoding. -/
theorem unescape_escape (s : GoString) : unescape (escape s) = some s := by
  induction s with
  | nil => rfl
  | cons c s ih =>
      rw [escape, List.flatMap_cons, ← escape]
      split
      · have hlt : c.toNat < 256 := UInt8.toNat_lt c
        have hbyte : UInt8.ofNat (c.toNat / 16 * 16 + c.toNat % 16) = c := by
          rw [Nat.div_add_mod', UInt8.ofNat_toNat]
        simp only [List.cons_append, List.nil_append]
        rw [unescape_percent, unhex_upperhex _ (by omega), unhex_upperhex _ (by omega), ih]
        simp only [Option.bind_some, Option.map_some, hbyte]
      · next hkept =>
          have hc : c ≠ 37 := by
            rintro rfl
            exact hkept rfl
          rw [List.singleton_append, unescape_cons hc, ih]
          rfl

theorem eq_nil_of_unescape {s : GoString} (h : unescape s = some []) : s = [] := by
  fun_induction unescape s with
  | case1 => rfl
  | case2 h' l s ih =>
      simp only [Option.bind_eq_some_iff, Option.map_eq_some_iff, List.cons_ne_nil, and_false,
        exists_false] at h
  | case3 => cases h
  | case4 c s hc ih =>
      simp only [Option.map_eq_some_iff, List.cons_ne_nil, and_false, exists_false] at h

/-- A slash that is spelled out stays one. -/
theorem mem_of_unescape {s t : GoString} (h : unescape s = some t) (hs : 47 ∈ s) : 47 ∈ t := by
  have hhex : unhex 47 = none := by decide
  fun_induction unescape s generalizing t with
  | case1 => cases hs
  | case2 h' l s ih =>
      simp only [Option.bind_eq_some_iff, Option.map_eq_some_iff] at h
      obtain ⟨x, hx, y, hy, u, hu, rfl⟩ := h
      rcases List.mem_cons.mp hs with hs | hs
      · cases hs
      rcases List.mem_cons.mp hs with rfl | hs
      · rw [hhex] at hx
        cases hx
      rcases List.mem_cons.mp hs with rfl | hs
      · rw [hhex] at hy
        cases hy
      exact List.mem_cons_of_mem _ (ih hu hs)
  | case3 => cases h
  | case4 c s hc ih =>
      obtain ⟨u, hu, rfl⟩ := Option.map_eq_some_iff.mp h
      rcases List.mem_cons.mp hs with rfl | hs
      · exact List.mem_cons_self
      · exact List.mem_cons_of_mem _ (ih hu hs)

/-! ## URLs -/

/-- The fields `Path` and `RawPath`. -/
structure Url where
  path : GoString
  rawPath : GoString
deriving DecidableEq, Repr

/-- `setPath`, of the path as it was sent. -/
def setPath (p : GoString) : Option Url :=
  (unescape p).map fun path => ⟨path, if escape path = p then [] else p⟩

/-- `EscapedPath`. -/
def Url.escapedPath (u : Url) : GoString :=
  if u.rawPath ≠ [] ∧ validEncoded u.rawPath = true ∧ unescape u.rawPath = some u.path then
    u.rawPath
  else if u.path = str "*" then str "*"
  else escape u.path

/-- The spelling decodes to the path. -/
theorem unescape_escapedPath (u : Url) : unescape u.escapedPath = some u.path := by
  unfold Url.escapedPath
  split
  · next h => exact h.2.2
  · split
    · next hstar =>
        rw [hstar]
        rfl
    · exact unescape_escape _

/-- The spelling of a path that was sent with a slash in front has one, too. -/
theorem escapedPath_slash {p : GoString} {u : Url} (hp : isAbs p = true)
    (hu : setPath p = some u) : isAbs u.escapedPath = true := by
  obtain ⟨path, hpath, rfl⟩ := Option.map_eq_some_iff.mp hu
  obtain ⟨rest, rfl⟩ := isAbs_iff.mp hp
  rw [unescape_cons (by decide)] at hpath
  obtain ⟨t, -, rfl⟩ := Option.map_eq_some_iff.mp hpath
  have hescape : isAbs (escape (47 :: t)) = true := isAbs_iff.mpr ⟨escape t, rfl⟩
  have hstar : (47 :: t : GoString) ≠ str "*" := fun heq => by
    have hhead : (47 : UInt8) = 42 := (List.cons.inj heq).1
    exact absurd hhead (by decide)
  rw [Url.escapedPath, if_neg hstar]
  by_cases hown : escape (47 :: t) = 47 :: rest
  · rw [if_pos hown, if_neg fun h => h.1 rfl]
    exact hescape
  · rw [if_neg hown]
    split
    · exact hp
    · exact hescape

/-! ## Addresses -/

/-- The host of `net.SplitHostPort`, when that answers no error. -/
def splitHostPort (hostport : GoString) : Option GoString :=
  match lastIndex (str ":") hostport with
  | none => none
  | some i =>
      if hasPrefix hostport (str "[") then
        match index (str "]") hostport with
        | none => none
        | some e =>
            if e + 1 = i ∧ ¬ (hostport.drop 1).contains 91 ∧
                ¬ (hostport.drop (e + 1)).contains 93 then
              some ((hostport.take e).drop 1)
            else none
      else if (hostport.take i).contains 58 ∨ hostport.contains 91 ∨ hostport.contains 93 then
        none
      else some (hostport.take i)

end Go
