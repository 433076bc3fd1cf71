import Goboxd.Lib.GoUrl

/-!
# The request multiplexer

`http.ServeMux`, of patterns with a method and without a host. A pattern is
matched element by element against the path as it is spelled, each element
decoded on its own, and not against the path of the URL, which is decoded as
a whole. A path that is not clean is answered with a redirect, and so never
reaches a handler under another name.

The search prefers a literal element to a wildcard at every place. It finds a
pattern that matches when there is one, and one that is spelled out when there
is one of those. For a path of one element this settles the two readings of a
path: the multiplexer sees that element in the spelling exactly when the path
of the URL is a slash and the element.
-/

namespace Go

/-- An element of a pattern. The last of a pattern that ends in a slash is `multi`,
and it takes all that is left. -/
inductive Seg where
  | lit (w : GoString)
  | wild
  | multi
deriving DecidableEq, Repr

structure Pattern (H : Type) where
  method : GoString
  segs : List Seg
  handler : H

structure ServeMux (H : Type) where
  patterns : List (Pattern H)

/-- What is done with a request. The wildcards of the pattern have their values. -/
inductive Found (H : Type) where
  | handler (h : H) (values : List GoString)
  | redirect
  | notAllowed
  | notFound
  | badRequest
deriving DecidableEq, Repr

/-- `cleanPath`. -/
def cleanPath (p : GoString) : GoString :=
  if p = [] then str "/"
  else
    let rooted := if isAbs p then p else 47 :: p
    let np := pathClean rooted
    if hasSuffix rooted (str "/") ∧ np ≠ str "/" then np ++ str "/" else np

/-- The elements of a path as `firstSegment` takes them off. A slash at the end
is an element. -/
def segments : List GoString → List GoString
  | [] => []
  | [s] => [if s = [] then str "/" else pathUnescape s]
  | s :: ss => pathUnescape s :: segments ss

def segmentsOf (path : GoString) : List GoString := segments (split 47 path).tail

/-- The child of a node: the patterns that begin with the element, behind it. -/
def below {α : Type} (s : Seg) (ps : List (List Seg × α)) : List (List Seg × α) :=
  ps.filterMap fun p =>
    match p.1 with
    | s' :: t => if s' = s then some (t, p.2) else none
    | [] => none

/-- `matchPath`. -/
def matchPath {α : Type} : List GoString → List (List Seg × α) → Option α
  | [], ps => (ps.find? fun p => p.1 = []).map Prod.snd
  | seg :: rest, ps =>
      (matchPath rest (below (.lit seg) ps)).or
        ((if seg = str "/" then none else matchPath rest (below .wild ps)).or
          ((ps.find? fun p => p.1 = [.multi]).map Prod.snd))

/-- The values of the wildcards. -/
def Pattern.values {H : Type} (p : Pattern H) (segs : List GoString) : List GoString :=
  ((p.segs.zip segs).filter fun e => e.1 = .wild).map Prod.snd

/-- `exactMatch`. -/
def Pattern.exact {H : Type} (p : Pattern H) (path : GoString) : Bool :=
  if p.segs.getLast? = some .multi then
    hasSuffix path (str "/") && p.segs.length = path.count 47
  else true

namespace ServeMux

variable {H : Type}

/-- The patterns of a method, by their elements. -/
def ofMethod (m : ServeMux H) (method : GoString) : List (List Seg × Pattern H) :=
  (m.patterns.filter fun p => p.method = method).map fun p => (p.segs, p)

/-- `matchMethodAndPath`. -/
def lookup (m : ServeMux H) (method path : GoString) : Option (Pattern H) :=
  (matchPath (segmentsOf path) (m.ofMethod method)).or
    (if method = str "HEAD" then matchPath (segmentsOf path) (m.ofMethod (str "GET")) else none)

/-- `matchOrRedirect` answers the redirect to the path with a slash behind it. -/
def slashRedirect (m : ServeMux H) (method path : GoString) : Bool :=
  !(m.lookup method path).any (fun p => p.exact path) && !hasSuffix path (str "/") &&
    (m.lookup method (path ++ str "/")).any fun p => p.exact (path ++ str "/")

/-- `matchingMethods` is not empty. -/
def allows (m : ServeMux H) (path : GoString) : Bool :=
  m.patterns.any fun p =>
    (matchPath (segmentsOf path) (m.ofMethod p.method)).isSome ||
      !hasSuffix path (str "/") &&
        (matchPath (segmentsOf (path ++ str "/")) (m.ofMethod p.method)).isSome

/-- `ServeHTTP`, up to the call of the handler. -/
def find (m : ServeMux H) (method : GoString) (u : Url) : Found H :=
  let path := if method = str "CONNECT" then u.escapedPath else cleanPath u.escapedPath
  if u.path = str "*" then .badRequest
  else if m.slashRedirect method path then .redirect
  else if path ≠ u.escapedPath then .redirect
  else
    match m.lookup method path with
    | some p => .handler p.handler (p.values (segmentsOf path))
    | none => if m.allows path then .notAllowed else .notFound

end ServeMux

/-! ## What matches -/

/-- The elements are those of the pattern. -/
def Matches : List Seg → List GoString → Prop
  | [], [] => True
  | .multi :: _, _ :: _ => True
  | .lit w :: ps, s :: ss => s = w ∧ Matches ps ss
  | .wild :: ps, s :: ss => s ≠ str "/" ∧ Matches ps ss
  | _, _ => False

section

variable {α : Type} {ps : List (List Seg × α)}

theorem mem_below {s : Seg} {t : List Seg} {a : α} :
    (t, a) ∈ below s ps ↔ (s :: t, a) ∈ ps := by
  rw [below, List.mem_filterMap]
  constructor
  · rintro ⟨⟨segs, b⟩, hp, h⟩
    cases segs with
    | nil => cases h
    | cons s' t' =>
        simp only at h
        split at h
        · next heq =>
            cases h
            rw [← heq]
            exact hp
        · cases h
  · intro h
    exact ⟨_, h, if_pos rfl⟩

theorem find?_snd {segs : List Seg} {a : α}
    (h : (ps.find? fun p => p.1 = segs).map Prod.snd = some a) : (segs, a) ∈ ps := by
  obtain ⟨⟨segs', b⟩, hp, rfl⟩ := Option.map_eq_some_iff.mp h
  have heq := List.find?_some hp
  have heq : segs' = segs := of_decide_eq_true heq
  rw [← heq]
  exact List.mem_of_find?_eq_some hp

theorem isSome_find?_snd {segs : List Seg} {a : α} (h : (segs, a) ∈ ps) :
    ((ps.find? fun p => p.1 = segs).map Prod.snd).isSome = true := by
  rw [Option.isSome_map, List.find?_isSome]
  exact ⟨_, h, decide_eq_true rfl⟩

/-- What is found matches. -/
theorem matchPath_matches : ∀ {segs : List GoString} {ps : List (List Seg × α)} {a : α},
    matchPath segs ps = some a → ∃ p, (p, a) ∈ ps ∧ Matches p segs := by
  intro segs
  induction segs with
  | nil => exact fun h => ⟨[], find?_snd h, trivial⟩
  | cons seg rest ih =>
      intro ps a h
      rw [matchPath, Option.or_eq_some_iff] at h
      rcases h with h | ⟨-, h⟩
      · obtain ⟨p, hp, hm⟩ := ih h
        exact ⟨.lit seg :: p, mem_below.mp hp, rfl, hm⟩
      rw [Option.or_eq_some_iff] at h
      rcases h with h | ⟨-, h⟩
      · split at h
        · cases h
        · next hne =>
            obtain ⟨p, hp, hm⟩ := ih h
            exact ⟨.wild :: p, mem_below.mp hp, hne, hm⟩
      · exact ⟨[.multi], find?_snd h, trivial⟩

/-- A pattern that is spelled out is found before any other. -/
theorem matchPath_lit : ∀ {segs : List GoString} {ps : List (List Seg × α)} {a : α},
    (segs.map .lit, a) ∈ ps → ∃ b, matchPath segs ps = some b ∧ (segs.map .lit, b) ∈ ps := by
  intro segs
  induction segs with
  | nil =>
      intro ps a h
      obtain ⟨b, hb⟩ := Option.isSome_iff_exists.mp (isSome_find?_snd h)
      exact ⟨b, hb, find?_snd hb⟩
  | cons seg rest ih =>
      intro ps a h
      obtain ⟨b, hb, hmem⟩ := ih (mem_below.mpr h)
      exact ⟨b, by rw [matchPath, hb]; rfl, mem_below.mp hmem⟩

end

/-! ## A path of one element -/

theorem segmentsOf_single {s : GoString} (hslash : 47 ∉ s) (hne : s ≠ []) :
    segmentsOf (47 :: s) = [pathUnescape s] := by
  rw [segmentsOf, split_cons_sep, List.tail_cons, split_self hslash, segments, if_neg hne]

theorem cleanPath_single {s : GoString} (h : Walk.IsName s) : cleanPath (47 :: s) = 47 :: s := by
  have habs : isAbs (47 :: s) = true := isAbs_iff.mpr ⟨s, rfl⟩
  have hwalk : walk (47 :: s) = ⟨0, [s]⟩ := by
    rw [walk, split_cons_sep, split_self h.no_slash]
    exact Walk.follow_names fun n hn => List.mem_singleton.mp hn ▸ h
  have hclean : pathClean (47 :: s) = 47 :: s := by
    rw [pathClean, hwalk, if_pos habs]
    rfl
  have hsuffix : hasSuffix (47 :: s) (str "/") = false := by
    rw [hasSuffix, ← Bool.not_eq_true, List.isSuffixOf_iff_suffix]
    rintro ⟨t, ht⟩
    cases t with
    | nil => exact h.ne_nil (List.cons.inj ht).2.symm
    | cons c t =>
        refine h.no_slash ?_
        rw [← (List.cons.inj ht).2]
        exact List.mem_append_right _ List.mem_cons_self
  rw [cleanPath, if_neg (by simp), habs]
  simp only [if_true, hclean, hsuffix, Bool.false_eq_true, false_and, if_false]

/-- A spelling of one element is one of a path of one element. -/
theorem path_of_segmentsOf {u : Url} {w : GoString} (hslash : 47 ∉ w)
    (habs : isAbs u.escapedPath = true) (h : segmentsOf u.escapedPath = [w]) :
    u.path = 47 :: w := by
  have hpath := unescape_escapedPath u
  obtain ⟨s, hs⟩ := isAbs_iff.mp habs
  rw [hs] at h hpath
  rw [segmentsOf, split_cons_sep, List.tail_cons] at h
  rw [unescape_cons (by decide)] at hpath
  obtain ⟨t, ht, hpath⟩ := Option.map_eq_some_iff.mp hpath
  have hsplit := join_split 47 s
  cases hparts : split 47 s with
  | nil => exact absurd hparts (split_ne_nil 47 s)
  | cons x xs =>
      rw [hparts] at h hsplit
      cases xs with
      | nil =>
          rw [show s = x from hsplit.symm] at ht
          rw [segments] at h
          split at h
          · rw [← (List.cons.inj h).1] at hslash
            exact absurd List.mem_cons_self hslash
          · rw [pathUnescape, ht] at h
            rw [← hpath, ← (List.cons.inj h).1]
            rfl
      | cons y ys =>
          have hlen := congrArg List.length h
          cases ys <;> simp [segments] at hlen

/-- A path of one element is spelled as one element, and cleanly. -/
theorem escapedPath_single {u : Url} {w : GoString} (hw : Walk.IsName w)
    (habs : isAbs u.escapedPath = true) (h : u.path = 47 :: w) :
    ∃ s, u.escapedPath = 47 :: s ∧ Walk.IsName s ∧ pathUnescape s = w := by
  have hpath := unescape_escapedPath u
  obtain ⟨s, hs⟩ := isAbs_iff.mp habs
  rw [hs, unescape_cons (by decide), h] at hpath
  obtain ⟨t, ht, hpath⟩ := Option.map_eq_some_iff.mp hpath
  rw [(List.cons.inj hpath).2] at ht
  refine ⟨s, hs, ⟨?_, ?_, ?_, fun hin => hw.no_slash (mem_of_unescape ht hin)⟩, ?_⟩
  · rintro rfl
    exact hw.ne_nil (Option.some.inj ht).symm
  · rintro rfl
    exact hw.ne_dot (Option.some.inj ht).symm
  · rintro rfl
    exact hw.ne_dots (Option.some.inj ht).symm
  · rw [pathUnescape, ht]
    rfl

/-! ## What is called -/

namespace ServeMux

variable {H : Type} {m : ServeMux H} {method path : GoString} {u : Url}

theorem mem_ofMethod {segs : List Seg} {p : Pattern H} :
    (segs, p) ∈ m.ofMethod method ↔ p ∈ m.patterns ∧ p.method = method ∧ p.segs = segs := by
  simp [ofMethod, and_assoc]

theorem lookup_matches {p : Pattern H} (h : m.lookup method path = some p) :
    p ∈ m.patterns ∧ (p.method = method ∨ method = str "HEAD" ∧ p.method = str "GET") ∧
      Matches p.segs (segmentsOf path) := by
  rw [lookup, Option.or_eq_some_iff] at h
  rcases h with h | ⟨-, h⟩
  · obtain ⟨segs, hp, hm⟩ := matchPath_matches h
    obtain ⟨hmem, hmethod, rfl⟩ := mem_ofMethod.mp hp
    exact ⟨hmem, .inl hmethod, hm⟩
  · split at h
    · next hhead =>
        obtain ⟨segs, hp, hm⟩ := matchPath_matches h
        obtain ⟨hmem, hmethod, rfl⟩ := mem_ofMethod.mp hp
        exact ⟨hmem, .inr ⟨hhead, hmethod⟩, hm⟩
    · cases h

/-- A handler that is called has a pattern that matches the spelling. -/
theorem find_handler {h : H} {values : List GoString}
    (hf : m.find method u = .handler h values) :
    ∃ p ∈ m.patterns, p.handler = h ∧
      (p.method = method ∨ method = str "HEAD" ∧ p.method = str "GET") ∧
      Matches p.segs (segmentsOf u.escapedPath) := by
  unfold find at hf
  simp only [] at hf
  generalize (if method = str "CONNECT" then u.escapedPath else cleanPath u.escapedPath) = path
    at hf
  split at hf
  · cases hf
  split at hf
  · cases hf
  split at hf
  · cases hf
  next hclean =>
  rw [not_not] at hclean
  subst hclean
  split at hf
  · next p hp =>
      cases hf
      obtain ⟨hmem, hmethod, hm⟩ := lookup_matches hp
      exact ⟨p, hmem, rfl, hmethod, hm⟩
  · split at hf <;> cases hf

/-- A path of one element calls the handler of the pattern that is this element. -/
theorem find_single {p : Pattern H} {w : GoString} (hp : p ∈ m.patterns)
    (hsegs : p.segs = [.lit w]) (hw : Walk.IsName w) (habs : isAbs u.escapedPath = true)
    (hpath : u.path = 47 :: w) :
    ∃ q ∈ m.patterns, q.method = p.method ∧ q.segs = [.lit w] ∧
      m.find p.method u = .handler q.handler [] := by
  obtain ⟨s, hs, hname, rfl⟩ := escapedPath_single hw habs hpath
  have hseg : segmentsOf (47 :: s) = [pathUnescape s] :=
    segmentsOf_single hname.no_slash hname.ne_nil
  have hlit : ([pathUnescape s].map Seg.lit, p) ∈ m.ofMethod p.method :=
    mem_ofMethod.mpr ⟨hp, rfl, hsegs⟩
  obtain ⟨q, hq, hmem⟩ := matchPath_lit hlit
  obtain ⟨hmem, hmethod, hqsegs⟩ := mem_ofMethod.mp hmem
  have hlookup : m.lookup p.method (47 :: s) = some q := by
    rw [lookup, hseg, hq]
    rfl
  have hexact : q.exact (47 :: s) = true := by
    rw [Pattern.exact, hqsegs]
    rfl
  have hstay : m.slashRedirect p.method (47 :: s) = false := by
    rw [slashRedirect, hlookup]
    simp [hexact]
  have hstar : u.path ≠ str "*" := by
    rw [hpath]
    intro heq
    have hhead : (47 : UInt8) = 42 := (List.cons.inj heq).1
    exact absurd hhead (by decide)
  have hspelled : (if p.method = str "CONNECT" then 47 :: s else cleanPath (47 :: s)) = 47 :: s := by
    rw [cleanPath_single hname, ite_self]
  refine ⟨q, hmem, hmethod, hqsegs, ?_⟩
  unfold find
  simp only []
  rw [hs, hspelled, if_neg hstar, hstay, if_neg Bool.false_ne_true, if_neg (by simp), hlookup]
  simp only [Pattern.values, hqsegs, hseg]
  rfl

end ServeMux

end Go
