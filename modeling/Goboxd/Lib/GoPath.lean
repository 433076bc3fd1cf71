import Goboxd.Lib.GoString

/-!
# Slash-separated paths

Package `path`, which knows nothing of a file system. Cleaning a path is a walk
through its elements: an empty one and a dot stay, two dots go back over the
last name or, where there is none, one level up, and anything else goes down.
What is left of it is how many levels up and which names down, and that is
what the cleaned path spells.

A walk that starts where another ended is the composition of the two. The names
of the first that the second does not climb over are kept, and the levels it
climbs beyond them are added, unless the path is rooted, where they are lost.
From this it can be read off when a path joined to a directory stays inside it.

Elements none of which goes back can only lead down, and what is joined to a
clean directory then is spelled by the directory and the elements that are
names, the empty ones and the dots left out.
-/

namespace Go

/-- `path.IsAbs`. -/
def isAbs (path : GoString) : Bool := hasPrefix path (str "/")

/-- Where a walk has come: so many levels up, then down through the names. -/
structure Walk where
  ups : Nat
  names : List GoString
deriving DecidableEq, Repr

def Walk.here : Walk := ⟨0, []⟩

/-- One element of a path. Above the root there is nothing to go up to. -/
def Walk.step (rooted : Bool) (w : Walk) (elem : GoString) : Walk :=
  if elem = [] ∨ elem = str "." then w
  else if elem = str ".." then
    if w.names ≠ [] then { w with names := w.names.dropLast }
    else if rooted then w
    else { w with ups := w.ups + 1 }
  else { w with names := w.names ++ [elem] }

def Walk.follow (rooted : Bool) (w : Walk) (elems : List GoString) : Walk :=
  elems.foldl (Walk.step rooted) w

def walk (path : GoString) : Walk := Walk.here.follow (isAbs path) (split 47 path)

/-- The walk of a path that starts wherever one is. -/
def relWalk (path : GoString) : Walk := Walk.here.follow false (split 47 path)

/-- How a walk is spelled. -/
def Walk.elems (w : Walk) : List GoString := List.replicate w.ups (str "..") ++ w.names

/-- `path.Clean`. -/
def pathClean (path : GoString) : GoString :=
  let elems := join 47 (walk path).elems
  if isAbs path then 47 :: elems else if elems = [] then str "." else elems

/-- `path.Join`. Empty elements in front are dropped. -/
def pathJoin (elems : List GoString) : GoString :=
  match elems.dropWhile fun e => e = [] with
  | [] => []
  | elems => pathClean (join 47 elems)

/-- `path.Ext`. -/
def pathExt (path : GoString) : GoString :=
  let last := path.reverse.takeWhile fun c => c ≠ 47
  if last.contains 46 then ((last.takeWhile fun c => c ≠ 46) ++ [46]).reverse else []

/-- `filepath.Dir`. -/
def pathDir (path : GoString) : GoString :=
  pathClean (path.reverse.dropWhile fun c => c ≠ 47).reverse

/-- `filepath.Base`. -/
def pathBase (path : GoString) : GoString :=
  if path = [] then str "."
  else
    let last := (path.reverse.dropWhile fun c => c = 47).takeWhile fun c => c ≠ 47
    if last = [] then str "/" else last.reverse

/-- The path leads to the directory or somewhere below it. -/
structure Under (dir path : GoString) : Prop where
  isAbs : isAbs path = isAbs dir
  ups : (walk path).ups = (walk dir).ups
  names : (walk dir).names <+: (walk path).names

/-- Taken from the directory, the path climbs over no more names than it has,
and goes down again through those it climbed over. Over the root there is
nothing to climb. -/
structure StaysIn (dir path : GoString) : Prop where
  ups : isAbs dir = true ∨ (relWalk path).ups ≤ (walk dir).names.length
  names : (walk dir).names.drop ((walk dir).names.length - (relWalk path).ups) <+:
    (relWalk path).names

/-! ## Walks -/

namespace Walk

variable {rooted : Bool} {w v : Walk} {elem : GoString} {elems : List GoString}

theorem follow_append (elems elems' : List GoString) :
    w.follow rooted (elems ++ elems') = (w.follow rooted elems).follow rooted elems' :=
  List.foldl_append

/-- The walk `v`, made relative to where `w` has come. -/
def after (rooted : Bool) (w v : Walk) : Walk where
  ups := if rooted then w.ups else w.ups + (v.ups - w.names.length)
  names := w.names.take (w.names.length - v.ups) ++ v.names

theorem dropLast_take (ns : List GoString) (u : Nat) :
    (ns.take (ns.length - u)).dropLast = ns.take (ns.length - (u + 1)) := by
  rw [List.dropLast_eq_take, List.take_take, List.length_take]
  congr 1
  omega

/-- Two dots at the end of `v` go back over a name of `v`, or over one of `w`
when `v` has none left, or up. -/
theorem step_after (rooted : Bool) (w v : Walk) (elem : GoString) :
    (w.after rooted v).step rooted elem = w.after rooted (v.step false elem) := by
  unfold step
  by_cases hstay : elem = [] ∨ elem = str "."
  · rw [if_pos hstay, if_pos hstay]
  by_cases hback : elem = str ".."
  · rw [if_neg hstay, if_neg hstay, if_pos hback, if_pos hback]
    by_cases hnames : v.names = []
    · rw [if_neg (not_not.mpr hnames)]
      simp only [after, hnames, List.append_nil, Bool.false_eq_true, if_false,
        dropLast_take]
      by_cases hleft : w.names.take (w.names.length - v.ups) = []
      · have hle : w.names.length ≤ v.ups := by
          have hlen := congrArg List.length hleft
          rw [List.length_take, List.length_nil] at hlen
          omega
        rw [if_neg (not_not.mpr hleft), hleft,
          show w.names.length - (v.ups + 1) = 0 by omega, List.take_zero]
        cases rooted with
        | true => rfl
        | false =>
            simp only [Bool.false_eq_true, if_false, Walk.mk.injEq, and_true]
            omega
      · have hlt : v.ups < w.names.length := by
          by_contra hge
          exact hleft (by rw [show w.names.length - v.ups = 0 by omega, List.take_zero])
        rw [if_pos hleft, show v.ups - w.names.length = 0 by omega,
          show v.ups + 1 - w.names.length = 0 by omega]
    · rw [if_pos hnames, if_pos (by simp [after, hnames])]
      simp only [after, List.dropLast_append_of_ne_nil hnames]
  · rw [if_neg hstay, if_neg hstay, if_neg hback, if_neg hback]
    simp only [after, List.append_assoc]

theorem follow_after (rooted : Bool) (w v : Walk) (elems : List GoString) :
    (w.after rooted v).follow rooted elems = w.after rooted (v.follow false elems) := by
  induction elems generalizing v with
  | nil => rfl
  | cons elem elems ih =>
      rw [follow, List.foldl_cons, step_after]
      exact ih _

theorem after_here (rooted : Bool) (w : Walk) : w.after rooted here = w := by
  simp [after, here]

/-- Following a path is following it from nowhere, made relative. -/
theorem follow_eq_after (rooted : Bool) (w : Walk) (elems : List GoString) :
    w.follow rooted elems = w.after rooted (here.follow false elems) := by
  rw [← follow_after, after_here]

/-- A name a path can go down through. -/
structure IsName (name : GoString) : Prop where
  ne_nil : name ≠ []
  ne_dot : name ≠ str "."
  ne_dots : name ≠ str ".."
  no_slash : 47 ∉ name

theorem names_step {elem : GoString} (hslash : 47 ∉ elem)
    (h : ∀ n ∈ w.names, IsName n) : ∀ n ∈ (w.step rooted elem).names, IsName n := by
  unfold step
  split
  · exact h
  · next hstay =>
      rw [not_or] at hstay
      split
      · split
        · exact fun n hn => h n (List.dropLast_subset _ hn)
        · split <;> exact h
      · next hback =>
          intro n hn
          rcases List.mem_append.mp hn with hn | hn
          · exact h n hn
          · rw [List.mem_singleton.mp hn]
            exact ⟨hstay.1, hstay.2, hback, hslash⟩

theorem names_follow {elems : List GoString} (hslash : ∀ e ∈ elems, 47 ∉ e)
    (h : ∀ n ∈ w.names, IsName n) : ∀ n ∈ (w.follow rooted elems).names, IsName n := by
  induction elems generalizing w with
  | nil => exact h
  | cons e es ih =>
      exact ih (fun e' he => hslash e' (List.mem_cons_of_mem _ he))
        (names_step (hslash e List.mem_cons_self) h)

theorem ups_follow {elems : List GoString} : (w.follow true elems).ups = w.ups := by
  rw [follow_eq_after]
  rfl

theorem follow_names {names : List GoString} (h : ∀ n ∈ names, IsName n) :
    w.follow rooted names = { w with names := w.names ++ names } := by
  induction names generalizing w with
  | nil => rw [List.append_nil]; rfl
  | cons n ns ih =>
      have hn := h n List.mem_cons_self
      have hstep : w.step rooted n = { w with names := w.names ++ [n] } := by
        rw [step, if_neg (not_or.mpr ⟨hn.ne_nil, hn.ne_dot⟩), if_neg hn.ne_dots]
      rw [follow, List.foldl_cons, hstep, ← follow,
        ih fun n' hn' => h n' (List.mem_cons_of_mem _ hn')]
      simp only [List.append_assoc, List.singleton_append]

/-- The elements of a path that are names, if none of them goes back. -/
def named (elems : List GoString) : List GoString :=
  elems.filter fun e => e ≠ [] ∧ e ≠ str "."

theorem named_cons_of_stay (h : elem = [] ∨ elem = str ".") :
    named (elem :: elems) = named elems :=
  List.filter_cons_of_neg (by simpa [imp_iff_not_or] using h)

theorem named_cons_of_name (h : ¬(elem = [] ∨ elem = str ".")) :
    named (elem :: elems) = elem :: named elems :=
  List.filter_cons_of_pos (by simpa [not_or] using h)

theorem named_idem (elems : List GoString) :
    named (named elems) = named elems := by
  rw [named, named, List.filter_filter]
  simp only [Bool.and_self]

theorem isName_of_mem_named {name : GoString} (hslash : ∀ e ∈ elems, 47 ∉ e)
    (hback : ∀ e ∈ elems, e ≠ str "..") (h : name ∈ named elems) : IsName name := by
  obtain ⟨hmem, hkept⟩ := List.mem_filter.mp h
  have hkept := of_decide_eq_true hkept
  exact ⟨hkept.1, hkept.2, hback name hmem, hslash name hmem⟩

/-- Elements that do not go back lead down through those that are names. -/
theorem follow_named (hback : ∀ e ∈ elems, e ≠ str "..") :
    w.follow rooted elems = { w with names := w.names ++ named elems } := by
  induction elems generalizing w with
  | nil =>
      rw [named, List.filter_nil, List.append_nil]
      rfl
  | cons e es ih =>
      have hes : ∀ e' ∈ es, e' ≠ str ".." := fun e' he => hback e' (List.mem_cons_of_mem e he)
      rw [follow, List.foldl_cons, ← follow, ih hes]
      by_cases hstay : e = [] ∨ e = str "."
      · rw [step, if_pos hstay, named_cons_of_stay hstay]
      · rw [step, if_neg hstay, if_neg (hback e List.mem_cons_self), named_cons_of_name hstay,
          List.append_assoc, List.singleton_append]

theorem follow_ups (u k : Nat) :
    (Walk.mk u []).follow false (List.replicate k (str "..")) = ⟨u + k, []⟩ := by
  induction k generalizing u with
  | zero => rfl
  | succ k ih =>
      rw [List.replicate_succ, follow, List.foldl_cons, ← follow]
      exact (ih (u + 1)).trans (by rw [Nat.add_right_comm, Nat.add_assoc])

/-- What a walk spells leads back to it. -/
theorem follow_elems (hnames : ∀ n ∈ w.names, IsName n)
    (hups : rooted = true → w.ups = 0) : here.follow rooted w.elems = w := by
  rw [elems, follow_append]
  cases rooted with
  | true =>
      rw [hups rfl, follow_names hnames, List.replicate_zero]
      simp only [follow, here, List.foldl_nil, List.nil_append]
      rw [← hups rfl]
  | false =>
      rw [here, follow_ups, follow_names hnames, Nat.zero_add, List.nil_append]

end Walk

/-! ## Cleaning -/

theorem names_walk (path : GoString) : ∀ n ∈ (walk path).names, Walk.IsName n :=
  Walk.names_follow (fun _ he => not_mem_of_mem_split he) (List.forall_mem_nil _)

theorem ups_walk {path : GoString} (h : isAbs path = true) : (walk path).ups = 0 := by
  rw [walk, h, Walk.ups_follow]
  rfl

theorem elems_walk (path : GoString) : ∀ e ∈ (walk path).elems, e ≠ [] ∧ 47 ∉ e := by
  intro e he
  rcases List.mem_append.mp he with he | he
  · rw [(List.mem_replicate.mp he).2]
    decide
  · have hname := names_walk path e he
    exact ⟨hname.ne_nil, hname.no_slash⟩

theorem split_join_elems {path : GoString} (hne : (walk path).elems ≠ []) :
    split 47 (join 47 (walk path).elems) = (walk path).elems :=
  split_join hne fun e he => (elems_walk path e he).2

theorem isAbs_iff {path : GoString} : isAbs path = true ↔ ∃ rest, path = 47 :: rest := by
  rw [isAbs, hasPrefix, List.isPrefixOf_iff_prefix]
  exact ⟨fun ⟨rest, h⟩ => ⟨rest, h.symm⟩, fun ⟨rest, h⟩ => ⟨rest, h.symm⟩⟩

/-- A spelling that is not empty starts with an element that is not. -/
theorem join_elems {path : GoString} (hne : (walk path).elems ≠ []) :
    join 47 (walk path).elems ≠ [] ∧ isAbs (join 47 (walk path).elems) = false := by
  have hsplit := split_join_elems hne
  have hempty : ∀ ss, (walk path).elems ≠ [] :: ss := fun ss heq =>
    (elems_walk path [] (heq ▸ List.mem_cons_self)).1 rfl
  constructor
  · intro hnil
    rw [hnil] at hsplit
    exact hempty [] hsplit.symm
  · rw [← Bool.not_eq_true, isAbs_iff]
    rintro ⟨rest, heq⟩
    rw [heq, split_cons_sep] at hsplit
    exact hempty _ hsplit.symm

theorem walk_eq_here {w : Walk} (h : w.elems = []) : w = Walk.here := by
  obtain ⟨hups, hnames⟩ := List.append_eq_nil_iff.mp h
  obtain ⟨ups, names⟩ := w
  have hzero : ups = 0 := (List.replicate_eq_nil_iff _).mp hups
  rw [hzero, show names = [] from hnames, Walk.here]

theorem isAbs_pathClean (path : GoString) : isAbs (pathClean path) = isAbs path := by
  unfold pathClean
  simp only []
  split
  · next habs => rw [habs, isAbs_iff]; exact ⟨_, rfl⟩
  · next habs =>
      rw [Bool.eq_false_iff.mpr habs]
      split
      · decide
      · next hne =>
          refine (join_elems fun hnil => hne ?_).2
          rw [hnil]
          rfl

/-- A cleaned path leads where the path did. -/
theorem walk_pathClean (path : GoString) : walk (pathClean path) = walk path := by
  have hback : Walk.here.follow (isAbs path) (walk path).elems = walk path :=
    Walk.follow_elems (names_walk path) ups_walk
  rw [walk, isAbs_pathClean]
  unfold pathClean
  simp only []
  by_cases hnil : (walk path).elems = []
  · rw [hnil, walk_eq_here hnil]
    cases isAbs path <;> rfl
  · split
    · rw [split_cons_sep, split_join_elems hnil, Walk.follow, List.foldl_cons, Walk.step,
        if_pos (.inl rfl)]
      exact hback
    · rw [if_neg (join_elems hnil).1, split_join_elems hnil]
      exact hback

/-! ## Joining -/

theorem isAbs_append {dir : GoString} (h : dir ≠ []) (path : GoString) :
    isAbs (dir ++ path) = isAbs dir := by
  cases dir with
  | nil => exact absurd rfl h
  | cons c cs => rfl

theorem pathJoin_cons {dir : GoString} (h : dir ≠ []) (elem : GoString)
    (elems : List GoString) :
    pathJoin (dir :: elem :: elems) = pathClean (dir ++ 47 :: join 47 (elem :: elems)) := by
  unfold pathJoin
  rw [List.dropWhile_cons_of_neg (by simpa using h)]
  rfl

theorem pathJoin_pair {dir : GoString} (h : dir ≠ []) (path : GoString) :
    pathJoin [dir, path] = pathClean (dir ++ 47 :: path) :=
  pathJoin_cons h path []

/-- Where a joined path leads. -/
theorem walk_pathJoin {dir : GoString} (h : dir ≠ []) (path : GoString) :
    walk (pathJoin [dir, path]) = (walk dir).after (isAbs dir) (relWalk path) := by
  rw [pathJoin_pair h, walk_pathClean, walk, isAbs_append h, split_append_sep,
    Walk.follow_append, Walk.follow_eq_after _ (Walk.here.follow _ _)]
  rfl

/-- When a path joined to a directory is in it. -/
theorem under_pathJoin_iff {dir : GoString} (h : dir ≠ []) (path : GoString) :
    Under dir (pathJoin [dir, path]) ↔ StaysIn dir path := by
  have habs : isAbs (pathJoin [dir, path]) = isAbs dir := by
    rw [pathJoin_pair h, isAbs_pathClean, isAbs_append h]
  have hups : (walk (pathJoin [dir, path])).ups = (walk dir).ups ↔
      isAbs dir = true ∨ (relWalk path).ups ≤ (walk dir).names.length := by
    rw [walk_pathJoin h, Walk.after]
    cases isAbs dir with
    | true => simp
    | false =>
        simp only [Bool.false_eq_true, if_false, false_or]
        omega
  have hnames : (walk dir).names <+: (walk (pathJoin [dir, path])).names ↔
      (walk dir).names.drop ((walk dir).names.length - (relWalk path).ups) <+:
        (relWalk path).names := by
    rw [walk_pathJoin h, Walk.after]
    conv_lhs =>
      lhs
      rw [← List.take_append_drop ((walk dir).names.length - (relWalk path).ups)
        (walk dir).names]
    exact List.prefix_append_right_inj _
  constructor
  · exact fun hu => ⟨hups.mp hu.ups, hnames.mp hu.names⟩
  · exact fun hs => ⟨habs, hups.mpr hs.ups, hnames.mpr hs.names⟩

/-- A path that does not climb stays in every directory. -/
theorem StaysIn.of_ups {dir path : GoString} (h : (relWalk path).ups = 0) :
    StaysIn dir path := by
  refine ⟨.inr (h ▸ Nat.zero_le _), ?_⟩
  rw [h, Nat.sub_zero, List.drop_length]
  exact List.nil_prefix

/-! ## Names below a clean path -/

/-- A clean path, of some element. -/
structure Spelled (path : GoString) : Prop where
  clean : pathClean path = path
  elems : (walk path).elems ≠ []

theorem pathClean_pathClean (path : GoString) : pathClean (pathClean path) = pathClean path := by
  rw [pathClean, isAbs_pathClean, walk_pathClean, ← pathClean]

theorem walk_child {dir name : GoString} (h : dir ≠ []) (hn : Walk.IsName name) :
    walk (dir ++ 47 :: name) = { walk dir with names := (walk dir).names ++ [name] } := by
  rw [walk, isAbs_append h, split_append_sep, split_self hn.no_slash, Walk.follow_append,
    Walk.follow_names fun n hmem => (List.mem_singleton.mp hmem) ▸ hn]
  rfl

theorem elems_child {dir name : GoString} (h : dir ≠ []) (hn : Walk.IsName name) :
    (walk (dir ++ 47 :: name)).elems = (walk dir).elems ++ [name] := by
  rw [walk_child h hn, Walk.elems, Walk.elems, List.append_assoc]

theorem join_concat (sep : UInt8) (s : GoString) : ∀ {ss : List GoString}, ss ≠ [] →
    join sep (ss ++ [s]) = join sep ss ++ sep :: s := by
  intro ss
  induction ss with
  | nil => exact fun h => absurd rfl h
  | cons t ss ih =>
      intro _
      cases ss with
      | nil => rfl
      | cons u ss =>
          show t ++ sep :: join sep (u :: ss ++ [s]) = t ++ sep :: join sep (u :: ss) ++ sep :: s
          rw [ih (List.cons_ne_nil u ss), List.append_assoc, List.cons_append]

section Spelled

variable {path name : GoString}

theorem Spelled.ne_nil (h : Spelled path) : path ≠ [] := by
  intro hnil
  refine h.elems ?_
  rw [hnil]
  decide

/-- A name below a clean path is spelled out as it stands. -/
theorem Spelled.child (h : Spelled path) (hn : Walk.IsName name) :
    Spelled (path ++ 47 :: name) := by
  have helems := elems_child h.ne_nil hn
  refine ⟨?_, by simp [helems]⟩
  have hjoin := join_concat 47 name h.elems
  have hclean := h.clean
  rw [pathClean, isAbs_append h.ne_nil, helems]
  rw [pathClean] at hclean
  rw [hjoin]
  split
  · next habs =>
      rw [if_pos habs] at hclean
      rw [← List.cons_append, hclean]
  · next habs =>
      rw [if_neg habs, if_neg (join_elems h.elems).1] at hclean
      rw [if_neg (by simp), hclean]

theorem Spelled.pathJoin (h : Spelled path) (hn : Walk.IsName name) :
    pathJoin [path, name] = path ++ 47 :: name := by
  rw [pathJoin_pair h.ne_nil, (h.child hn).clean]

/-- A name joined to anything makes a clean path. -/
theorem spelled_pathJoin (dir : GoString) (hn : Walk.IsName name) :
    Spelled (Go.pathJoin [dir, name]) := by
  by_cases hdir : dir = []
  · have hself : walk name = ⟨0, [name]⟩ := by
      rw [walk, split_self hn.no_slash,
        Walk.follow_names fun n hmem => (List.mem_singleton.mp hmem) ▸ hn]
      rfl
    have heq : Go.pathJoin [dir, name] = pathClean name := by
      rw [hdir, Go.pathJoin, List.dropWhile_cons_of_pos (by simp),
        List.dropWhile_cons_of_neg (by simp [hn.ne_nil])]
      rfl
    rw [heq]
    refine ⟨pathClean_pathClean name, ?_⟩
    rw [walk_pathClean, hself]
    simp [Walk.elems]
  · rw [pathJoin_pair hdir]
    refine ⟨pathClean_pathClean _, ?_⟩
    rw [walk_pathClean, elems_child hdir hn]
    simp

end Spelled

/-! ## Elements that do not go back -/

/-- The path is spelled as the directory's with some names behind it. -/
def StrictlyUnder (dir path : GoString) : Prop :=
  ∃ names, names ≠ [] ∧ (∀ n ∈ names, Walk.IsName n) ∧ path = dir ++ 47 :: join 47 names

/-- Where a path leads is all that cleaning keeps of it. -/
theorem pathClean_congr {path path' : GoString} (habs : isAbs path = isAbs path')
    (hwalk : walk path = walk path') : pathClean path = pathClean path' := by
  rw [pathClean, pathClean, habs, hwalk]

theorem walk_append_join {dir : GoString} {elems : List GoString} (h : dir ≠ [])
    (hne : elems ≠ []) (hslash : ∀ e ∈ elems, 47 ∉ e) (hback : ∀ e ∈ elems, e ≠ str "..") :
    walk (dir ++ 47 :: join 47 elems) =
      { walk dir with names := (walk dir).names ++ Walk.named elems } := by
  rw [walk, isAbs_append h, split_append_sep, split_join hne hslash, Walk.follow_append,
    Walk.follow_named hback]
  rfl

section Below

variable {dir : GoString}

/-- Names below a clean path are spelled out as they stand. -/
theorem Spelled.below (h : Spelled dir) {names : List GoString} (hne : names ≠ [])
    (hn : ∀ n ∈ names, Walk.IsName n) : Spelled (dir ++ 47 :: join 47 names) := by
  induction names generalizing dir with
  | nil => exact absurd rfl hne
  | cons n ns ih =>
      have hchild : Spelled (dir ++ 47 :: n) := h.child (hn n List.mem_cons_self)
      cases ns with
      | nil => exact hchild
      | cons n' ns =>
          have hbelow := ih hchild (List.cons_ne_nil n' ns)
            fun m hm => hn m (List.mem_cons_of_mem n hm)
          rw [List.append_assoc, List.cons_append] at hbelow
          exact hbelow

/-- What elements that do not go back make of a clean path. -/
theorem Spelled.pathJoin_elems (h : Spelled dir) {elems : List GoString}
    (hslash : ∀ e ∈ elems, 47 ∉ e) (hback : ∀ e ∈ elems, e ≠ str "..")
    (hne : Walk.named elems ≠ []) :
    Go.pathJoin (dir :: elems) = dir ++ 47 :: join 47 (Walk.named elems) := by
  have hsub : ∀ e ∈ Walk.named elems, e ∈ elems := fun e he => (List.mem_filter.mp he).1
  obtain ⟨e, es, rfl⟩ : ∃ e es, elems = e :: es := by
    refine List.exists_cons_of_ne_nil fun hnil => hne ?_
    rw [hnil]
    rfl
  have hnames : ∀ n ∈ Walk.named (e :: es), Walk.IsName n :=
    fun n hn => Walk.isName_of_mem_named hslash hback hn
  have hwalk : walk (dir ++ 47 :: join 47 (e :: es)) =
      walk (dir ++ 47 :: join 47 (Walk.named (e :: es))) := by
    rw [walk_append_join h.ne_nil (List.cons_ne_nil e es) hslash hback,
      walk_append_join h.ne_nil hne (fun e he => hslash e (hsub e he))
        fun e he => hback e (hsub e he),
      Walk.named_idem]
  rw [pathJoin_cons h.ne_nil, pathClean_congr (by rw [isAbs_append h.ne_nil, isAbs_append h.ne_nil]) hwalk,
    (h.below hne hnames).clean]

theorem Spelled.strictlyUnder (h : Spelled dir) {elems : List GoString}
    (hslash : ∀ e ∈ elems, 47 ∉ e) (hback : ∀ e ∈ elems, e ≠ str "..")
    (hne : Walk.named elems ≠ []) : StrictlyUnder dir (Go.pathJoin (dir :: elems)) :=
  ⟨Walk.named elems, hne, fun _ hn => Walk.isName_of_mem_named hslash hback hn,
    h.pathJoin_elems hslash hback hne⟩

end Below

/-! ## A name and its directory -/

/-- A clean rooted path is the root, or there is something to spell. -/
theorem root_or_spelled {dir : GoString} (habs : isAbs dir = true)
    (hclean : pathClean dir = dir) : dir = str "/" ∨ Spelled dir := by
  by_cases hnil : (walk dir).elems = []
  · left
    rw [← hclean, pathClean, hnil, if_pos habs]
    rfl
  · exact .inr ⟨hclean, hnil⟩

section Child

variable {dir name : GoString}

/-- Looked at from the end, the name comes first and then a separator. -/
theorem span_child (hslash : 47 ∉ name) :
    (dir ++ 47 :: name).reverse.takeWhile (fun c => c ≠ 47) = name.reverse ∧
      (dir ++ 47 :: name).reverse.dropWhile (fun c => c ≠ 47) = 47 :: dir.reverse := by
  have hrev : (dir ++ 47 :: name).reverse = name.reverse ++ 47 :: dir.reverse := by simp
  have hname : ∀ c ∈ name.reverse, decide (c ≠ 47) = true := fun c hc =>
    decide_eq_true fun heq => hslash (heq ▸ List.mem_reverse.mp hc)
  rw [hrev]
  constructor
  · rw [List.takeWhile_append_of_pos hname, List.takeWhile_cons_of_neg (by simp),
      List.append_nil]
  · rw [List.dropWhile_append_of_pos hname, List.dropWhile_cons_of_neg (by simp)]

theorem pathDir_append (hslash : 47 ∉ name) :
    pathDir (dir ++ 47 :: name) = pathClean (dir ++ [47]) := by
  rw [pathDir, (span_child hslash).2, List.reverse_cons, List.reverse_reverse]

theorem pathBase_append (hne : name ≠ []) (hslash : 47 ∉ name) :
    pathBase (dir ++ 47 :: name) = name := by
  have hnil : name.reverse ≠ [] := mt List.reverse_eq_nil_iff.mp hne
  have hlast : (dir ++ 47 :: name).reverse.dropWhile (fun c => c = 47) =
      (dir ++ 47 :: name).reverse := by
    obtain ⟨c, cs, hcs⟩ := List.exists_cons_of_ne_nil hnil
    have hc : c ≠ 47 := fun heq =>
      hslash (List.mem_reverse.mp (hcs ▸ heq ▸ List.mem_cons_self))
    rw [List.reverse_append, List.reverse_cons, hcs]
    exact List.dropWhile_cons_of_neg (by simpa using hc)
  rw [pathBase, if_neg (by simp)]
  simp only []
  rw [hlast, (span_child hslash).1, if_neg hnil, List.reverse_reverse]

theorem pathClean_slash (h : dir ≠ []) : pathClean (dir ++ [47]) = pathClean dir := by
  refine pathClean_congr (isAbs_append h _) ?_
  rw [walk, isAbs_append h, split_append_sep, Walk.follow_append, ← walk]
  rfl

/-- A name below the root. -/
theorem pathJoin_root (hn : Walk.IsName name) : Go.pathJoin [str "/", name] = 47 :: name := by
  have hroot : str "/" ≠ [] := by decide
  have habs : isAbs (str "/" ++ 47 :: name) = true := (isAbs_append hroot _).trans (by decide)
  have helems : (walk (str "/" ++ 47 :: name)).elems = [name] := by
    rw [elems_child hroot hn]
    rfl
  rw [pathJoin_pair hroot, pathClean, helems, if_pos habs]
  rfl

/-- A name joined to a clean rooted directory is the last component of a path that has
the directory in front of it. -/
theorem pathDir_pathJoin (habs : isAbs dir = true) (hclean : pathClean dir = dir)
    (hn : Walk.IsName name) :
    pathDir (Go.pathJoin [dir, name]) = dir ∧ pathBase (Go.pathJoin [dir, name]) = name := by
  rcases root_or_spelled habs hclean with rfl | h
  · rw [pathJoin_root hn, ← List.nil_append (47 :: name)]
    exact ⟨(pathDir_append hn.no_slash).trans (by decide), pathBase_append hn.ne_nil hn.no_slash⟩
  · rw [h.pathJoin hn]
    refine ⟨?_, pathBase_append hn.ne_nil hn.no_slash⟩
    rw [pathDir_append hn.no_slash, pathClean_slash h.ne_nil, hclean]

end Child

end Go
