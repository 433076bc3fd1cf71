import Mathlib.Data.List.Basic
import Mathlib.Data.List.DropRight
import Mathlib.Logic.Function.Basic
import Goboxd.Lib.GoPath

/-!
# A file system with symbolic links

Objects by number, directories as lists of entries, and the walk that the kernel
takes along a path: from the root or from where the process is, one component at a
time, into directories, up at two dots, and on from a link's target where the next
object is a symbolic link, up to forty times. A link in the last place is followed
or not, as the call wants it.

A walk reads the directories it passes and asks of what it finds in them whether it
is a link. So it goes the same way in another state of the file system that has the
same in those directories, however much has changed elsewhere. The rest of this file
is about elsewhere: what lies inside a directory, and what a change there leaves
alone.
-/

namespace Posix

open Go

inductive Node where
  | dir (owner : Int) (mode : BitVec 12) (parent : ℕ) (entries : List (GoString × ℕ))
  | file (owner : Int) (mode : BitVec 12) (data : GoString)
  | symlink (owner : Int) (target : GoString)
  /-- A FIFO, a socket or a device. -/
  | special (owner : Int) (mode : BitVec 12)
deriving DecidableEq, Repr

inductive Kind where
  | dir
  | file
  | symlink
  | special
deriving DecidableEq, Repr

namespace Node

def kind : Node → Kind
  | .dir .. => .dir
  | .file .. => .file
  | .symlink .. => .symlink
  | .special .. => .special

/-- A link's own mode is all ones. -/
def mode : Node → BitVec 12
  | .dir _ mode _ _ => mode
  | .file _ mode _ => mode
  | .symlink .. => 0o777
  | .special _ mode => mode

def setOwner (uid : Int) : Node → Node
  | .dir _ mode parent entries => .dir uid mode parent entries
  | .file _ mode data => .file uid mode data
  | .symlink _ target => .symlink uid target
  | .special _ mode => .special uid mode

def setMode (mode : BitVec 12) : Node → Node
  | .dir owner _ parent entries => .dir owner mode parent entries
  | .file owner _ data => .file owner mode data
  | .symlink owner target => .symlink owner target
  | .special owner _ => .special owner mode

/-- Bytes written at the end. -/
def append (bytes : GoString) : Node → Node
  | .file owner mode data => .file owner mode (data ++ bytes)
  | node => node

end Node

/-- The objects, and the first number that none has. -/
structure Fs where
  node : ℕ → Option Node
  root : ℕ
  cwd : ℕ
  next : ℕ

inductive Errno where
  | ENOENT
  | ENOTDIR
  | EEXIST
  | ELOOP
  | ENOTEMPTY
  | EISDIR
  | EINVAL
  /-- Whatever else a call may fail with. -/
  | other (code : ℕ)
deriving DecidableEq, Repr

namespace Fs

def entries (fs : Fs) (i : ℕ) : List (GoString × ℕ) :=
  match fs.node i with
  | some (.dir _ _ _ entries) => entries
  | _ => []

def isDir (fs : Fs) (i : ℕ) : Bool :=
  match fs.node i with
  | some (.dir ..) => true
  | _ => false

/-- The target of a symbolic link. -/
def link (fs : Fs) (i : ℕ) : Option GoString :=
  match fs.node i with
  | some (.symlink _ target) => some target
  | _ => none

/-- What a directory has under a name. -/
def child (fs : Fs) (d : ℕ) (name : GoString) : Option ℕ := (fs.entries d).lookup name

/-! ## Walking along a path -/

/-- The walk from an object; `jump` goes on from a link. -/
def walkWith (fs : Fs) (follow : Bool) (jump : ℕ → List GoString → Except Errno ℕ) :
    ℕ → List GoString → Except Errno ℕ
  | cur, [] => .ok cur
  | cur, c :: rest =>
      match fs.node cur with
      | some (.dir _ _ parent entries) =>
          if c = [] ∨ c = str "." then walkWith fs follow jump cur rest
          else if c = str ".." then walkWith fs follow jump parent rest
          else
            match entries.lookup c with
            | none => .error .ENOENT
            | some i =>
                match fs.link i with
                | none => walkWith fs follow jump i rest
                | some target =>
                    if rest = [] ∧ follow = false then .ok i
                    else jump (if isAbs target then fs.root else cur) (split 47 target ++ rest)
      | _ => .error .ENOTDIR

/-- The walk that may still follow so many links. -/
def walk (fs : Fs) (follow : Bool) : ℕ → ℕ → List GoString → Except Errno ℕ
  | 0 => fs.walkWith follow fun _ _ => .error .ELOOP
  | links + 1 => fs.walkWith follow (fs.walk follow links)

def start (fs : Fs) (path : GoString) : ℕ := if isAbs path then fs.root else fs.cwd

def resolve (fs : Fs) (follow : Bool) (path : GoString) : Except Errno ℕ :=
  if path = [] then .error .ENOENT else fs.walk follow 40 (fs.start path) (split 47 path)

/-- A path's components up to the last; slashes at its end do not count. -/
def comps (path : GoString) : List GoString := (split 47 path).rdropWhile fun c => c = []

/-- The directory in which a path's last component is looked up, and that component. -/
def lookupLast (fs : Fs) (path : GoString) : Except Errno (ℕ × GoString) :=
  if path = [] then .error .ENOENT
  else
    (fs.walk true 40 (fs.start path) (comps path).dropLast).map fun d =>
      (d, (comps path).getLastD [])

/-! ## The directories a walk passes -/

def passesWith (fs : Fs) (jump : ℕ → List GoString → List ℕ) : ℕ → List GoString → List ℕ
  | _, [] => []
  | cur, c :: rest =>
      cur ::
        match fs.node cur with
        | some (.dir _ _ parent entries) =>
            if c = [] ∨ c = str "." then passesWith fs jump cur rest
            else if c = str ".." then passesWith fs jump parent rest
            else
              match entries.lookup c with
              | none => []
              | some i =>
                  match fs.link i with
                  | none => passesWith fs jump i rest
                  | some target =>
                      jump (if isAbs target then fs.root else cur) (split 47 target ++ rest)
        | _ => []

def passes (fs : Fs) : ℕ → ℕ → List GoString → List ℕ
  | 0 => fs.passesWith fun _ _ => []
  | links + 1 => fs.passesWith (fs.passes links)

/-- The directories that the way along a path leads through. -/
def dirsOn (fs : Fs) (path : GoString) : List ℕ := fs.passes 40 (fs.start path) (split 47 path)

/-- Two states in which a walk through these directories goes the same way. -/
structure Agree (V : List ℕ) (fs fs' : Fs) : Prop where
  root : fs'.root = fs.root
  cwd : fs'.cwd = fs.cwd
  node : ∀ v ∈ V, fs.isDir v = true → fs'.node v = fs.node v
  link : ∀ i < fs.next, fs'.link i = fs.link i

/-- Every entry is of an object. -/
def There (fs : Fs) : Prop := ∀ i n j, (n, j) ∈ fs.entries i → j < fs.next

theorem lookup_lt {fs : Fs} (ht : fs.There) {cur i : ℕ} {c : GoString} {o : Int}
    {m : BitVec 12} {p : ℕ} {es : List (GoString × ℕ)}
    (hnode : fs.node cur = some (.dir o m p es)) (hi : es.lookup c = some i) : i < fs.next := by
  refine ht cur c i ?_
  rw [entries, hnode]
  exact mem_of_lookup hi

/-- Going on from a link with so many left. -/
def jump (fs : Fs) (follow : Bool) : ℕ → ℕ → List GoString → Except Errno ℕ
  | 0, _, _ => .error .ELOOP
  | links + 1, cur, comps => fs.walk follow links cur comps

def jumpPasses (fs : Fs) : ℕ → ℕ → List GoString → List ℕ
  | 0, _, _ => []
  | links + 1, cur, comps => fs.passes links cur comps

theorem walk_eq (fs : Fs) (follow : Bool) (links : ℕ) :
    fs.walk follow links = fs.walkWith follow (fs.jump follow links) := by
  cases links <;> rfl

theorem passes_eq (fs : Fs) (links : ℕ) :
    fs.passes links = fs.passesWith (fs.jumpPasses links) := by
  cases links <;> rfl

@[simp] theorem walk_nil (fs : Fs) (follow : Bool) (links cur : ℕ) :
    fs.walk follow links cur [] = .ok cur := by
  rw [walk_eq, walkWith]

/-- The walk and the directories it passes, from a directory by one component. -/
theorem walk_cons {fs : Fs} {cur : ℕ} {o : Int} {m : BitVec 12} {p : ℕ}
    {es : List (GoString × ℕ)} (hnode : fs.node cur = some (.dir o m p es)) (follow : Bool)
    (links : ℕ) (c : GoString) (rest : List GoString) :
    fs.walk follow links cur (c :: rest) =
      if c = [] ∨ c = str "." then fs.walk follow links cur rest
      else if c = str ".." then fs.walk follow links p rest
      else
        match es.lookup c with
        | none => .error .ENOENT
        | some i =>
            match fs.link i with
            | none => fs.walk follow links i rest
            | some target =>
                if rest = [] ∧ follow = false then .ok i
                else fs.jump follow links (if isAbs target then fs.root else cur)
                  (split 47 target ++ rest) := by
  rw [walk_eq, walkWith, hnode]

theorem passes_cons {fs : Fs} {cur : ℕ} {o : Int} {m : BitVec 12} {p : ℕ}
    {es : List (GoString × ℕ)} (hnode : fs.node cur = some (.dir o m p es)) (links : ℕ)
    (c : GoString) (rest : List GoString) :
    fs.passes links cur (c :: rest) = cur ::
      if c = [] ∨ c = str "." then fs.passes links cur rest
      else if c = str ".." then fs.passes links p rest
      else
        match es.lookup c with
        | none => []
        | some i =>
            match fs.link i with
            | none => fs.passes links i rest
            | some target => fs.jumpPasses links (if isAbs target then fs.root else cur)
                (split 47 target ++ rest) := by
  rw [passes_eq, passesWith, hnode]

theorem dir_of_walk {fs : Fs} {follow : Bool} {links cur t : ℕ} {c : GoString}
    {rest : List GoString} (h : fs.walk follow links cur (c :: rest) = .ok t) :
    ∃ o m p es, fs.node cur = some (.dir o m p es) := by
  rw [walk_eq, walkWith] at h
  split at h
  · next hnode => exact ⟨_, _, _, _, hnode⟩
  · cases h

section Steps

variable {fs : Fs} {cur i : ℕ} {o : Int} {m : BitVec 12} {p : ℕ} {es : List (GoString × ℕ)}
  {c target : GoString} {follow : Bool} {links : ℕ} {rest : List GoString}

theorem walk_skip (hnode : fs.node cur = some (.dir o m p es)) (hc : c = [] ∨ c = str ".") :
    fs.walk follow links cur (c :: rest) = fs.walk follow links cur rest := by
  rw [walk_cons hnode, if_pos hc]

theorem walk_up (hnode : fs.node cur = some (.dir o m p es)) (hc : c = str "..") :
    fs.walk follow links cur (c :: rest) = fs.walk follow links p rest := by
  have hskip : ¬ (c = [] ∨ c = str ".") := by
    rw [hc]
    decide
  rw [walk_cons hnode, if_neg hskip, if_pos hc]

/-- A component that names an entry. -/
structure Steps (c : GoString) : Prop where
  stay : ¬ (c = [] ∨ c = str ".")
  back : c ≠ str ".."

theorem steps_of_isName (hc : Walk.IsName c) : Steps c :=
  ⟨not_or.mpr ⟨hc.ne_nil, hc.ne_dot⟩, hc.ne_dots⟩

theorem walk_gone (hnode : fs.node cur = some (.dir o m p es)) (hc : Steps c)
    (hi : es.lookup c = none) : fs.walk follow links cur (c :: rest) = .error .ENOENT := by
  rw [walk_cons hnode, if_neg hc.stay, if_neg hc.back, hi]

theorem walk_down (hnode : fs.node cur = some (.dir o m p es)) (hc : Steps c)
    (hi : es.lookup c = some i) (hlink : fs.link i = none) :
    fs.walk follow links cur (c :: rest) = fs.walk follow links i rest := by
  rw [walk_cons hnode, if_neg hc.stay, if_neg hc.back, hi]
  simp only
  rw [hlink]

theorem walk_jump (hnode : fs.node cur = some (.dir o m p es)) (hc : Steps c)
    (hi : es.lookup c = some i) (hlink : fs.link i = some target)
    (hgo : ¬ (rest = [] ∧ follow = false)) :
    fs.walk follow links cur (c :: rest) =
      fs.jump follow links (if isAbs target then fs.root else cur) (split 47 target ++ rest) := by
  rw [walk_cons hnode, if_neg hc.stay, if_neg hc.back, hi]
  simp only
  rw [hlink]
  simp only
  rw [if_neg hgo]

/-- What holds of a walk that goes all the way, by what its steps may be. -/
theorem walk_induct {t : ℕ} {P : ℕ → ℕ → List GoString → Prop} (here : ∀ links, P links t [])
    (skip : ∀ {links cur c rest o m p es}, fs.node cur = some (.dir o m p es) →
      (c = [] ∨ c = str ".") → P links cur rest → P links cur (c :: rest))
    (up : ∀ {links cur c rest o m p es}, fs.node cur = some (.dir o m p es) →
      c = str ".." → P links p rest → P links cur (c :: rest))
    (down : ∀ {links cur c rest o m p es i}, fs.node cur = some (.dir o m p es) → Steps c →
      es.lookup c = some i → fs.link i = none → P links i rest → P links cur (c :: rest))
    (jump : ∀ {links cur c rest o m p es i target}, fs.node cur = some (.dir o m p es) →
      Steps c → es.lookup c = some i → fs.link i = some target →
        P links (if isAbs target then fs.root else cur) (split 47 target ++ rest) →
          P (links + 1) cur (c :: rest)) :
    ∀ {links : ℕ} {comps : List GoString} {cur : ℕ},
      fs.walk true links cur comps = .ok t → P links cur comps := by
  intro links
  induction links using Nat.strong_induction_on with
  | _ links ihl =>
      intro comps
      induction comps with
      | nil =>
          intro cur h
          rw [walk_nil] at h
          cases h
          exact here links
      | cons c comps ih =>
          intro cur h
          obtain ⟨o, m, p, es, hnode⟩ := dir_of_walk h
          by_cases hskip : c = [] ∨ c = str "."
          · rw [walk_skip hnode hskip] at h
            exact skip hnode hskip (ih h)
          · by_cases hup : c = str ".."
            · rw [walk_up hnode hup] at h
              exact up hnode hup (ih h)
            · cases hi : es.lookup c with
              | none =>
                  rw [walk_gone hnode ⟨hskip, hup⟩ hi] at h
                  cases h
              | some i =>
                  cases hlink : fs.link i with
                  | none =>
                      rw [walk_down hnode ⟨hskip, hup⟩ hi hlink] at h
                      exact down hnode ⟨hskip, hup⟩ hi hlink (ih h)
                  | some target =>
                      rw [walk_jump hnode ⟨hskip, hup⟩ hi hlink (by simp)] at h
                      cases links with
                      | zero => cases h
                      | succ n =>
                          exact jump hnode ⟨hskip, hup⟩ hi hlink (ihl n (Nat.lt_succ_self n) h)

end Steps

theorem Agree.mono {V W : List ℕ} {fs fs' : Fs} (h : Agree V fs fs') (hsub : ∀ w ∈ W, w ∈ V) :
    Agree W fs fs' :=
  ⟨h.root, h.cwd, fun w hw => h.node w (hsub w hw), h.link⟩

/-- Only the directories among them count. -/
theorem Agree.of_filter {V : List ℕ} {fs fs' : Fs} (h : Agree (V.filter fs.isDir) fs fs') :
    Agree V fs fs' :=
  ⟨h.root, h.cwd, fun v hv hd => h.node v (List.mem_filter.mpr ⟨hv, hd⟩) hd, h.link⟩

/-- In every state that agrees in `V`, going on comes to `t` and goes on from there, with
so many links left. -/
def Comes (fs : Fs) (V : List ℕ) (go : Fs → Bool → List GoString → Except Errno ℕ) (t : ℕ) :
    Prop :=
  ∃ k, ∀ fs', Agree V fs fs' → ∀ (follow : Bool) (rest : List GoString),
    rest ≠ [] ∨ follow = true → go fs' follow rest = fs'.walk follow k t rest

/-- What a walk along a path comes to, it comes to in every state that agrees in the
directories it passes. -/
theorem walk_comes {fs : Fs} (ht : fs.There) {links cur t : ℕ} {comps : List GoString}
    (h : fs.walk true links cur comps = .ok t) : Comes fs (fs.passes links cur comps)
      (fun fs' follow rest => fs'.walk follow links cur (comps ++ rest)) t := by
  have hsame : ∀ {V : List ℕ} {fs' : Fs} {cur : ℕ} {o m p es},
      fs.node cur = some (.dir o m p es) → Agree (cur :: V) fs fs' →
        fs'.node cur = some (.dir o m p es) ∧ Agree V fs fs' := by
    intro V fs' cur o m p es hnode hag
    refine ⟨?_, hag.mono fun w hw => List.mem_cons_of_mem cur hw⟩
    rw [hag.node cur List.mem_cons_self (by rw [isDir, hnode]), hnode]
  refine walk_induct (P := fun links cur comps => Comes fs (fs.passes links cur comps)
    (fun fs' follow rest => fs'.walk follow links cur (comps ++ rest)) t) ?_ ?_ ?_ ?_ ?_ h
  · exact fun links => ⟨links, fun _ _ _ _ _ => rfl⟩
  · intro links cur c comps o m p es hnode hc ih
    obtain ⟨k, hk⟩ := ih
    rw [passes_cons hnode, if_pos hc]
    refine ⟨k, fun fs' hag follow rest hrest => ?_⟩
    obtain ⟨hnode', hag'⟩ := hsame hnode hag
    exact (walk_skip hnode' hc).trans (hk fs' hag' follow rest hrest)
  · intro links cur c comps o m p es hnode hc ih
    obtain ⟨k, hk⟩ := ih
    have hskip : ¬ (c = [] ∨ c = str ".") := by
      rw [hc]
      decide
    rw [passes_cons hnode, if_neg hskip, if_pos hc]
    refine ⟨k, fun fs' hag follow rest hrest => ?_⟩
    obtain ⟨hnode', hag'⟩ := hsame hnode hag
    exact (walk_up hnode' hc).trans (hk fs' hag' follow rest hrest)
  · intro links cur c comps o m p es i hnode hc hi hlink ih
    obtain ⟨k, hk⟩ := ih
    rw [passes_cons hnode, if_neg hc.stay, if_neg hc.back, hi]
    simp only
    rw [hlink]
    refine ⟨k, fun fs' hag follow rest hrest => ?_⟩
    obtain ⟨hnode', hag'⟩ := hsame hnode hag
    have hlink' : fs'.link i = none := by rw [hag.link i (lookup_lt ht hnode hi), hlink]
    exact (walk_down hnode' hc hi hlink').trans (hk fs' hag' follow rest hrest)
  · intro links cur c comps o m p es i target hnode hc hi hlink ih
    obtain ⟨k, hk⟩ := ih
    rw [passes_cons hnode, if_neg hc.stay, if_neg hc.back, hi]
    simp only
    rw [hlink]
    refine ⟨k, fun fs' hag follow rest hrest => ?_⟩
    obtain ⟨hnode', hag'⟩ := hsame hnode hag
    have hlink' : fs'.link i = some target := by
      rw [hag.link i (lookup_lt ht hnode hi), hlink]
    have hgo : ¬ (comps ++ rest = [] ∧ follow = false) := by
      intro hlast
      rcases hrest with hrest | hrest
      · exact hrest (List.append_eq_nil_iff.mp hlast.1).2
      · rw [hlast.2] at hrest
        cases hrest
    refine (walk_jump hnode' hc hi hlink' hgo).trans ?_
    rw [hag.root, ← List.append_assoc]
    exact hk fs' hag' follow rest hrest

/-- A walk that goes all the way goes the first part of it. -/
theorem walk_front {fs : Fs} {links cur t : ℕ} {comps rest : List GoString}
    (h : fs.walk true links cur (comps ++ rest) = .ok t) :
    ∃ x, fs.walk true links cur comps = .ok x := by
  -- the first part is empty, or it begins as the walk does
  have hfirst : ∀ {links cur c all comps}, (∃ rest, c :: all = comps ++ rest) →
      (∀ front, (∃ rest, all = front ++ rest) →
        ∃ x, fs.walk true links cur (c :: front) = .ok x) →
          ∃ x, fs.walk true links cur comps = .ok x := by
    intro links cur c all comps hall hgo
    obtain ⟨rest, hall⟩ := hall
    cases comps with
    | nil => exact ⟨cur, walk_nil fs true links cur⟩
    | cons c' front =>
        obtain ⟨hc, hfront⟩ := List.cons_eq_cons.mp hall
        rw [← hc]
        exact hgo front ⟨rest, hfront⟩
  refine walk_induct (P := fun links cur all => ∀ comps, (∃ rest, all = comps ++ rest) →
    ∃ x, fs.walk true links cur comps = .ok x) ?_ ?_ ?_ ?_ ?_ h comps ⟨rest, rfl⟩
  · intro links comps hall
    obtain ⟨rest, hall⟩ := hall
    rw [(List.append_eq_nil_iff.mp hall.symm).1]
    exact ⟨t, walk_nil fs true links t⟩
  · intro links cur c all o m p es hnode hc ih comps hall
    refine hfirst hall fun front hfront => ?_
    obtain ⟨x, hx⟩ := ih front hfront
    exact ⟨x, (walk_skip hnode hc).trans hx⟩
  · intro links cur c all o m p es hnode hc ih comps hall
    refine hfirst hall fun front hfront => ?_
    obtain ⟨x, hx⟩ := ih front hfront
    exact ⟨x, (walk_up hnode hc).trans hx⟩
  · intro links cur c all o m p es i hnode hc hi hlink ih comps hall
    refine hfirst hall fun front hfront => ?_
    obtain ⟨x, hx⟩ := ih front hfront
    exact ⟨x, (walk_down hnode hc hi hlink).trans hx⟩
  · intro links cur c all o m p es i target hnode hc hi hlink ih comps hall
    refine hfirst hall fun front hfront => ?_
    obtain ⟨rest, hrest⟩ := hfront
    obtain ⟨x, hx⟩ := ih (split 47 target ++ front) ⟨rest, by rw [hrest, List.append_assoc]⟩
    exact ⟨x, (walk_jump hnode hc hi hlink (by simp)).trans hx⟩

theorem Agree.refl (V : List ℕ) (fs : Fs) : Agree V fs fs :=
  ⟨rfl, rfl, fun _ _ _ => rfl, fun _ _ => rfl⟩

/-- A walk goes on from where its first part has come. -/
theorem walk_rest {fs : Fs} (ht : fs.There) {links cur t : ℕ} {comps rest : List GoString}
    (h : fs.walk true links cur (comps ++ rest) = .ok t) :
    ∃ x k, fs.walk true links cur comps = .ok x ∧ ∀ rest, rest ≠ [] →
      fs.walk true links cur (comps ++ rest) = fs.walk true k x rest := by
  obtain ⟨x, hx⟩ := walk_front h
  obtain ⟨k, hk⟩ := walk_comes ht hx
  exact ⟨x, k, hx, fun rest hrest => hk fs (Agree.refl _ fs) true rest (.inl hrest)⟩

/-! ## Paths that lead to a directory -/

/-- The path comes to `t`, and every longer one goes on from there with `k` links left. -/
structure Leads (fs : Fs) (path : GoString) (t k : ℕ) : Prop where
  ne_nil : path ≠ []
  walk : ∀ (follow : Bool) (rest : List GoString), rest ≠ [] ∨ follow = true →
    fs.walk follow 40 (fs.start path) (split 47 path ++ rest) = fs.walk follow k t rest

theorem leads_of_resolve {fs : Fs} (ht : fs.There) {path : GoString} {t : ℕ}
    (h : fs.resolve true path = .ok t) :
    ∃ k, ∀ fs', Agree (fs.dirsOn path) fs fs' → fs'.Leads path t k := by
  rw [resolve] at h
  split at h
  · cases h
  · next hne =>
      obtain ⟨k, hk⟩ := walk_comes ht h
      refine ⟨k, fun fs' hag => ⟨hne, fun follow rest hrest => ?_⟩⟩
      have hstart : fs'.start path = fs.start path := by
        rw [start, start, hag.root, hag.cwd]
      rw [hstart]
      exact hk fs' hag follow rest hrest

section Leads

variable {fs : Fs} {path n : GoString} {t k c : ℕ}

theorem Leads.resolve (h : fs.Leads path t k) : fs.resolve true path = .ok t := by
  have hwalk := h.walk true [] (.inr rfl)
  rw [List.append_nil, walk_nil] at hwalk
  rw [Fs.resolve, if_neg h.ne_nil, hwalk]

theorem split_child (path : GoString) (hn : 47 ∉ n) :
    split 47 (path ++ 47 :: n) = split 47 path ++ [n] := by
  rw [split_append_sep, split_self hn]

theorem start_child (fs : Fs) (hne : path ≠ []) : fs.start (path ++ 47 :: n) = fs.start path := by
  rw [start, start, isAbs_append hne]

theorem comps_child (path : GoString) (hn : Walk.IsName n) :
    comps (path ++ 47 :: n) = split 47 path ++ [n] := by
  rw [comps, split_child path hn.no_slash, List.rdropWhile_concat_neg]
  simp [hn.ne_nil]

theorem Leads.lookupLast (h : fs.Leads path t k) (hn : Walk.IsName n) :
    fs.lookupLast (path ++ 47 :: n) = .ok (t, n) := by
  have hwalk := h.walk true [] (.inr rfl)
  rw [List.append_nil, walk_nil] at hwalk
  rw [Fs.lookupLast, if_neg (by simp), comps_child path hn, start_child fs h.ne_nil,
    List.dropLast_concat, hwalk]
  simp [Except.map]

theorem node_of_child (h : fs.child t n = some c) : ∃ o m p es, fs.node t = some (.dir o m p es) ∧
    es.lookup n = some c := by
  rw [child, entries] at h
  split at h
  · next hnode => exact ⟨_, _, _, _, hnode, h⟩
  · cases h

theorem node_of_isDir (h : fs.isDir t = true) : ∃ o m p es, fs.node t = some (.dir o m p es) := by
  rw [isDir] at h
  split at h
  · next hnode => exact ⟨_, _, _, _, hnode⟩
  · cases h

theorem Leads.resolve_slash (h : fs.Leads path t k) (hd : fs.isDir t = true) :
    fs.resolve true (path ++ [47]) = .ok t := by
  obtain ⟨o, m, p, es, hnode⟩ := node_of_isDir hd
  have hempty : split 47 ([] : GoString) = [[]] := rfl
  rw [Fs.resolve, if_neg (by simp), split_append_sep, hempty, start, isAbs_append h.ne_nil,
    ← start, h.walk true _ (.inr rfl), walk_skip hnode (.inl rfl), walk_nil]

theorem walk_child (hn : Walk.IsName n) (h : fs.child t n = some c) (hlink : fs.link c = none)
    (follow : Bool) (links : ℕ) (rest : List GoString) :
    fs.walk follow links t (n :: rest) = fs.walk follow links c rest := by
  obtain ⟨o, m, p, es, hnode, hi⟩ := node_of_child h
  exact walk_down hnode (steps_of_isName hn) hi hlink

theorem Leads.child (h : fs.Leads path t k) (hn : Walk.IsName n) (hc : fs.child t n = some c)
    (hlink : fs.link c = none) : fs.Leads (path ++ 47 :: n) c k := by
  refine ⟨by simp, fun follow rest _ => ?_⟩
  rw [split_child path hn.no_slash, start_child fs h.ne_nil, List.append_assoc,
    h.walk follow _ (.inl (List.append_ne_nil_of_left_ne_nil (List.cons_ne_nil n []) rest)),
    List.singleton_append]
  exact walk_child hn hc hlink follow k rest

theorem Leads.resolve_child (h : fs.Leads path t k) (hn : Walk.IsName n) (follow : Bool) :
    fs.resolve follow (path ++ 47 :: n) = fs.walk follow k t [n] := by
  rw [Fs.resolve, if_neg (by simp), split_child path hn.no_slash, start_child fs h.ne_nil]
  exact h.walk follow [n] (.inl (List.cons_ne_nil n []))

/-- What is there and is no link is found by every call. -/
theorem Leads.resolve_some (h : fs.Leads path t k) (hn : Walk.IsName n)
    (hc : fs.child t n = some c) (hlink : fs.link c = none) (follow : Bool) :
    fs.resolve follow (path ++ 47 :: n) = .ok c := by
  rw [h.resolve_child hn, walk_child hn hc hlink, walk_nil]

theorem Leads.resolve_none (h : fs.Leads path t k) (hn : Walk.IsName n)
    (hd : fs.isDir t = true) (hc : fs.child t n = none) (follow : Bool) :
    fs.resolve follow (path ++ 47 :: n) = .error .ENOENT := by
  obtain ⟨o, m, p, es, hnode⟩ := node_of_isDir hd
  have hi : es.lookup n = none := by
    rw [Fs.child, entries, hnode] at hc
    exact hc
  rw [h.resolve_child hn, walk_gone hnode (steps_of_isName hn) hi]

/-- Of a path that goes all the way, what is in front of a slash is a directory. -/
theorem resolve_front (ht : fs.There) {rest : GoString}
    (h : fs.resolve true (path ++ 47 :: rest) = .ok c) :
    ∃ d, fs.resolve true (path ++ [47]) = .ok d ∧ fs.isDir d = true := by
  rw [resolve, if_neg (by simp), split_append_sep] at h
  obtain ⟨d, k, -, hgo⟩ := walk_rest ht h
  have hstart : fs.start (path ++ [47]) = fs.start (path ++ 47 :: rest) := by
    cases path <;> rfl
  rw [hgo _ (split_ne_nil 47 rest)] at h
  obtain ⟨c', rest', hrest⟩ := List.exists_cons_of_ne_nil (split_ne_nil 47 rest)
  rw [hrest] at h
  obtain ⟨o, m, p, es, hnode⟩ := dir_of_walk h
  refine ⟨d, ?_, by rw [isDir, hnode]⟩
  have hempty : split 47 ([] : GoString) = [[]] := rfl
  rw [resolve, if_neg (by simp), split_append_sep, hempty, hstart, hgo _ (List.cons_ne_nil _ _),
    walk_skip hnode (.inl rfl), walk_nil]

/-- A call that does not follow finds what is there, link or not. -/
theorem Leads.resolve_nofollow (h : fs.Leads path t k) (hn : Walk.IsName n)
    (hc : fs.child t n = some c) : fs.resolve false (path ++ 47 :: n) = .ok c := by
  obtain ⟨o, m, p, es, hnode, hi⟩ := node_of_child hc
  have hc' := steps_of_isName hn
  rw [h.resolve_child hn, walk_cons hnode, if_neg hc'.stay, if_neg hc'.back, hi]
  simp only
  cases hlink : fs.link c with
  | none => rw [walk_nil]
  | some target => simp

end Leads

/-! ## Calls -/

/-- An object has other contents, other attributes or other entries. -/
def put (fs : Fs) (i : ℕ) (node : Node) : Fs :=
  { fs with node := Function.update fs.node i (some node) }

def setEntries (fs : Fs) (d : ℕ) (es : List (GoString × ℕ)) : Fs :=
  match fs.node d with
  | some (.dir owner mode parent _) => fs.put d (.dir owner mode parent es)
  | _ => fs

/-- A new object under a name. -/
def add (fs : Fs) (d : ℕ) (name : GoString) (node : Node) : Fs :=
  { (fs.setEntries d (fs.entries d ++ [(name, fs.next)])).put fs.next node with
    next := fs.next + 1 }

/-- A name is taken out of a directory. -/
def cut (fs : Fs) (d : ℕ) (name : GoString) : Fs :=
  fs.setEntries d ((fs.entries d).filter fun e => e.1 ≠ name)

/-- An object, changed by `f`. -/
def modify (fs : Fs) (i : ℕ) (f : Node → Node) : Fs :=
  match fs.node i with
  | some node => fs.put i (f node)
  | none => fs

/-- The entry that a call makes or takes away; `odd` is its answer to a path that names
none. -/
def lastEntry (fs : Fs) (odd : Errno) (path : GoString) : Except Errno (ℕ × GoString) :=
  match fs.lookupLast path with
  | .error e => .error e
  | .ok (d, name) =>
      if name = [] ∨ name = str "." ∨ name = str ".." then .error odd
      else if fs.isDir d then .ok (d, name)
      else .error .ENOTDIR

/-- The calls that make something, which never follow a link in the last place and never
take what is already there: `mkdir`, `symlink`, `open` with `O_CREAT|O_EXCL`. The answer
has the number of the new object. -/
def create (fs : Fs) (path : GoString) (node : ℕ → Node) : Except Errno (Fs × ℕ) :=
  match fs.lastEntry .EEXIST path with
  | .error e => .error e
  | .ok (d, name) =>
      match fs.child d name with
      | some _ => .error .EEXIST
      | none => .ok (fs.add d name (node d), fs.next)

def mkdir (fs : Fs) (owner : Int) (mode : BitVec 12) (path : GoString) : Except Errno (Fs × ℕ) :=
  fs.create path fun d => .dir owner mode d []

def symlink (fs : Fs) (owner : Int) (target path : GoString) : Except Errno (Fs × ℕ) :=
  if target = [] then .error .ENOENT else fs.create path fun _ => .symlink owner target

def openExcl (fs : Fs) (owner : Int) (mode : BitVec 12) (path : GoString) :
    Except Errno (Fs × ℕ) :=
  fs.create path fun _ => .file owner mode []

def unlink (fs : Fs) (path : GoString) : Except Errno Fs :=
  match fs.lastEntry .EISDIR path with
  | .error e => .error e
  | .ok (d, name) =>
      match fs.child d name with
      | none => .error .ENOENT
      | some c => if fs.isDir c then .error .EISDIR else .ok (fs.cut d name)

def rmdir (fs : Fs) (path : GoString) : Except Errno Fs :=
  match fs.lastEntry .EINVAL path with
  | .error e => .error e
  | .ok (d, name) =>
      match fs.child d name with
      | none => .error .ENOENT
      | some c =>
          if fs.isDir c = false then .error .ENOTDIR
          else if fs.entries c ≠ [] then .error .ENOTEMPTY
          else .ok (fs.cut d name)

/-- The calls that change what a path leads to. -/
def change (fs : Fs) (follow : Bool) (path : GoString) (f : Node → Node) :
    Except Errno (Fs × ℕ) :=
  match fs.resolve follow path with
  | .error e => .error e
  | .ok i => .ok (fs.modify i f, i)

def chown (fs : Fs) (follow : Bool) (uid : Int) (path : GoString) : Except Errno (Fs × ℕ) :=
  fs.change follow path (Node.setOwner uid)

def chmod (fs : Fs) (mode : BitVec 12) (path : GoString) : Except Errno (Fs × ℕ) :=
  fs.change true path (Node.setMode mode)

def kind (fs : Fs) (i : ℕ) : Kind :=
  match fs.node i with
  | some node => node.kind
  | none => .special

/-- What `stat` and `lstat` tell. -/
def stat (fs : Fs) (follow : Bool) (path : GoString) : Except Errno (Kind × BitVec 12) :=
  match fs.resolve follow path with
  | .error e => .error e
  | .ok i =>
      match fs.node i with
      | some node => .ok (node.kind, node.mode)
      | none => .error .ENOENT

def readlink (fs : Fs) (path : GoString) : Except Errno GoString :=
  match fs.resolve false path with
  | .error e => .error e
  | .ok i =>
      match fs.link i with
      | some target => .ok target
      | none => .error .EINVAL

/-- A directory's names, each with the kind of what it is of, in the order of the
directory. -/
def readDir (fs : Fs) (path : GoString) : Except Errno (List (GoString × Kind)) :=
  match fs.resolve true path with
  | .error e => .error e
  | .ok i =>
      if fs.isDir i then .ok ((fs.entries i).map fun e => (e.1, fs.kind e.2))
      else .error .ENOTDIR

section Calls

variable {fs : Fs} {path n : GoString} {d k c : ℕ}

theorem Leads.lastEntry (h : fs.Leads path d k) (hn : Walk.IsName n) (hd : fs.isDir d = true)
    (odd : Errno) : fs.lastEntry odd (path ++ 47 :: n) = .ok (d, n) := by
  rw [Fs.lastEntry, h.lookupLast hn]
  simp only
  rw [if_neg (not_or.mpr ⟨hn.ne_nil, not_or.mpr ⟨hn.ne_dot, hn.ne_dots⟩⟩), if_pos hd]

/-- The entry is the last component, below what the others lead to. -/
theorem lastEntry_ok {odd : Errno} (h : fs.lastEntry odd path = .ok (d, n)) :
    fs.walk true 40 (fs.start path) (comps path).dropLast = .ok d ∧
      (comps path).getLastD [] = n ∧ ¬ (n = [] ∨ n = str "." ∨ n = str "..") ∧
      fs.isDir d = true := by
  rw [lastEntry] at h
  split at h
  · cases h
  · next d' name hlast =>
      rw [lookupLast] at hlast
      split at hlast
      · cases hlast
      · cases hwalk : fs.walk true 40 (fs.start path) (comps path).dropLast with
        | error e => rw [hwalk] at hlast; cases hlast
        | ok x =>
            rw [hwalk] at hlast
            cases hlast
            split at h
            · cases h
            · next hodd =>
                split at h
                · next hd =>
                    cases h
                    exact ⟨rfl, rfl, hodd, hd⟩
                · cases h

/-- A path is its components, and nothing but slashes after them. -/
theorem split_comps (hne : (comps path).getLastD [] = n) (hn : n ≠ []) :
    ∃ rest, split 47 path = (comps path).dropLast ++ n :: rest := by
  obtain ⟨rest, hrest⟩ := List.rdropWhile_prefix (fun c => c = []) (split 47 path)
  refine ⟨rest, ?_⟩
  have hcomps : comps path ≠ [] := by
    intro hnil
    rw [hnil] at hne
    exact hn hne.symm
  have hlast : (comps path).getLast hcomps = n := by
    rw [← hne, List.getLastD_eq_getLast?, List.getLast?_eq_some_getLast hcomps]
    rfl
  have hsplit : (comps path).dropLast ++ [n] = comps path := by
    rw [← hlast]
    exact List.dropLast_append_getLast hcomps
  rw [← hrest]
  show comps path ++ rest = _
  rw [← hsplit, List.append_assoc, List.dropLast_concat]
  rfl

/-- Nothing is made where something stands. -/
theorem create_error (ht : fs.There) (h : fs.resolve true path = .ok c) (node : ℕ → Node) :
    ∃ e, fs.create path node = .error e := by
  rw [create]
  split
  · next e _ => exact ⟨e, rfl⟩
  · next d n hlast =>
      split
      · exact ⟨_, rfl⟩
      · next hfree =>
          exfalso
          obtain ⟨hwalk, hlast, hodd, hd⟩ := lastEntry_ok hlast
          rw [not_or, not_or] at hodd
          obtain ⟨rest, hsplit⟩ := split_comps hlast hodd.1
          rw [resolve] at h
          split at h
          · cases h
          · rw [hsplit] at h
            obtain ⟨x, k, hx, hgo⟩ := walk_rest ht h
            rw [hwalk] at hx
            cases hx
            rw [hgo _ (List.cons_ne_nil n rest)] at h
            obtain ⟨o, m, p, es, hnode⟩ := node_of_isDir hd
            have hi : es.lookup n = none := by
              rw [child, entries, hnode] at hfree
              exact hfree
            rw [walk_gone hnode ⟨not_or.mpr ⟨hodd.1, hodd.2.1⟩, hodd.2.2⟩ hi] at h
            cases h

/-- Where a call makes something. -/
theorem Leads.create (h : fs.Leads path d k) (hn : Walk.IsName n) (hd : fs.isDir d = true)
    {node : ℕ → Node} {r : Fs × ℕ} (hr : fs.create (path ++ 47 :: n) node = .ok r) :
    fs.child d n = none ∧ r = (fs.add d n (node d), fs.next) := by
  rw [Fs.create, h.lastEntry hn hd] at hr
  simp only at hr
  split at hr
  · cases hr
  · next hfree =>
      cases hr
      exact ⟨hfree, rfl⟩

/-- What a call takes away holds nothing. -/
theorem Leads.unlink (h : fs.Leads path d k) (hn : Walk.IsName n) (hd : fs.isDir d = true)
    {fs' : Fs} (hr : fs.unlink (path ++ 47 :: n) = .ok fs') : fs' = fs.cut d n := by
  rw [Fs.unlink, h.lastEntry hn hd] at hr
  simp only at hr
  split at hr
  · cases hr
  · split at hr
    · cases hr
    · cases hr
      rfl

theorem Leads.rmdir (h : fs.Leads path d k) (hn : Walk.IsName n) (hd : fs.isDir d = true)
    {fs' : Fs} (hr : fs.rmdir (path ++ 47 :: n) = .ok fs') : fs' = fs.cut d n := by
  rw [Fs.rmdir, h.lastEntry hn hd] at hr
  simp only at hr
  split at hr
  · cases hr
  · split at hr
    · cases hr
    · split at hr
      · cases hr
      · cases hr
        rfl

/-- Which object a call changes: what stands under the name, if that is no link or the
call does not follow. -/
theorem Leads.change (h : fs.Leads path d k) (hn : Walk.IsName n) (hc : fs.child d n = some c)
    {follow : Bool} (hlink : follow = true → fs.link c = none) (f : Node → Node) :
    fs.change follow (path ++ 47 :: n) f = .ok (fs.modify c f, c) := by
  have hres : fs.resolve follow (path ++ 47 :: n) = .ok c := by
    cases follow with
    | true => exact h.resolve_some hn hc (hlink rfl) true
    | false => exact h.resolve_nofollow hn hc
  rw [Fs.change, hres]

end Calls

end Fs

end Posix
