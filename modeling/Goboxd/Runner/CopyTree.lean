import Goboxd.Lib.GoError
import Goboxd.Lib.GoString

/-!
# Seeding a jail from the build template

`copyTree` copies what a directory holds into another one: directories
recursively, symlinks as symlinks, regular files with their bytes, and nothing
for the rest. Every entry that is copied belongs to the new jail's uid. The
mode of a file is restored after it was made; the mode of a directory is what
the process umask leaves of it.

A directory's entries are a chain in the order in which `os.ReadDir` lists them.
The copy removes what stands in the place of a file or a symlink before it makes
its own, so the source file that `newJail` wrote gives way to the template's,
and into a directory that holds nothing but that file the copy is the template,
entry by entry.
-/

namespace Goboxd.Runner

open Go

/-- The permission bits of a file mode, with setuid, setgid and sticky above
them. -/
abbrev Mode := BitVec 12

def Mode.Perm (m : Mode) : Mode := m &&& 0o777

/-- What is not a directory. -/
inductive FileNode where
  | file (mode : Mode) (data : GoString)
  | symlink (target : GoString)
  /-- A FIFO, a socket or a device. -/
  | special
deriving DecidableEq, Repr

/-- The entries of a directory, each with its owner. -/
inductive Entries where
  | nil
  | leaf (name : GoString) (owner : Int) (node : FileNode) (rest : Entries)
  | dir (name : GoString) (owner : Int) (mode : Mode) (sub rest : Entries)
deriving DecidableEq, Repr

namespace Entries

def append : Entries → Entries → Entries
  | .nil, es => es
  | .leaf name owner node rest, es => .leaf name owner node (rest.append es)
  | .dir name owner mode sub rest, es => .dir name owner mode sub (rest.append es)

def names : Entries → List GoString
  | .nil => []
  | .leaf name _ _ rest => name :: rest.names
  | .dir name _ _ _ rest => name :: rest.names

/-- A file system names no two entries of a directory alike. -/
def Wf : Entries → Prop
  | .nil => True
  | .leaf name _ _ rest => name ∉ rest.names ∧ rest.Wf
  | .dir name _ _ sub rest => name ∉ rest.names ∧ sub.Wf ∧ rest.Wf

/-- The entries of the directory `name`, if there is one. -/
def subdir (name : GoString) : Entries → Option Entries
  | .nil => none
  | .leaf n _ _ rest => if n = name then none else rest.subdir name
  | .dir n _ _ sub rest => if n = name then some sub else rest.subdir name

def setSubdir (name : GoString) : Entries → Entries → Entries
  | .nil, _ => .nil
  | .leaf n owner node rest, sub' => .leaf n owner node (rest.setSubdir name sub')
  | .dir n owner mode sub rest, sub' =>
      if n = name then .dir n owner mode sub' rest
      else .dir n owner mode sub (rest.setSubdir name sub')

/-- `os.Chown` of the directory `name`. -/
def chownDir (name : GoString) (uid : Int) : Entries → Entries
  | .nil => .nil
  | .leaf n owner node rest => .leaf n owner node (rest.chownDir name uid)
  | .dir n owner mode sub rest =>
      if n = name then .dir n uid mode sub rest
      else .dir n owner mode sub (rest.chownDir name uid)

/-- `os.Remove`: anything but a directory that holds something. -/
def remove (name : GoString) : Entries → Entries
  | .nil => .nil
  | .leaf n owner node rest =>
      if n = name then rest else .leaf n owner node (rest.remove name)
  | .dir n owner mode sub rest =>
      if n = name then (if sub = .nil then rest else .dir n owner mode sub rest)
      else .dir n owner mode sub (rest.remove name)

/-- Making the file or symlink `name` in the place of what was removed. The
open is exclusive, and so is the making of a symlink. -/
def replace (dst : Entries) (name : GoString) (owner : Int) (node : FileNode) :
    Except GoString Entries :=
  let dst := dst.remove name
  if name ∈ dst.names then .error (str "file exists")
  else .ok (dst.append (.leaf name owner node .nil))

/-- There is a regular file of this name. -/
def hasFile (name : GoString) : Entries → Prop
  | .nil => False
  | .leaf n _ (.file ..) rest => n = name ∨ rest.hasFile name
  | .leaf _ _ _ rest => rest.hasFile name
  | .dir _ _ _ _ rest => rest.hasFile name

end Entries

/-- `copyTree`. A name in `dst` that leads through a symlink to a directory is
an error here; where the source would follow it, nothing ever plants one. -/
def copyTree (umask : Mode) (uid : Int) : Entries → Entries → Except GoString Entries
  | .nil, dst => .ok dst
  | .dir name _ mode sub rest, dst =>
      match dst.subdir name with
      | some sub' =>
          (copyTree umask uid sub sub').bind fun sub'' =>
            copyTree umask uid rest ((dst.chownDir name uid).setSubdir name sub'')
      | none =>
          if name ∈ dst.names then .error (str "not a directory")
          else
            (copyTree umask uid sub .nil).bind fun sub' =>
              copyTree umask uid rest
                (dst.append (.dir name uid (mode.Perm &&& ~~~umask) sub' .nil))
  | .leaf name _ (.symlink target) rest, dst =>
      (dst.replace name uid (.symlink target)).bind (copyTree umask uid rest)
  | .leaf name _ (.file mode data) rest, dst =>
      (dst.replace name uid (.file mode.Perm data)).bind (copyTree umask uid rest)
  | .leaf _ _ .special rest, dst => copyTree umask uid rest dst

/-! ## What a copy is -/

/-- What is found at a path. -/
inductive FoundKind where
  | file (perm : Mode) (data : GoString)
  | symlink (target : GoString)
  | special
  | dir (perm : Mode)
deriving DecidableEq, Repr

structure Found where
  owner : Int
  kind : FoundKind
deriving DecidableEq, Repr

def FileNode.kind : FileNode → FoundKind
  | .file mode data => .file mode.Perm data
  | .symlink target => .symlink target
  | .special => .special

/-- The entry at a path of names, with its owner and permissions. -/
def Entries.find : Entries → List GoString → Option Found
  | .nil, _ => none
  | .leaf _ _ _ _, [] => none
  | .dir _ _ _ _ _, [] => none
  | .leaf n owner node rest, name :: path =>
      if n = name then (if path = [] then some ⟨owner, node.kind⟩ else none)
      else rest.find (name :: path)
  | .dir n owner mode sub rest, name :: path =>
      if n = name then (if path = [] then some ⟨owner, .dir mode.Perm⟩ else sub.find path)
      else rest.find (name :: path)

/-- What a program finds in a directory: names, bytes, targets and modes, but
not the uids, which differ from jail to jail, and no special files. -/
def Entries.contents : Entries → Entries
  | .nil => .nil
  | .leaf _ _ .special rest => rest.contents
  | .leaf name _ node rest => .leaf name 0 node rest.contents
  | .dir name _ mode sub rest => .dir name 0 mode sub.contents rest.contents

/-- The copy of a template into a fresh app dir. -/
def Entries.seeded (umask : Mode) (uid : Int) : Entries → Entries
  | .nil => .nil
  | .leaf name _ (.file mode data) rest =>
      .leaf name uid (.file mode.Perm data) (rest.seeded umask uid)
  | .leaf name _ (.symlink target) rest =>
      .leaf name uid (.symlink target) (rest.seeded umask uid)
  | .leaf _ _ .special rest => rest.seeded umask uid
  | .dir name _ mode sub rest =>
      .dir name uid (mode.Perm &&& ~~~umask) (sub.seeded umask uid)
        (rest.seeded umask uid)

/-- The modes that a copy keeps: no bit above the permissions, and on a
directory none that the umask takes. -/
def Entries.ModesKept (umask : Mode) : Entries → Prop
  | .nil => True
  | .leaf _ _ (.file mode _) rest => mode.Perm = mode ∧ rest.ModesKept umask
  | .leaf _ _ _ rest => rest.ModesKept umask
  | .dir _ _ mode sub rest =>
      mode.Perm &&& ~~~umask = mode ∧ sub.ModesKept umask ∧ rest.ModesKept umask

namespace Entries

variable {umask : Mode} {uid : Int}

@[simp] theorem append_nil (es : Entries) : es.append .nil = es := by
  induction es with
  | nil => rfl
  | leaf _ _ _ _ ih => rw [append, ih]
  | dir _ _ _ _ _ _ ih => rw [append, ih]

theorem append_assoc (as bs cs : Entries) :
    (as.append bs).append cs = as.append (bs.append cs) := by
  induction as with
  | nil => rfl
  | leaf _ _ _ _ ih => rw [append, append, append, ih]
  | dir _ _ _ _ _ _ ih => rw [append, append, append, ih]

@[simp] theorem names_append (as bs : Entries) :
    (as.append bs).names = as.names ++ bs.names := by
  induction as with
  | nil => rfl
  | leaf _ _ _ _ ih => rw [append, names, names, ih, List.cons_append]
  | dir _ _ _ _ _ _ ih => rw [append, names, names, ih, List.cons_append]

theorem remove_of_notMem {name : GoString} {es : Entries} (h : name ∉ es.names) :
    es.remove name = es := by
  induction es with
  | nil => rfl
  | leaf n _ _ rest ih =>
      rw [names, List.mem_cons, not_or] at h
      rw [remove, if_neg (Ne.symm h.1), ih h.2]
  | dir n _ _ _ rest _ ih =>
      rw [names, List.mem_cons, not_or] at h
      rw [remove, if_neg (Ne.symm h.1), ih h.2]

theorem subdir_of_notMem {name : GoString} {es : Entries} (h : name ∉ es.names) :
    es.subdir name = none := by
  induction es with
  | nil => rfl
  | leaf n _ _ rest ih =>
      rw [names, List.mem_cons, not_or] at h
      rw [subdir, if_neg (Ne.symm h.1), ih h.2]
  | dir n _ _ _ rest _ ih =>
      rw [names, List.mem_cons, not_or] at h
      rw [subdir, if_neg (Ne.symm h.1), ih h.2]

theorem find_of_notMem {name : GoString} {path : List GoString} {es : Entries}
    (h : name ∉ es.names) : es.find (name :: path) = none := by
  induction es with
  | nil => rfl
  | leaf n _ _ rest ih =>
      rw [names, List.mem_cons, not_or] at h
      rw [find, if_neg (Ne.symm h.1), ih h.2]
  | dir n _ _ _ rest _ ih =>
      rw [names, List.mem_cons, not_or] at h
      rw [find, if_neg (Ne.symm h.1), ih h.2]

theorem replace_of_notMem {name : GoString} {owner : Int} {node : FileNode}
    {es : Entries} (h : name ∉ es.names) :
    es.replace name owner node = .ok (es.append (.leaf name owner node .nil)) := by
  unfold replace
  simp only [remove_of_notMem h, if_neg h]

theorem hasFile_mem {name : GoString} {es : Entries} (h : es.hasFile name) :
    name ∈ es.names := by
  induction es with
  | nil => cases h
  | leaf n _ node rest ih =>
      cases node with
      | file mode data =>
          rcases h with rfl | h
          · exact List.mem_cons_self
          · exact List.mem_cons_of_mem _ (ih h)
      | symlink target => exact List.mem_cons_of_mem _ (ih h)
      | special => exact List.mem_cons_of_mem _ (ih h)
  | dir n _ _ _ rest _ ih => exact List.mem_cons_of_mem _ (ih h)

/-- None of the names is taken in the destination. -/
def Apart (src dst : Entries) : Prop := ∀ name ∈ src.names, name ∉ dst.names

theorem Apart.snoc {rest dst : Entries} {name : GoString} {one : Entries}
    (h : ∀ n ∈ rest.names, n ∉ dst.names) (hone : one.names = [name])
    (hname : name ∉ rest.names) : Apart rest (dst.append one) := by
  intro n hn hmem
  rw [names_append, hone, List.mem_append, List.mem_singleton] at hmem
  rcases hmem with hmem | rfl
  · exact h n hn hmem
  · exact hname hn

/-- Into a directory with none of its names, a tree is copied behind what is
there. -/
theorem copyTree_apart {src : Entries} : ∀ {dst : Entries}, src.Wf → Apart src dst →
    copyTree umask uid src dst = .ok (dst.append (src.seeded umask uid)) := by
  induction src with
  | nil => intro dst _ _; rw [copyTree, seeded, append_nil]
  | leaf name owner node rest ih =>
      intro dst hw ha
      have hname : name ∉ dst.names := ha name List.mem_cons_self
      have hrest : ∀ n ∈ rest.names, n ∉ dst.names := fun n hn =>
        ha n (List.mem_cons_of_mem _ hn)
      cases node with
      | file mode data =>
          rw [copyTree, replace_of_notMem hname]
          show copyTree umask uid rest (dst.append _) = _
          rw [ih hw.2 (Apart.snoc hrest rfl hw.1), append_assoc]
          rfl
      | symlink target =>
          rw [copyTree, replace_of_notMem hname]
          show copyTree umask uid rest (dst.append _) = _
          rw [ih hw.2 (Apart.snoc hrest rfl hw.1), append_assoc]
          rfl
      | special =>
          rw [copyTree, ih hw.2 hrest]
          rfl
  | dir name owner mode sub rest ihsub ih =>
      intro dst hw ha
      obtain ⟨hfresh, hsub, hwrest⟩ := hw
      have hname : name ∉ dst.names := ha name List.mem_cons_self
      have hrest : ∀ n ∈ rest.names, n ∉ dst.names := fun n hn =>
        ha n (List.mem_cons_of_mem _ hn)
      have hcopy : copyTree umask uid sub .nil = .ok (Entries.nil.append _) :=
        ihsub hsub (fun n _ => List.not_mem_nil)
      rw [copyTree, subdir_of_notMem hname]
      simp only [if_neg hname, hcopy]
      show copyTree umask uid rest (dst.append _) = _
      rw [ih hwrest (Apart.snoc hrest rfl hfresh), append_assoc]
      rfl

/-- Behind the entry `name` that is there already, a tree is copied as it is, unless
it has a directory of that name. A file or a symlink takes the entry's place. -/
theorem copyTree_over {src : Entries} {name : GoString} {owner : Int} {node : FileNode} :
    ∀ {dst : Entries}, src.Wf → Apart src dst → name ∉ dst.names →
    copyTree umask uid src (.leaf name owner node dst) =
      match (src.find [name]).map Found.kind with
      | some (.dir _) => .error (str "not a directory")
      | some (.file ..) | some (.symlink _) => .ok (dst.append (src.seeded umask uid))
      | some .special | none =>
          .ok (.leaf name owner node (dst.append (src.seeded umask uid))) := by
  induction src with
  | nil =>
      intro dst _ _ _
      rw [copyTree, seeded, append_nil, find]
      rfl
  | leaf n own nd rest ih =>
      intro dst hw ha hname
      have hn : n ∉ dst.names := ha n List.mem_cons_self
      have hrest : ∀ m ∈ rest.names, m ∉ dst.names := fun m hm =>
        ha m (List.mem_cons_of_mem _ hm)
      by_cases heq : n = name
      · subst heq
        have hgone : ∀ nd' : FileNode, (Entries.leaf n owner node dst).replace n uid nd' =
            .ok (dst.append (.leaf n uid nd' .nil)) := by
          intro nd'
          unfold replace
          simp only [remove, if_true, if_neg hn]
        cases nd with
        | file mode data =>
            rw [copyTree, hgone]
            show copyTree umask uid rest (dst.append _) = _
            rw [copyTree_apart hw.2 (Apart.snoc hrest rfl hw.1), append_assoc, find,
              if_pos rfl]
            rfl
        | symlink target =>
            rw [copyTree, hgone]
            show copyTree umask uid rest (dst.append _) = _
            rw [copyTree_apart hw.2 (Apart.snoc hrest rfl hw.1), append_assoc, find,
              if_pos rfl]
            rfl
        | special =>
            rw [copyTree, ih hw.2 hrest hname, find_of_notMem hw.1, find, if_pos rfl]
            rfl
      · have hnew : n ∉ (Entries.leaf name owner node dst).names := by
          rw [names, List.mem_cons, not_or]
          exact ⟨heq, hn⟩
        have hbehind : ∀ nd' : FileNode,
            name ∉ (dst.append (.leaf n uid nd' .nil)).names := by
          intro nd'
          rw [names_append, List.mem_append, not_or]
          exact ⟨hname, fun h => heq (List.mem_singleton.mp h).symm⟩
        rw [find, if_neg heq]
        cases nd with
        | file mode data =>
            rw [copyTree, replace_of_notMem hnew]
            show copyTree umask uid rest (.leaf name owner node (dst.append _)) = _
            rw [ih hw.2 (Apart.snoc hrest rfl hw.1) (hbehind _), append_assoc]
            rfl
        | symlink target =>
            rw [copyTree, replace_of_notMem hnew]
            show copyTree umask uid rest (.leaf name owner node (dst.append _)) = _
            rw [ih hw.2 (Apart.snoc hrest rfl hw.1) (hbehind _), append_assoc]
            rfl
        | special =>
            rw [copyTree, ih hw.2 hrest hname]
            rfl
  | dir n own mode sub rest _ ih =>
      intro dst hw ha hname
      obtain ⟨hfresh, hsub, hwrest⟩ := hw
      have hn : n ∉ dst.names := ha n List.mem_cons_self
      have hrest : ∀ m ∈ rest.names, m ∉ dst.names := fun m hm =>
        ha m (List.mem_cons_of_mem _ hm)
      by_cases heq : n = name
      · -- `MkdirAll` finds the entry in its way
        subst heq
        have hnone : (Entries.leaf n owner node dst).subdir n = none := by
          rw [subdir, if_pos rfl]
        rw [copyTree, hnone]
        simp only [names, List.mem_cons_self, if_true]
        rw [find, if_pos rfl]
        rfl
      · have hnew : n ∉ (Entries.leaf name owner node dst).names := by
          rw [names, List.mem_cons, not_or]
          exact ⟨heq, hn⟩
        have hcopy : copyTree umask uid sub .nil = .ok (Entries.nil.append _) :=
          copyTree_apart hsub (fun m _ => List.not_mem_nil)
        rw [copyTree, subdir_of_notMem hnew]
        simp only [if_neg hnew, hcopy]
        show copyTree umask uid rest (.leaf name owner node (dst.append _)) = _
        rw [ih hwrest (Apart.snoc hrest rfl hfresh)
          (by rw [names_append, List.mem_append, not_or]
              exact ⟨hname, fun h => heq (List.mem_singleton.mp h).symm⟩),
          append_assoc, find, if_neg heq]
        rfl

theorem find_of_hasFile {name : GoString} {es : Entries} (hw : es.Wf)
    (h : es.hasFile name) :
    ∃ owner perm data, es.find [name] = some ⟨owner, .file perm data⟩ := by
  induction es with
  | nil => cases h
  | leaf n owner node rest ih =>
      by_cases heq : n = name
      · subst heq
        cases node with
        | file mode data => exact ⟨owner, mode.Perm, data, by rw [find, if_pos rfl]; rfl⟩
        | symlink target => exact absurd (show n ∈ rest.names from hasFile_mem h) hw.1
        | special => exact absurd (show n ∈ rest.names from hasFile_mem h) hw.1
      · rw [find, if_neg heq]
        cases node with
        | file mode data => exact ih hw.2 (h.resolve_left heq)
        | symlink target => exact ih hw.2 h
        | special => exact ih hw.2 h
  | dir n owner mode sub rest _ ih =>
      have heq : n ≠ name := by
        intro heq
        rw [heq] at hw
        exact hw.1 (hasFile_mem h)
      rw [find, if_neg heq]
      exact ih hw.2.2 h

/-- Into a fresh app dir, which holds the source file, a template with a
regular file of that name is copied as it is. -/
theorem copyTree_fresh {src : Entries} {name : GoString} {owner : Int} {node : FileNode}
    {dst : Entries} (hw : src.Wf) (hf : src.hasFile name) (ha : Apart src dst)
    (hname : name ∉ dst.names) :
    copyTree umask uid src (.leaf name owner node dst) =
      .ok (dst.append (src.seeded umask uid)) := by
  obtain ⟨_, perm, data, hfind⟩ := find_of_hasFile hw hf
  rw [copyTree_over hw ha hname, hfind]
  rfl

/-- A program finds the template's contents in the copy exactly when the copy
keeps the modes. -/
theorem contents_seeded_iff {es : Entries} :
    (es.seeded umask uid).contents = es.contents ↔ es.ModesKept umask := by
  induction es with
  | nil => exact ⟨fun _ => trivial, fun _ => rfl⟩
  | leaf name owner node rest ih =>
      cases node with
      | file mode data => simp [seeded, contents, ModesKept, ih]
      | symlink target => simp [seeded, contents, ModesKept, ih]
      | special => exact ih
  | dir name owner mode sub rest ihsub ih =>
      simp [seeded, contents, ModesKept, ihsub, ih]

theorem contents_contents (es : Entries) : es.contents.contents = es.contents := by
  induction es with
  | nil => rfl
  | leaf name owner node rest ih =>
      cases node with
      | file mode data => simp [contents, ih]
      | symlink target => simp [contents, ih]
      | special => exact ih
  | dir name owner mode sub rest ihsub ih => simp [contents, ihsub, ih]

/-- What a program finds in a copy depends on what it would find in the
template, and on nothing else. -/
theorem contents_seeded (es : Entries) :
    (es.seeded umask uid).contents = (es.contents.seeded umask 0).contents := by
  induction es with
  | nil => rfl
  | leaf name owner node rest ih =>
      cases node with
      | file mode data => simp [seeded, contents, ih]
      | symlink target => simp [seeded, contents, ih]
      | special => exact ih
  | dir name owner mode sub rest ihsub ih => simp [seeded, contents, ihsub, ih]

theorem hasFile_of_contents {name : GoString} {es : Entries}
    (h : es.contents.hasFile name) : es.hasFile name := by
  induction es with
  | nil => exact h
  | leaf n _ node rest ih =>
      cases node with
      | file mode data => exact h.imp_right ih
      | symlink target => exact ih h
      | special => exact ih h
  | dir n _ _ _ rest _ ih => exact ih h

end Entries

end Goboxd.Runner
