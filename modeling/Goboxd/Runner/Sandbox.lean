import Goboxd.Runner.CopyTree
import Goboxd.Runner.Exec
import Goboxd.Runner.Jail

/-!
# Jails on a disk

The operations of a jail again, now with what they do to the machine they run
on: the directories in the temporary directory, what the app dir of each one
holds, and the cgroup directories. `os.MkdirTemp` makes a directory whose name
is not in use, and so does `os.Mkdir` for a cgroup; a jail removes under the
name it was given, whatever else goes by that name.
-/

namespace Goboxd.Runner

open Go Uidpool

/-- The jail directories that exist, the contents of their app dirs, and the
jail cgroups that exist. -/
structure Disk where
  dirs : List GoString
  app : GoString → Entries
  leaves : List GoString

/-- A jail and the base name of its directory. -/
structure Sandbox where
  jail : Jail
  name : GoString
deriving DecidableEq, Repr

def Sandbox.fresh : Sandbox := { jail := .fresh, name := [] }

def Disk.setApp (d : Disk) (name : GoString) (es : Entries) : Disk :=
  { d with app := Function.update d.app name es }

def Disk.mkdir (d : Disk) (name : GoString) : Disk :=
  { d with dirs := name :: d.dirs, app := Function.update d.app name .nil }

def Disk.removeAll (d : Disk) (name : GoString) : Disk :=
  { d with dirs := d.dirs.filter fun n => n ≠ name }

def Disk.mkLeaf (d : Disk) (name : GoString) : Disk :=
  { d with leaves := name :: d.leaves }

def Disk.removeLeaf (d : Disk) (name : GoString) : Disk :=
  { d with leaves := d.leaves.filter fun n => n ≠ name }

/-- The app dir with the source file in it, as `writeSource` leaves it. -/
def sourceDir (umask : Mode) (uid : Int) (srcName source : GoString) : Entries :=
  .leaf srcName uid (.file (0o644 &&& ~~~umask) source) .nil

/-- What an operation of a jail does to the disk, and the name the jail has
from then on. `name` is the one that `MkdirTemp` comes up with. -/
def diskStep (umask : Mode) (srcName source : GoString) (disk : Disk)
    (sb : Sandbox) (e : Option GoString) (name : GoString) :
    Option (Disk × GoString) :=
  match sb.jail.pc, e with
  | .mkdirTemp, none =>
      if name ∈ disk.dirs then none else some (disk.mkdir name, name)
  | .chownRemove, none | .tdRemove, none =>
      some (disk.removeAll sb.name, sb.name)
  | .cgMkdir, none =>
      if sb.name ∈ disk.leaves then none else some (disk.mkLeaf sb.name, sb.name)
  | .cgRemove, none => some (disk.removeLeaf sb.name, sb.name)
  | .tdCgroup, none =>
      some (if sb.jail.cg then disk.removeLeaf sb.name else disk, sb.name)
  | .writeSource, none =>
      some (disk.setApp sb.name (sourceDir umask 0 srcName source), sb.name)
  | .chownSource, none =>
      some (disk.setApp sb.name (sourceDir umask sb.jail.uid srcName source), sb.name)
  | _, _ => some (disk, sb.name)

def sandboxStep (cgActive : Bool) (umask : Mode) (srcName source : GoString)
    (pool : Pool) (disk : Disk) (sb : Sandbox) (e : Option GoString)
    (name : GoString) : Option (Pool × Disk × Sandbox) :=
  (jailStep cgActive pool sb.jail e).bind fun r =>
    (diskStep umask srcName source disk sb e name).map fun d =>
      (r.1, d.1, { jail := r.2, name := d.2 })

/-- The jail that `newJail` returns for it. -/
def Sandbox.isJail (tempDir seccomp : GoString) (sb : Sandbox) (j : JailFields) :
    Bool :=
  sb.jail.pc = .live ∧ j.dir = tempDir ++ str "/" ++ sb.name ∧
    j.uid = sb.jail.uid ∧ j.cg.isSome = sb.jail.cg ∧ j.seccomp = seccomp

/-- What `newJail` answers: the jail, or the error it gave up with. -/
def Sandbox.answers (tempDir seccomp : GoString) (sb : Sandbox) :
    Except GoString JailFields → Bool
  | .ok j => sb.isJail tempDir seccomp j
  | .error err => sb.jail.pc = .gone ∧ sb.jail.err = some err

/-! ## What a jail has -/

def Jail.uids (j : Jail) : List Int := if j.holds then [j.uid] else []

def Sandbox.uids (sb : Sandbox) : List Int := sb.jail.uids

def Sandbox.dirs (sb : Sandbox) : List GoString :=
  if sb.jail.dir then [sb.name] else []

def Sandbox.leaves (sb : Sandbox) : List GoString :=
  if sb.jail.leaf then [sb.name] else []

theorem sandboxStep_some {cgActive : Bool} {umask : Mode}
    {srcName source name : GoString} {pool : Pool} {disk : Disk} {sb : Sandbox}
    {e : Option GoString} {r : Pool × Disk × Sandbox}
    (h : sandboxStep cgActive umask srcName source pool disk sb e name = some r) :
    jailStep cgActive pool sb.jail e = some (r.1, r.2.2.jail) ∧
      diskStep umask srcName source disk sb e name = some (r.2.1, r.2.2.name) := by
  rw [sandboxStep, Option.bind_eq_some_iff] at h
  obtain ⟨q, hq, h⟩ := h
  rw [Option.map_eq_some_iff] at h
  obtain ⟨d, hd, rfl⟩ := h
  exact ⟨hq, hd⟩

end Goboxd.Runner
