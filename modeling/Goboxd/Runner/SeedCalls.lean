import Mathlib.Data.List.Sort
import Goboxd.Lib.Outcome
import Goboxd.Lib.PosixFs

/-!
# Seeding a jail, call by call

`copyTree` again, and this time with nothing known of the two directories but their
paths: every step is a call that the kernel resolves in the file system as it is by
then, with the symbolic links that the build left in the template and those that the
copy has made of them. Any call may fail, whenever it likes; `io.Copy` may fail after
it has written any part of the file.

The state keeps a log of the objects that were made or changed, each with the file
system right after it, and of those that bytes were read from.
-/

namespace Goboxd.Runner.Seed

open Go Posix Outcome

/-- What the copy cannot choose: whose process it is, its umask, which calls fail, and how
much `io.Copy` has written when it does. -/
structure World where
  euid : Int
  umask : BitVec 12
  fault : ℕ → Option Errno
  written : ℕ → ℕ

/-- An object that a call made or changed, and the file system right after the call. -/
structure Touch where
  object : ℕ
  fs : Fs

structure Sys where
  fs : Fs
  clock : ℕ
  touched : List Touch
  reads : List ℕ

/-- `depth` stands for a recursion that goes on and on. -/
inductive CopyErr where
  | errno (e : Errno)
  | depth
deriving DecidableEq, Repr

abbrev SysM := ExceptT CopyErr (StateM Sys)

def Sys.tick (s : Sys) : Sys := { s with clock := s.clock + 1 }

/-- A call that only looks. -/
def look {α : Type} (w : World) (f : Fs → Except Errno α) : SysM α :=
  ExceptT.mk fun s =>
    match w.fault s.clock with
    | some e => (.error (.errno e), s.tick)
    | none =>
        match f s.fs with
        | .error e => (.error (.errno e), s.tick)
        | .ok a => (.ok a, s.tick)

/-- A call that takes a name away. -/
def take (w : World) (f : Fs → Except Errno Fs) : SysM Unit :=
  ExceptT.mk fun s =>
    match w.fault s.clock with
    | some e => (.error (.errno e), s.tick)
    | none =>
        match f s.fs with
        | .error e => (.error (.errno e), s.tick)
        | .ok fs => (.ok (), { s.tick with fs := fs })

/-- A call that makes or changes an object. -/
def touch (w : World) (f : Fs → Except Errno (Fs × ℕ)) : SysM ℕ :=
  ExceptT.mk fun s =>
    match w.fault s.clock with
    | some e => (.error (.errno e), s.tick)
    | none =>
        match f s.fs with
        | .error e => (.error (.errno e), s.tick)
        | .ok (fs, i) => (.ok i, { s.tick with fs := fs, touched := ⟨i, fs⟩ :: s.touched })

def close (w : World) : SysM Unit := look w fun _ => .ok ()

/-- `FileMode.Perm`. -/
def perm (mode : BitVec 12) : BitVec 12 := mode &&& 0o777

/-- Byte by byte, `a` does not come after `b`. -/
def nameLe : GoString → GoString → Bool
  | [], _ => true
  | _ :: _, [] => false
  | a :: as, b :: bs => if a = b then nameLe as bs else a < b

/-- `os.ReadDir` lists a directory by name. -/
def readDir (w : World) (path : GoString) : SysM (List (GoString × Kind)) := do
  let entries ← look w fun fs => fs.readDir path
  pure (entries.insertionSort fun a b => nameLe a.1 b.1 = true)

/-- `os.Remove`. -/
def remove (w : World) (path : GoString) : SysM Unit := do
  match ← outcome (take w fun fs => fs.unlink path) with
  | .ok _ => pure ()
  | .error e =>
      match ← outcome (take w fun fs => fs.rmdir path) with
      | .ok _ => pure ()
      | .error e1 => throw (if e1 = .errno .ENOTDIR then e else e1)

/-- The path up to its last element, without what slashes come after that. -/
def parentDir (path : GoString) : GoString :=
  (path.rdropWhile fun c => c == 47).rdropWhile fun c => c != 47

def mkdir (w : World) (path : GoString) (mode : BitVec 12) : SysM ℕ :=
  touch w fun fs => fs.mkdir w.euid (mode &&& ~~~w.umask) path

/-- The end of `os.MkdirAll`: a directory that is there already will do. -/
def mkdirLast (w : World) (path : GoString) (mode : BitVec 12) : SysM Unit := do
  match ← outcome (mkdir w path mode) with
  | .ok _ => pure ()
  | .error e =>
      match ← outcome (look w fun fs => fs.stat false path) with
      | .ok (.dir, _) => pure ()
      | _ => throw e

/-- `os.MkdirAll`. -/
def mkdirAll (w : World) : ℕ → GoString → BitVec 12 → SysM Unit
  | 0, _, _ => throw .depth
  | fuel + 1, path, mode => do
      match ← outcome (look w fun fs => fs.stat true path) with
      | .ok (kind, _) => if kind = .dir then pure () else throw (.errno .ENOTDIR)
      | .error _ =>
          if parentDir path ≠ [] then
            mkdirAll w fuel (parentDir path) mode
          mkdirLast w path mode

/-- `io.Copy`, from one open file to the end of another. -/
def ioCopy (w : World) (src dst : ℕ) : SysM Unit :=
  ExceptT.mk fun s =>
    match s.fs.node src with
    | some (.file _ _ data) =>
        let n := match w.fault s.clock with
          | none => data.length
          | some _ => w.written s.clock
        let fs := s.fs.modify dst (Node.append (data.take n))
        let s' : Sys :=
          { s.tick with fs := fs, touched := ⟨dst, fs⟩ :: s.touched, reads := src :: s.reads }
        match w.fault s.clock with
        | none => (.ok (), s')
        | some e => (.error (.errno e), s')
    | _ => (.error (.errno .EISDIR), { s.tick with reads := src :: s.reads })

def copySymlink (w : World) (uid : Int) (src dst : GoString) : SysM Unit := do
  let target ← look w fun fs => fs.readlink src
  let _ ← outcome (remove w dst)
  let _ ← touch w fun fs => fs.symlink w.euid target dst
  let _ ← touch w fun fs => fs.chown false uid dst

/-- What follows once both files are open. -/
def copyBytes (w : World) (i o : ℕ) : SysM Unit := do
  let cErr ← outcome (ioCopy w i o)
  let inErr ← outcome (close w)
  let outErr ← outcome (close w)
  raise cErr
  raise inErr
  raise outErr

/-- `info` is the path that the entry's `Info` looks at. -/
def copyRegular (w : World) (uid : Int) (info src dst : GoString) : SysM Unit := do
  let (_, mode) ← look w fun fs => fs.stat false info
  let _ ← outcome (remove w dst)
  let i ← look w fun fs => fs.resolve true src
  match ← outcome (touch w fun fs => fs.openExcl w.euid (perm mode &&& ~~~w.umask) dst) with
  | .error e => do
      let _ ← outcome (close w)
      throw e
  | .ok o => do
      copyBytes w i o
      let _ ← touch w fun fs => fs.chown true uid dst
      let _ ← touch w fun fs => fs.chmod (perm mode) dst

/-- One turn of the loop over the entries. -/
def copyEntry (w : World) (uid : Int) (copySub : GoString → GoString → SysM Unit)
    (srcDir dstDir : GoString) (e : GoString × Kind) : SysM Unit :=
  let info := srcDir ++ 47 :: e.1
  let src := pathJoin [srcDir, e.1]
  let dst := pathJoin [dstDir, e.1]
  match e.2 with
  | .dir => do
      let (_, mode) ← look w fun fs => fs.stat false info
      mkdirAll w (dst.length + 1) dst (perm mode)
      let _ ← touch w fun fs => fs.chown true uid dst
      copySub src dst
  | .symlink => copySymlink w uid src dst
  | .file => copyRegular w uid info src dst
  | .special => pure ()

def copyTree (w : World) (uid : Int) : ℕ → GoString → GoString → SysM Unit
  | 0, _, _ => throw .depth
  | fuel + 1, srcDir, dstDir => do
      let entries ← readDir w srcDir
      entries.forM fun e => copyEntry w uid (copyTree w uid fuel) srcDir dstDir e

/-- The directory of a jail that is mounted as `/app`. -/
def appDir (dir : GoString) : GoString := pathJoin [dir, str "app"]

/-- `srcPath` of `newJail`, where the source is written. -/
def srcPath (dir srcName : GoString) : GoString := pathJoin [appDir dir, srcName]

/-- `seedFrom`, of a jail at `dir` with this uid, from a template at `t`. -/
def seedFrom (w : World) (fuel : ℕ) (uid : Int) (dir t : GoString) : SysM Unit :=
  copyTree w uid fuel (appDir t) (appDir dir)

end Goboxd.Runner.Seed
