import Goboxd.Cgroupv2
import Goboxd.Lib.GoPath
import Goboxd.Lib.Calls
import Goboxd.Lib.CgroupTree

/-!
# The cgroup manager, call by call

What package `cgroupv2` does to the hierarchy, as the calls it makes: the probe that
decides whether the hierarchy is to be trusted, the sweep, and the removal of a jail's
directory. Nothing is known of the answers here. The manager's own counters and the limits
it hands to nsjail are read elsewhere; here it is the directories, and the process the
probe measures.

A path is the list of the names below the mount, so that `filepath.Join` is to append.
`removeJailDir` calls itself once for each level of the hierarchy, which the code does not
bound; the fuel stands for the levels.
-/

namespace Goboxd.Cgroupv2

open Go Cgroup

abbrev Path := List GoString

inductive Call where
  | getenv (key : GoString)
  /-- The type of the file system that is mounted. -/
  | statfs
  | mkdirAll (path : Path)
  | mkdir (path : Path)
  | readDir (path : Path)
  /-- `os.Remove`. -/
  | remove (path : Path)
  | writeFile (path : Path) (text : GoString)
  | readFile (path : Path)
  /-- `cmd.StdinPipe` of the probe's hog. -/
  | stdinPipe
  | start
  | writeStdin (text : GoString)
  | closeStdin
  | kill
  | wait
  /-- `time.Sleep`, of 100 ms. -/
  | sleep
deriving DecidableEq, Repr

/-- `start` answers with the pid, and a directory's entries tell which are directories. -/
abbrev Answer : Call → Type
  | .getenv _ => GoString
  | .statfs => Except Errno Nat
  | .mkdirAll _ | .mkdir _ | .remove _ | .writeFile _ _ => Except Errno Unit
  | .readDir _ => Except Errno (List (GoString × Bool))
  | .readFile _ => Except Errno GoString
  | .stdinPipe | .writeStdin _ | .closeStdin | .wait => Except Errno Unit
  | .start => Except Errno Nat
  | .kill | .sleep => Unit

abbrev Prog := Calls Call Answer

open Calls

abbrev getenv (key : GoString) : Prog GoString := ask (Call.getenv key)

abbrev statfs : Prog (Except Errno Nat) := ask Call.statfs

abbrev mkdirAll (path : Path) : Prog (Except Errno Unit) := ask (Call.mkdirAll path)

abbrev mkdir (path : Path) : Prog (Except Errno Unit) := ask (Call.mkdir path)

abbrev readDir (path : Path) : Prog (Except Errno (List (GoString × Bool))) :=
  ask (Call.readDir path)

abbrev remove (path : Path) : Prog (Except Errno Unit) := ask (Call.remove path)

abbrev writeFile (path : Path) (text : GoString) : Prog (Except Errno Unit) :=
  ask (Call.writeFile path text)

abbrev readFile (path : Path) : Prog (Except Errno GoString) := ask (Call.readFile path)

abbrev stdinPipe : Prog (Except Errno Unit) := ask Call.stdinPipe

abbrev start : Prog (Except Errno Nat) := ask Call.start

abbrev writeStdin (text : GoString) : Prog (Except Errno Unit) := ask (Call.writeStdin text)

abbrev closeStdin : Prog (Except Errno Unit) := ask Call.closeStdin

abbrev kill : Prog Unit := ask Call.kill

abbrev wait : Prog (Except Errno Unit) := ask Call.wait

abbrev sleep : Prog Unit := ask Call.sleep

/-! ## Removing directories -/

/-- The loop of `removeJailDir` and of `Sweep` over a directory's entries: the kernel's own
files are passed over, and so are the errors. -/
def removeDirs (removeDir : Path → Prog (Except Errno Unit)) (path : Path) :
    List (GoString × Bool) → Prog Unit
  | [] => pure ()
  | (name, isDir) :: rest => do
      if isDir then
        let _ ← removeDir (path ++ [name])
      removeDirs removeDir path rest

/-- The loop, if the directory could be read. -/
def removeListed (removeDir : Path → Prog (Except Errno Unit)) (path : Path) :
    Except Errno (List (GoString × Bool)) → Prog Unit
  | .ok entries => removeDirs removeDir path entries
  | .error _ => pure ()

/-- The files that a directory has where it is no cgroup, in the tests. -/
def removeFiles (path : Path) : List GoString → Prog Unit
  | [] => pure ()
  | name :: rest => do
      let _ ← remove (path ++ [name])
      removeFiles path rest

def jailFiles : List GoString :=
  [str "cgroup.subtree_control", str "memory.peak", str "cpu.stat", str "memory.events"]

def removeJailDir : ℕ → Path → Prog (Except Errno Unit)
  | 0, _ => .endless
  | fuel + 1, path => do
      let listing ← readDir path
      removeListed (removeJailDir fuel) path listing
      removeFiles path jailFiles
      remove path

/-- `Manager.RemoveJail`. -/
def RemoveJail (fuel : ℕ) (base : Path) (id : GoString) : Prog (Except Errno Unit) :=
  removeJailDir fuel (base ++ [id])

/-- `Manager.Sweep`. -/
def Sweep (fuel : ℕ) (base : Path) : Prog Unit := do
  let listing ← readDir base
  removeListed (removeJailDir fuel) base listing

/-- The attempts of `Jail.Teardown` that are left. -/
def teardownLoop (fuel : ℕ) (path : Path) : ℕ → Prog Unit
  | 0 => pure ()
  | left + 1 => do
      match ← removeJailDir fuel path with
      | .ok _ => pure ()
      | .error .EBUSY =>
          sleep
          teardownLoop fuel path left
      | .error _ => pure ()

/-- `Jail.Teardown`. -/
def Teardown (fuel : ℕ) (path : Path) : Prog Unit := teardownLoop fuel path 5

/-! ## The probe -/

/-- What the probe may fail with. -/
inductive ProbeErr where
  /-- `statfs %s: %w` -/
  | statfs (e : Errno)
  /-- `%s is not a cgroup2 filesystem (type %#x)` -/
  | notCgroup2 (fsType : Nat)
  /-- `creating %s: %w`, of the delegation point -/
  | base (e : Errno)
  /-- `enabling memory+pids in %s: %w` -/
  | enable (e : Errno)
  /-- `creating probe dir: %w` -/
  | probeDir (e : Errno)
  /-- `enabling probe controllers: %w` -/
  | controllers (e : Errno)
  /-- `creating probe leaf: %w` -/
  | leaf (e : Errno)
  /-- `writing probe memory.max: %w` -/
  | memoryMax (e : Errno)
  /-- `writing probe memory.swap.max: %w` -/
  | swapMax (e : Errno)
  /-- `probe hog stdin: %w` -/
  | stdin (e : Errno)
  /-- `starting probe hog: %w` -/
  | start (e : Errno)
  /-- `moving hog into probe leaf: %w` -/
  | move (e : Errno)
  /-- `probe hog failed: %w` -/
  | hog (e : Errno)
  /-- `reading probe memory.peak: %w` -/
  | peak (e : Errno)
  /-- `parsing probe memory.peak %q: %w` -/
  | peakText (text : GoString)
  /-- `memory controller inert: hog touched 16MB but peak is %d bytes` -/
  | inert (peak : Int)
deriving DecidableEq, Repr

/-- To go on with what a call gave, or to return its error. -/
def orFail {α β : Type} (p : Prog (Except Errno α)) (err : Errno → ProbeErr)
    (next : α → Prog (Except ProbeErr β)) : Prog (Except ProbeErr β) := do
  match ← p with
  | .ok a => next a
  | .error e => pure (.error (err e))

def baseName : GoString := str "goboxd"

def cgroup2Magic : Nat := 0x63677270

/-- In microseconds. -/
def probeMinCPUUsageUS : Int := 1000000

def probeMinPeak : Int := 8 * 1024 * 1024

def subtreeControl (path : Path) : Path := path ++ [str "cgroup.subtree_control"]

/-- `Manager.verifyCPU`: whether the cpu controller is to be trusted from now on. -/
def verifyCPU (cpuActive : Bool) (leaf : Path) : Prog Bool := do
  if !cpuActive then return false
  match ← readFile (leaf ++ [str "cpu.stat"]) with
  | .error _ => return false
  | .ok text =>
      match usageOfLines [] (split 10 text) with
      | .error _ => return false
      | .ok us => return !(us < probeMinCPUUsageUS)

/-- The release of the hog, once it is in the leaf. -/
def releaseHog : Prog Unit := do
  match ← writeStdin (str "go") with
  | .ok _ => pure ()
  | .error _ => kill
  let _ ← closeStdin

/-- What the hog's run left in the leaf's `memory.peak`. -/
def verifyPeak (cpuActive : Bool) (leaf : Path) : Prog (Except ProbeErr Bool) :=
  orFail (readFile (leaf ++ [str "memory.peak"])) .peak fun text =>
    match atoi (trimSpace text) with
    | none => pure (.error (.peakText text))
    | some peak => do
        if peak < probeMinPeak then return .error (.inert peak)
        return .ok (← verifyCPU cpuActive leaf)

/-- The hog, started and moved into the leaf, then released and waited for. -/
def runHog (cpuActive : Bool) (leaf : Path) : Prog (Except ProbeErr Bool) :=
  orFail stdinPipe .stdin fun _ =>
  orFail start .start fun pid => do
    match ← writeFile (leaf ++ [str "cgroup.procs"]) (itoa pid) with
    | .error e => do
        kill
        return .error (.move e)
    | .ok _ => do
        releaseHog
        orFail wait .hog fun _ => verifyPeak cpuActive leaf

/-- What `Manager.verifyEnforcement` does between making the probe's directory and the
deferred removal of it. -/
def enforcementCheck (cpuActive : Bool) (probeDir : Path) : Prog (Except ProbeErr Bool) :=
  let leaf := probeDir ++ [str "leaf"]
  let subtree := str "+memory +pids" ++ if cpuActive then str " +cpu" else []
  orFail (writeFile (subtreeControl probeDir) subtree) .controllers fun _ =>
  orFail (mkdir leaf) .leaf fun _ =>
  orFail (writeFile (leaf ++ [str "memory.max"]) (str "536870912")) .memoryMax fun _ =>
  orFail (writeFile (leaf ++ [str "memory.swap.max"]) (str "0")) .swapMax fun _ =>
  runHog cpuActive leaf

def removeProbe (fuel : ℕ) (probeDir : Path) : Prog Unit := do
  let _ ← removeJailDir fuel (probeDir ++ [str "leaf"])
  let _ ← removeJailDir fuel probeDir

/-- `Manager.verifyEnforcement`, with the cpu verdict it leaves. -/
def verifyEnforcement (fuel : ℕ) (base : Path) (cpuActive : Bool) :
    Prog (Except ProbeErr Bool) := do
  let probeDir := base ++ [str "probe"]
  removeProbe fuel probeDir
  orFail (mkdir probeDir) .probeDir fun _ => do
    let r ← enforcementCheck cpuActive probeDir
    removeProbe fuel probeDir
    return r

/-- The controllers of the delegation point: with cpu if that can be, and whether it could. -/
def enableControllers (base : Path) : Prog (Except ProbeErr Bool) := do
  match ← writeFile (subtreeControl base) (str "+memory +pids +cpu") with
  | .ok _ => return .ok true
  | .error _ =>
      orFail (writeFile (subtreeControl base) (str "+memory +pids")) .enable fun _ =>
        pure (.ok false)

/-- `Manager.probe`, with the cpu verdict. -/
def probe (fuel : ℕ) (base : Path) : Prog (Except ProbeErr Bool) :=
  orFail statfs .statfs fun fsType => do
    if fsType ≠ cgroup2Magic then return .error (.notCgroup2 fsType)
    orFail (mkdirAll base) .base fun _ => do
      match ← enableControllers base with
      | .error e => return .error e
      | .ok cpuActive => verifyEnforcement fuel base cpuActive

/-- The manager over the hierarchy mounted at `root`. What the probe fails with is logged. -/
def NewManager (fuel : ℕ) (root : GoString) : Prog Manager := do
  let base : GoString := pathJoin [root, baseName]
  if (← getenv (str "GOBOXD_CGROUPV2")) = str "off" then
    return ⟨base, false, false⟩
  match ← probe fuel [baseName] with
  | .error _ => return ⟨base, false, false⟩
  | .ok cpuActive => do
      Sweep fuel [baseName]
      return ⟨base, true, cpuActive⟩

end Goboxd.Cgroupv2
