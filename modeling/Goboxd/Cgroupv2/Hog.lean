import Goboxd.Cgroupv2.Calls

/-!
# The probe's hog, and the kernel that charges it

`ProbeHog` is a process of its own: it waits for a byte on its stdin, allocates, spins, and
is done. Memory is charged to the group that the process is in when it allocates, so what
the probe reads in the end depends on how the two processes' steps fall. The kernel is what
it mounts, which controllers it lets go, and which of them charge anything at all.

`probing` puts the two together, as the setting that the probe's calls run in. With faults
any call that can fail may fail, and the hog may be killed at any moment, as it is when the
probe's ten seconds are over.
-/

namespace Goboxd.Cgroupv2

open Go Cgroup Calls Hierarchy

/-- The buffer of `ProbeHog`. -/
def hogBytes : Nat := 16 * 1024 * 1024

/-- The host the server starts on. Neither of the two writes to a `cgroup.subtree_control`
need be allowed, and a controller that is enabled need not charge. -/
structure Kernel where
  /-- The value of `GOBOXD_CGROUPV2`. -/
  env : GoString
  fsType : Nat
  /-- `+memory +pids` may be enabled. -/
  delegated : Bool
  /-- `+cpu` may be enabled with them. -/
  cpuDelegated : Bool
  /-- There is a `memory.swap.max`. -/
  swap : Bool
  /-- The memory controller charges. -/
  charges : Bool
  /-- The cpu controller charges. -/
  cpuCharges : Bool
  pid : Nat
  /-- What the hog's process takes besides its buffer, in bytes. -/
  extra : Nat
  /-- The CPU time the hog gets in its two seconds, in microseconds. -/
  spun : Nat
  /-- The kernel's counters of the hog are `int64`s. -/
  counted : hogBytes + extra < 2 ^ 63 ∧ spun < 2 ^ 63

inductive HogPc where
  | absent
  /-- In `os.Stdin.Read`. -/
  | reading
  | allocating
  | spinning
  | exited
  | killed
deriving DecidableEq, Repr

structure Hog where
  pc : HogPc
  /-- It was moved into the probe's leaf. -/
  inLeaf : Bool
  /-- There is a byte on its stdin. -/
  input : Bool
  /-- Its stdin is closed at the other end. -/
  eof : Bool
deriving DecidableEq, Repr

def Hog.alive (g : Hog) : Bool := g.pc = .reading ∨ g.pc = .allocating ∨ g.pc = .spinning

/-- The hierarchy, the hog, and the leaf's `memory.peak` and `cpu.stat`. -/
structure Probed where
  tree : Hierarchy GoString
  hog : Hog
  peak : Nat
  usage : Nat

/-- Before the probe: no hog yet, and no leaf that anything was charged to. -/
def Probed.fresh (h : Hierarchy GoString) : Probed := ⟨h, ⟨.absent, false, false, false⟩, 0, 0⟩

def probeDir : Path := [baseName, str "probe"]

def probeLeaf : Path := probeDir ++ [str "leaf"]

/-- The hog is no more, and not in the leaf any more. -/
def Probed.without (s : Probed) (pc : HogPc) : Probed :=
  { s with
    hog := { s.hog with pc := pc }
    tree := if s.hog.inLeaf then s.tree.leave probeLeaf else s.tree }

/-- The steps of `ProbeHog`, on the kernel that runs it. -/
inductive HogStep (K : Kernel) (s : Probed) : Probed → Prop
  | read (hpc : s.hog.pc = .reading) (hin : s.hog.input = true) :
      HogStep K s { s with hog := { s.hog with pc := .allocating } }
  | eof (hpc : s.hog.pc = .reading) (hin : s.hog.input = false) (heof : s.hog.eof = true) :
      HogStep K s (s.without .exited)
  | allocate (hpc : s.hog.pc = .allocating) :
      HogStep K s
        { s with
          hog := { s.hog with pc := .spinning }
          peak := if s.hog.inLeaf && K.charges then hogBytes + K.extra else s.peak }
  | spin (hpc : s.hog.pc = .spinning) :
      HogStep K s
        (Probed.without
          { s with usage := if s.hog.inLeaf && K.cpuCharges then K.spun else s.usage } .exited)

/-! ## What the calls of the probe do -/

/-- What writing a `cgroup.subtree_control` comes to. -/
def Kernel.enables (K : Kernel) (text : GoString) : Bool :=
  (text = str "+memory +pids" && K.delegated) ||
    (text = str "+memory +pids +cpu" && K.delegated && K.cpuDelegated)

/-- Whether the file of a group takes a text. -/
def Probed.takesAs (K : Kernel) (s : Probed) (dir : Path) (file text : GoString) : Bool :=
  if file = str "cgroup.subtree_control" then K.enables text
  else if file = str "memory.max" then true
  else if file = str "memory.swap.max" then K.swap
  else if file = str "cgroup.procs" then
    dir = probeLeaf && text = itoa K.pid && s.hog.alive
  else false

def Probed.takes (K : Kernel) (s : Probed) (path : Path) (text : GoString) : Bool :=
  match path.getLast? with
  | none => false
  | some file => path.dropLast ∈ s.tree.groups && s.takesAs K path.dropLast file text

/-- What a write leaves: in a `cgroup.procs` the hog is moved. -/
def Probed.write (s : Probed) (path : Path) : Probed :=
  if path = probeLeaf ++ [str "cgroup.procs"] then
    { s with
      hog := { s.hog with inLeaf := true }
      tree :=
        if hp : probeLeaf ∈ s.tree.groups then s.tree.enter probeLeaf hp else s.tree }
  else s

/-- The text of the leaf's counters, as the kernel shows them. -/
def Probed.read (s : Probed) (path : Path) : Except Errno GoString :=
  if probeLeaf ∉ s.tree.groups then .error .ENOENT
  else if path = probeLeaf ++ [str "memory.peak"] then .ok (itoa s.peak ++ [10])
  else if path = probeLeaf ++ [str "cpu.stat"] then
    .ok (counterFile [(str "usage_usec", s.usage)])
  else .error .ENOENT

/-- The hierarchy after `os.Mkdir`. A new leaf's counters are zero. -/
def Probed.make (s : Probed) (path : Path) : Except Errno Probed :=
  match s.tree.mkdir path with
  | .error e => .error e
  | .ok h =>
      .ok
        { s with
          tree := h
          peak := if path = probeLeaf then 0 else s.peak
          usage := if path = probeLeaf then 0 else s.usage }

/-- `os.MkdirAll` of a directory just below the mount. -/
def Probed.makeAll (s : Probed) (path : Path) : Except Errno Probed :=
  if path ∈ s.tree.groups then .ok s else s.make path

/-- A call that gives a new state or an error. -/
def Does (s : Probed) (r : Except Errno Probed) (x : Except Errno Unit) (t : Probed) : Prop :=
  match r with
  | .ok u => x = .ok () ∧ t = u
  | .error e => x = .error e ∧ t = s

/-- What each call does, on a kernel on which nothing fails without a reason. -/
def Kernel.act (K : Kernel) : (c : Call) → Probed → Answer c → Probed → Prop
  | .getenv _, s, x, t => x = K.env ∧ t = s
  | .statfs, s, x, t => x = .ok K.fsType ∧ t = s
  | .mkdirAll path, s, x, t => Does s (s.makeAll path) x t
  | .mkdir path, s, x, t => Does s (s.make path) x t
  | .readDir path, s, x, t => s.tree.Listing path x ∧ t = s
  | .remove path, s, x, t =>
      s.tree.Removal path x t.tree ∧ t.hog = s.hog ∧ t.peak = s.peak ∧ t.usage = s.usage
  | .writeFile path text, s, x, t =>
      Does s (if s.takes K path text then .ok (s.write path) else .error .ENOENT) x t
  | .readFile path, s, x, t => x = s.read path ∧ t = s
  | .stdinPipe, s, x, t => x = .ok () ∧ t = s
  | .start, s, x, t => x = .ok K.pid ∧ t = { s with hog := ⟨.reading, false, false, false⟩ }
  | .writeStdin _, s, x, t =>
      Does s (if s.hog.alive then .ok { s with hog := { s.hog with input := true } }
        else .error (.other 32)) x t
  | .closeStdin, s, x, t => x = .ok () ∧ t = { s with hog := { s.hog with eof := true } }
  | .kill, s, _, t => t = if s.hog.alive then s.without .killed else s
  | .wait, s, x, t =>
      (s.hog.pc = .exited ∧ x = .ok () ∨ s.hog.pc = .killed ∧ ∃ e, x = .error e) ∧ t = s
  | .sleep, s, _, t => t = s

/-- A call that can fail failed, and nothing came of it. -/
def Failed : (c : Call) → Answer c → Prop
  | .statfs, x => ∃ e, x = .error e
  | .mkdirAll _, x | .mkdir _, x | .remove _, x | .writeFile _ _, x => ∃ e, x = .error e
  | .readDir _, x => ∃ e, x = .error e
  | .readFile _, x => ∃ e, x = .error e
  | .stdinPipe, x | .writeStdin _, x | .closeStdin, x | .wait, x => ∃ e, x = .error e
  | .start, x => ∃ e, x = .error e
  | .getenv _, _ | .kill, _ | .sleep, _ => False

/-- What the probe runs in. -/
def probing (K : Kernel) (faults : Bool) : Setting Call Answer Probed where
  others s t :=
    HogStep K s t ∨ (faults = true ∧ s.hog.alive = true ∧ t = s.without .killed)
  act c s x t := K.act c s x t ∨ (faults = true ∧ Failed c x ∧ t = s)

end Goboxd.Cgroupv2
