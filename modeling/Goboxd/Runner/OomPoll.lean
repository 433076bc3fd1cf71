import Goboxd.Lib.Machine
import Goboxd.Runner.Exec

/-!
# Watching an exec for OOM kills

The part of `execJail` in which the kernel, nsjail, the poller and the parent
meet at one counter: the `oom_kill` of the leaf `NSJAIL.<pid>` that nsjail
makes for the exec. nsjail removes the leaf once its child is reaped, and with
the leaf goes the counter; an nsjail that is killed leaves it behind. The
poller reads the counter at every tick and stores what it found under a lock,
and the parent reads the stored flag after `Wait` and, when it is not set,
the counter once more.

A scan of the jail's directory reads the leaf's `memory.events` once, and the
leaves of earlier execs do not change while this one runs, so a scan is one
step.
-/

namespace Goboxd.Runner

open Go Cgroupv2

inductive Leaf where
  | absent
  | present
  | removed
deriving DecidableEq, Repr

/-- The poller: waiting for a tick, or with a kill found and not yet stored. -/
inductive PollerPc where
  | idle
  | found
deriving DecidableEq, Repr

/-- The parent: in `Wait`, before it reads the flag, before the final check,
returned with the outcome's `OOMKilled`. -/
inductive ExecPc where
  | running
  | waited
  | checking
  | done (oomKilled : Bool)
deriving DecidableEq, Repr

/-- `nsjail` and `child` tell whether nsjail and its child are there, and
`events` is what the kernel has counted in the leaf, also after the leaf is
removed. -/
structure OomState where
  nsjail : Bool
  child : Bool
  leaf : Leaf
  events : MemoryEvents
  isOOMKill : Bool
  poller : PollerPc
  pc : ExecPc
deriving DecidableEq, Repr

/-- What an exec finds in its jail: the cgroup, the name of its own leaf, what
else is in the cgroup's directory (with the counters of a leaf that can be
read), and the other files. -/
structure OomExec where
  cg : Cgroupv2.Jail
  pid : Int
  others : List (GoString × Option MemoryEvents)
  files : Dir

/-- The counters as the kernel shows them: they are `unsigned long`. -/
def shownEvents (e : MemoryEvents) : GoString :=
  MemoryEvents.text
    { low := e.low % 2 ^ 64
      high := e.high % 2 ^ 64
      max := e.max % 2 ^ 64
      oom := e.oom % 2 ^ 64
      oomKill := e.oomKill % 2 ^ 64
      oomGroupKill := e.oomGroupKill % 2 ^ 64 }

def leafName (pid : Int) : GoString := str "NSJAIL." ++ itoa pid

/-- What the directory holds besides the exec's own leaf. -/
def OomExec.otherEntries (x : OomExec) : List (GoString × Option GoString) :=
  x.others.map fun o => (o.1, o.2.map shownEvents)

/-- The directory as a scan finds it. Its order does not matter to a sum. -/
def OomExec.dir (x : OomExec) (leaf : Leaf) (e : MemoryEvents) : Dir :=
  match leaf with
  | .present =>
      { x.files with
        entries := some (x.otherEntries ++ [(leafName x.pid, some (shownEvents e))]) }
  | .absent | .removed => { x.files with entries := some x.otherEntries }

def noEvents : MemoryEvents := ⟨0, 0, 0, 0, 0, 0⟩

def OomExec.dirBefore (x : OomExec) : Dir := x.dir .absent noEvents

def OomExec.oomBase (x : OomExec) : Nat := oomBaseline (some x.cg) x.dirBefore

def OomExec.since (x : OomExec) (s : OomState) : Bool :=
  oomSince (x.dir s.leaf s.events) x.oomBase

def OomState.setPc (s : OomState) (pc : ExecPc) : OomState := { s with pc := pc }

def OomState.setPoller (s : OomState) (pc : PollerPc) : OomState :=
  { s with poller := pc }

def ExecPc.returned : ExecPc → Bool
  | .done _ => true
  | _ => false

end Goboxd.Runner
