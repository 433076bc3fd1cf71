import Goboxd.Runner.OomPoll

/-!
# The kill counter over the execs of a jail

One jail is used by several execs, one after the other, and its cgroup directory
is shared by all of them: leaves of earlier execs may still be there, with what
they counted, and may go at any time. Each exec takes the sum over the leaves
before it starts and compares with it afterwards, at every tick of its poller and
once more after `Wait`.

A scan is not one step here. It lists the directory and then reads the leaves one
by one, while the kernel counts and leaves come and go. A leaf that is gone when
its turn comes is passed over; a leaf that is there is read. Listing the
directory may fail, for any reason.
-/

namespace Goboxd.Runner

open Go Cgroupv2

/-- Where a call of `OOMKills` is. -/
inductive Scan where
  | opened
  | reading (todo : List GoString) (got : List (GoString × Option MemoryEvents))
  /-- `os.ReadDir` returned an error. -/
  | missing
deriving DecidableEq, Repr

inductive ScanAct where
  | list
  | listFails
  | read
deriving DecidableEq, Repr

abbrev Leaves := List (GoString × MemoryEvents)

def scanStep (leaves : Leaves) : Scan → ScanAct → Option Scan
  | .opened, .list => some (.reading (leaves.map Prod.fst) [])
  | .opened, .listFails => some .missing
  | .reading (name :: todo) got, .read =>
      some (.reading todo (got ++ [(name, leaves.lookup name)]))
  | _, _ => none

/-- What the scan has read so far. -/
def Scan.got : Scan → List (GoString × Option MemoryEvents)
  | .reading _ got => got
  | _ => []

def Scan.finished : Scan → Bool
  | .opened => false
  | .reading todo _ => todo = []
  | .missing => true

/-- What a finished scan has seen of the directory. -/
def Scan.dir (files : Dir) : Scan → Dir
  | .opened | .missing => { files with entries := none }
  | .reading _ got =>
      { files with entries := some (got.map fun o => (o.1, o.2.map shownEvents)) }

/-- Where the jail's current exec is. `done` carries the outcome's `OOMKilled`
and, for the specification, whether a kill was counted since its baseline. -/
inductive ExecStage where
  | idle
  | baseline (scan : Scan)
  | running
  | waited
  | checking (scan : Scan)
  | done (oomKilled killed : Bool)
deriving DecidableEq, Repr

/-- `base` is the finished scan of the current exec's baseline, and `killed`
tells whether the kernel counted a kill in a leaf since that scan began. -/
structure JailOom where
  leaves : Leaves
  killed : Bool
  stage : ExecStage
  base : Scan
  flag : Bool
  poller : Option Scan
deriving DecidableEq, Repr

inductive JailOomAct where
  | create (name : GoString)
  /-- The kernel changes the counters of a leaf. -/
  | count (name : GoString) (events : MemoryEvents)
  | remove (name : GoString)
  /-- The next exec begins with its baseline. -/
  | begin
  | scan (a : ScanAct)
  | start
  | startFails
  | tick
  | pollScan (a : ScanAct)
  | store
  | wait
  | readFlag
  | finalCheck
deriving DecidableEq, Repr

/-- There is no exec, or the last one has returned. -/
def ExecStage.free : ExecStage → Bool
  | .idle | .done _ _ => true
  | _ => false

/-- `startJailPoller` was called and its goroutine may still be there. -/
def ExecStage.polled : ExecStage → Bool
  | .idle | .baseline _ => false
  | _ => true

def setEvents (leaves : Leaves) (name : GoString) (events : MemoryEvents) : Leaves :=
  leaves.map fun l => if l.1 = name then (name, events) else l

def removeLeaf (leaves : Leaves) (name : GoString) : Leaves :=
  leaves.filter fun l => l.1 ≠ name

def JailOom.setStage (s : JailOom) (stage : ExecStage) : JailOom :=
  { s with stage := stage }

def JailOom.setLeaves (s : JailOom) (leaves : Leaves) : JailOom :=
  { s with leaves := leaves }

def JailOom.setPoller (s : JailOom) (poller : Option Scan) : JailOom :=
  { s with poller := poller }

/-- `oomBaseline`, of the scan made for it. -/
def JailOom.oomBase (cg : Cgroupv2.Jail) (files : Dir) (s : JailOom) : Nat :=
  oomBaseline (some cg) (s.base.dir files)

/-- `OOMKillsSince`, of a finished scan. -/
def JailOom.since (cg : Cgroupv2.Jail) (files : Dir) (s : JailOom) (scan : Scan) : Bool :=
  oomSince (scan.dir files) (s.oomBase cg files)

/-- The counters of a leaf change. They are read back as long as the one for
kills does not decrease, which it would by wrapping around. -/
def JailOom.count (s : JailOom) (name : GoString) (old events : MemoryEvents) :
    JailOom :=
  { s with
    leaves := setEvents s.leaves name events
    killed := s.killed || decide (old.oomKill < events.oomKill) }

def jailOomStep (cg : Cgroupv2.Jail) (files : Dir) (s : JailOom) :
    JailOomAct → Option JailOom
  | .create name =>
      if hasPrefix name (str "NSJAIL.") = true ∧ name ∉ s.leaves.map Prod.fst then
        some (s.setLeaves ((name, noEvents) :: s.leaves))
      else none
  | .count name events =>
      match s.leaves.lookup name with
      | some old =>
          if old.oomKill ≤ events.oomKill ∧ events.oomKill < 2 ^ 64 then
            some (s.count name old events)
          else none
      | none => none
  | .remove name => some (s.setLeaves (removeLeaf s.leaves name))
  | .begin =>
      -- `execJail` returns only when its poller is gone
      if s.stage.free = true ∧ s.poller = none then
        some { s with killed := false, stage := .baseline .opened }
      else none
  | .scan a =>
      match s.stage with
      | .baseline scan => (scanStep s.leaves scan a).map fun scan =>
          s.setStage (.baseline scan)
      | .checking scan => (scanStep s.leaves scan a).map fun scan =>
          s.setStage (.checking scan)
      | _ => none
  | .start =>
      match s.stage with
      | .baseline scan =>
          if scan.finished then
            some { s with stage := .running, base := scan, flag := false }
          else none
      | _ => none
  | .startFails =>
      match s.stage with
      | .baseline scan => if scan.finished then some (s.setStage .idle) else none
      | _ => none
  | .tick =>
      if s.stage.polled = true ∧ s.poller = none then some (s.setPoller (some .opened))
      else none
  | .pollScan a =>
      s.poller.bind fun scan =>
        (scanStep s.leaves scan a).map fun scan => s.setPoller (some scan)
  | .store =>
      s.poller.bind fun scan =>
        if scan.finished then
          some { s with flag := s.flag || s.since cg files scan, poller := none }
        else none
  | .wait => if s.stage = .running then some (s.setStage .waited) else none
  | .readFlag =>
      if s.stage = .waited then
        some (s.setStage (if s.flag then .done true s.killed else .checking .opened))
      else none
  | .finalCheck =>
      match s.stage with
      | .checking scan =>
          if scan.finished then
            some (s.setStage (.done (s.since cg files scan) s.killed))
          else none
      | _ => none

def newJailOom : JailOom where
  leaves := []
  killed := false
  stage := .idle
  base := .missing
  flag := false
  poller := none

/-- The kill counter of a jail, from its cgroup's making on. -/
def jailOom (cg : Cgroupv2.Jail) (files : Dir) : Machine JailOom JailOomAct where
  init s := s = newJailOom
  step := jailOomStep cg files

/-! ## What a step can be -/

inductive JailOomMove (cg : Cgroupv2.Jail) (files : Dir) (s : JailOom) :
    JailOomAct → JailOom → Prop where
  | create {name : GoString} (hname : hasPrefix name (str "NSJAIL.") = true)
      (hnew : name ∉ s.leaves.map Prod.fst) :
      JailOomMove cg files s (.create name) (s.setLeaves ((name, noEvents) :: s.leaves))
  | count {name : GoString} {old events : MemoryEvents}
      (hold : s.leaves.lookup name = some old) (hle : old.oomKill ≤ events.oomKill)
      (hlt : events.oomKill < 2 ^ 64) :
      JailOomMove cg files s (.count name events) (s.count name old events)
  | remove {name : GoString} :
      JailOomMove cg files s (.remove name) (s.setLeaves (removeLeaf s.leaves name))
  | begin (hfree : s.stage.free = true) (hpoller : s.poller = none) :
      JailOomMove cg files s .begin { s with killed := false, stage := .baseline .opened }
  | baseScan {a : ScanAct} {scan scan' : Scan} (hs : s.stage = .baseline scan)
      (hscan : scanStep s.leaves scan a = some scan') :
      JailOomMove cg files s (.scan a) (s.setStage (.baseline scan'))
  | checkScan {a : ScanAct} {scan scan' : Scan} (hs : s.stage = .checking scan)
      (hscan : scanStep s.leaves scan a = some scan') :
      JailOomMove cg files s (.scan a) (s.setStage (.checking scan'))
  | start {scan : Scan} (hs : s.stage = .baseline scan) (hfin : scan.finished = true) :
      JailOomMove cg files s .start { s with stage := .running, base := scan, flag := false }
  | startFails {scan : Scan} (hs : s.stage = .baseline scan)
      (hfin : scan.finished = true) :
      JailOomMove cg files s .startFails (s.setStage .idle)
  | tick (hs : s.stage.polled = true) (hpoller : s.poller = none) :
      JailOomMove cg files s .tick (s.setPoller (some .opened))
  | pollScan {a : ScanAct} {scan scan' : Scan} (hpoller : s.poller = some scan)
      (hscan : scanStep s.leaves scan a = some scan') :
      JailOomMove cg files s (.pollScan a) (s.setPoller (some scan'))
  | store {scan : Scan} (hpoller : s.poller = some scan) (hfin : scan.finished = true) :
      JailOomMove cg files s .store
        { s with flag := s.flag || s.since cg files scan, poller := none }
  | wait (hs : s.stage = .running) : JailOomMove cg files s .wait (s.setStage .waited)
  | flagSet (hs : s.stage = .waited) (hf : s.flag = true) :
      JailOomMove cg files s .readFlag (s.setStage (.done true s.killed))
  | flagUnset (hs : s.stage = .waited) (hf : s.flag = false) :
      JailOomMove cg files s .readFlag (s.setStage (.checking .opened))
  | finalCheck {scan : Scan} (hs : s.stage = .checking scan)
      (hfin : scan.finished = true) :
      JailOomMove cg files s .finalCheck
        (s.setStage (.done (s.since cg files scan) s.killed))

theorem jailOom_move {cg : Cgroupv2.Jail} {files : Dir} {s t : JailOom}
    {a : JailOomAct} (h : (jailOom cg files).step s a = some t) :
    JailOomMove cg files s a t := by
  change jailOomStep cg files s a = some t at h
  cases a with
  | create name =>
      rw [jailOomStep] at h
      split at h
      · next hg => cases h; exact .create hg.1 hg.2
      · cases h
  | count name events =>
      rw [jailOomStep] at h
      split at h
      · next hold =>
          split at h
          · next hg => cases h; exact .count hold hg.1 hg.2
          · cases h
      · cases h
  | remove name => cases h; exact .remove
  | begin =>
      rw [jailOomStep] at h
      split at h
      · next hg => cases h; exact .begin hg.1 hg.2
      · cases h
  | scan a =>
      rw [jailOomStep] at h
      split at h
      · next hs =>
          obtain ⟨scan', hscan, rfl⟩ := Option.map_eq_some_iff.mp h
          exact .baseScan hs hscan
      · next hs =>
          obtain ⟨scan', hscan, rfl⟩ := Option.map_eq_some_iff.mp h
          exact .checkScan hs hscan
      · cases h
  | start =>
      rw [jailOomStep] at h
      split at h
      · next hs =>
          split at h
          · next hfin => cases h; exact .start hs hfin
          · cases h
      · cases h
  | startFails =>
      rw [jailOomStep] at h
      split at h
      · next hs =>
          split at h
          · next hfin => cases h; exact .startFails hs hfin
          · cases h
      · cases h
  | tick =>
      rw [jailOomStep] at h
      split at h
      · next hg => cases h; exact .tick hg.1 hg.2
      · cases h
  | pollScan a =>
      rw [jailOomStep] at h
      obtain ⟨scan, hpoller, h⟩ := Option.bind_eq_some_iff.mp h
      obtain ⟨scan', hscan, rfl⟩ := Option.map_eq_some_iff.mp h
      exact .pollScan hpoller hscan
  | store =>
      rw [jailOomStep] at h
      obtain ⟨scan, hpoller, h⟩ := Option.bind_eq_some_iff.mp h
      split at h
      · next hfin => cases h; exact .store hpoller hfin
      · cases h
  | wait =>
      rw [jailOomStep] at h
      split at h
      · next hs => cases h; exact .wait hs
      · cases h
  | readFlag =>
      rw [jailOomStep] at h
      split at h
      · next hs =>
          cases h
          cases hf : s.flag with
          | true => exact .flagSet hs hf
          | false => exact .flagUnset hs hf
      · cases h
  | finalCheck =>
      rw [jailOomStep] at h
      split at h
      · next hs =>
          split at h
          · next hfin => cases h; exact .finalCheck hs hfin
          · cases h
      · cases h

end Goboxd.Runner
