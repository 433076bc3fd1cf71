import Goboxd.Runner.Args
import Goboxd.Runner.Status

/-!
# One exec

`execJail` and its two callers, `runBuild` and `runSingleTest`, as functions of
what the system answers. An `ExecWorld` holds those answers: the failure of
each operation, the counters read before and after, and what the started
process does with its command line and its input. How the poller, the pipes
and the child interleave is the business of the machines in the modules on
polling and on pipes; here stands what is made of the facts they leave behind.
-/

namespace Goboxd.Runner

open Go Models Config

/-! ## Reading a stream -/

/-- What a shortened stream ends with. -/
def truncationMarker : GoString := str "\n... [output truncated]"

/-- The number of bytes `readCapped` reads at most: the `int64` of
`io.LimitReader`, which stops at once when it is not positive. -/
def readBudget (limit : Int) : Nat := (wrap (limit + 1)).toNat

/-- The end of `readCapped`: what was read, shortened when it is over the
limit. -/
def truncateRead (raw : GoString) (limit : Int) : GoString :=
  if raw.length > limit then raw.take limit.toNat ++ truncationMarker else raw

/-- `readCapped`, of a reader that delivers `stream` before it ends. -/
def readCapped (stream : GoString) (limit : Int) : GoString :=
  truncateRead (stream.take (readBudget limit)) limit

/-! ## Counters around an exec -/

structure Timeval where
  sec : Int
  usec : Int
deriving DecidableEq, Repr

def timevalUS (tv : Timeval) : Int := wrap (tv.sec * 1000000 + tv.usec)

structure Rusage where
  utime : Timeval
  stime : Timeval
  maxrss : Int
deriving DecidableEq, Repr

/-- The fields of a materialized jail. -/
structure JailFields where
  dir : GoString
  uid : Int
  cg : Option Cgroupv2.Jail
  seccomp : GoString
deriving DecidableEq, Repr

def JailFields.appDir (j : JailFields) : GoString := j.dir ++ str "/app"

/-- The cgroup of a new jail: none when the manager is inactive or the setup
failed. -/
def newJailCg (m : Cgroupv2.Manager) (fs : Cgroupv2.CgroupFs) (id : GoString) :
    Option Cgroupv2.Jail :=
  if m.active then
    match m.NewJail fs id with
    | .ok cg => some cg
    | .error _ => none
  else none

/-- The kill count before `Start`, zero when it cannot be read. -/
def oomBaseline (jailCg : Option Cgroupv2.Jail) (d : Cgroupv2.Dir) : Nat :=
  match jailCg with
  | none => 0
  | some _ =>
      match Cgroupv2.OOMKills d with
      | .ok n => n
      | .error _ => 0

/-- The cpu usage before `Start`, and whether it could be read. -/
def cpuBaseline (jailCg : Option Cgroupv2.Jail) (d : Cgroupv2.Dir) : Int × Bool :=
  match jailCg with
  | none => (0, false)
  | some j =>
      if j.CPUActive then
        match j.CPUUsageUS d with
        | .ok us => (us, true)
        | .error _ => (0, false)
      else (0, false)

/-- `int64(lim.cpuLimit) * 1e6`. -/
def cpuLimitUS (cpuLimit : Int) : Int := wrap (cpuLimit * 1000000)

/-- The exec's cpu time in microseconds. -/
def cpuTimeUS (jailCg : Option Cgroupv2.Jail) (d : Cgroupv2.Dir)
    (baselineUS : Int) (baselineOK : Bool) (before after : Rusage) : Int :=
  let rusage :=
    let b := wrap (timevalUS before.utime + timevalUS before.stime)
    let a := wrap (timevalUS after.utime + timevalUS after.stime)
    if a ≥ b then wrap (a - b) else 0
  match jailCg with
  | none => rusage
  | some j =>
      if j.CPUActive && baselineOK then
        match j.CPUUsageUS d with
        | .ok final =>
            if final ≥ baselineUS then wrap (final - baselineUS) else rusage
        | .error _ => rusage
      else rusage

/-! ## What a tick of the poller sees -/

/-- The check for an OOM kill, also the one made after `Wait`. -/
def oomSince (d : Cgroupv2.Dir) (oomBase : Nat) : Bool :=
  match Cgroupv2.OOMKillsSince d oomBase with
  | .ok since => since
  | .error _ => false

/-- The check of the cpu usage: whether this tick kills. -/
def cpuExceeded (j : Cgroupv2.Jail) (d : Cgroupv2.Dir)
    (limitUS baselineUS : Int) (baselineOK : Bool) : Bool :=
  if limitUS ≤ 0 ∨ baselineOK = false then false
  else
    match j.CPUUsageUS d with
    | .ok us => !decide (wrap (us - baselineUS) < limitUS)
    | .error _ => false

/-! ## `execJail` -/

/-- What the started process did, up to `Wait`: its two streams, what the
poller had stored by then, the error and the state of `Wait`, and the counters
read afterwards. -/
structure ExecRun where
  stdout : GoString
  stderr : GoString
  isOOMKill : Bool
  isCPUKill : Bool
  wait : Option GoString
  ps : Option WaitStatus
  dirAfter : Cgroupv2.Dir
  rusageAfter : Rusage

/-- The answers of the system during one `execJail`. -/
structure ExecWorld where
  host : Host
  mkdirApp : Option GoString
  stdoutPipe : Option GoString
  stderrPipe : Option GoString
  dirBefore : Cgroupv2.Dir
  rusageBefore : Rusage
  start : List GoString → Option GoString
  run : List GoString → GoString → ExecRun

structure ExecOutcome where
  stdout : GoString
  stderr : GoString
  oomKilled : Bool
  cpuKilled : Bool
  cpuTimeUS : Int
  exitCode : Int
  termSignal : Int
  infra : Bool
  err : Option GoString
  ps : Option WaitStatus
deriving DecidableEq, Repr

/-- An outcome of an exec that never started. -/
def ExecOutcome.early (msg : String) (err : GoString) (infra : Bool) :
    ExecOutcome where
  stdout := []
  stderr := []
  oomKilled := false
  cpuKilled := false
  cpuTimeUS := 0
  exitCode := 0
  termSignal := 0
  infra := infra
  err := some (str msg ++ str ": " ++ err)
  ps := none

/-- `execJail` up to `Start`: the command line that was started. -/
def execStart (w : ExecWorld) (j : JailFields) (cmdArgs : List GoString)
    (lim : ExecLimits) : Except ExecOutcome (List GoString) :=
  match w.mkdirApp with
  | some err => .error (.early "app dir" err false)
  | none =>
      match nsjailArgs w.host j.appDir lim j.uid j.cg j.seccomp with
      | .error err => .error (.early "start" err true)
      | .ok args =>
          let args := args ++ cmdArgs
          match w.stdoutPipe with
          | some err => .error (.early "stdout pipe" err true)
          | none =>
              match w.stderrPipe with
              | some err => .error (.early "stderr pipe" err true)
              | none =>
                  match w.start args with
                  | some err => .error (.early "start" err true)
                  | none => .ok args

/-- `execJail` after `Start`. -/
def execFinish (w : ExecWorld) (j : JailFields) (outputCap : Int)
    (r : ExecRun) : ExecOutcome :=
  let baseline := cpuBaseline j.cg w.dirBefore
  let oomBase := oomBaseline j.cg w.dirBefore
  let facts := exitFacts r.ps
  { stdout := readCapped r.stdout outputCap
    stderr := readCapped r.stderr outputCap
    oomKilled := r.isOOMKill || (j.cg.isSome && oomSince r.dirAfter oomBase)
    cpuKilled := r.isCPUKill
    cpuTimeUS :=
      cpuTimeUS j.cg r.dirAfter baseline.1 baseline.2 w.rusageBefore r.rusageAfter
    exitCode := facts.1
    termSignal := facts.2
    infra := false
    err := r.wait
    ps := r.ps }

def execJail (w : ExecWorld) (j : JailFields) (cmdArgs : List GoString)
    (lim : ExecLimits) (stdin : GoString) (outputCap : Int) : ExecOutcome :=
  match execStart w j cmdArgs lim with
  | .error outcome => outcome
  | .ok args => execFinish w j outputCap (w.run args stdin)

/-! ## The build and the tests -/

structure BuildWorld where
  exec : ExecWorld
  ctxAfter : Option CtxErr

/-- The end of `runBuild`: what it makes of the outcome of its exec. -/
def buildVerdict (ctxErr : Option CtxErr) (outcome : ExecOutcome) :
    BuildResult × Option GoString :=
  let res : BuildResult :=
    { status := .ok
      stdout := outcome.stdout
      stderr := outcome.stderr
      durationMs := 0
      cpuTimeMs := Int.tdiv outcome.cpuTimeUS 1000 }
  let timedOut : BuildResult :=
    { res with
      stderr := res.stderr ++ str "\n... [build timed out]", status := .failed }
  match outcome.err with
  | some err =>
      if ctxErr = some .deadlineExceeded then (timedOut, none)
      else if outcome.infra then ({ res with status := .internalError }, some err)
      else ({ res with status := .failed }, none)
  | none =>
      if ctxErr = some .deadlineExceeded then (timedOut, none) else (res, none)

/-- `runBuild`: the result and the error it returns. -/
def runBuild (w : BuildWorld) (j : JailFields) (req : RunRequest)
    (lc : LanguageConfig) : BuildResult × Option GoString :=
  buildVerdict w.ctxAfter
    (execJail w.exec j (buildCmdArgs req lc) (stageLimits lc.buildLimits req.build)
      [] (outputCap req))

structure TestWorld where
  ctxBefore : Option CtxErr
  exec : ExecWorld
  ctxAfter : Option CtxErr
  durationMs : Int
  peakDir : Cgroupv2.Dir
  rusage : Option Rusage

/-- The process-wide peak, of `getrusage`. -/
def readMemoryPeakKB (ru : Option Rusage) : Int :=
  match ru with
  | some ru => if ru.maxrss > 0 then ru.maxrss else 0
  | none => 0

def failResult (status : ResultStatus) (stderr : GoString) (durationMs : Int) :
    TestResult :=
  { TestResult.zero with status := status, stderr := stderr, durationMs := durationMs }

def testOutcome (w : TestWorld) (tc : TestCase) (lc : LanguageConfig)
    (j : JailFields) (req : RunRequest) : ExecOutcome :=
  execJail w.exec j (runCmdArgs req lc) (stageLimits lc.runLimits req.run)
    tc.stdin (outputCap req)

def runSingleTest (w : TestWorld) (tc : TestCase) (lc : LanguageConfig)
    (j : JailFields) (req : RunRequest) : TestResult :=
  if w.ctxBefore ≠ none then failResult .cancelled [] w.durationMs
  else
    let outcome := testOutcome w tc lc j req
    if outcome.infra then
      { TestResult.zero with
        status := .internalError
        stdout := outcome.stdout
        stderr :=
          if outcome.stderr = [] then outcome.err.getD [] else outcome.stderr
        durationMs := w.durationMs }
    else
      { status :=
          computeTestStatus w.ctxAfter outcome.err outcome.stdout
            tc.expectedStdout outcome.ps outcome.oomKilled
            { limitUS := cpuLimitUS (stageLimits lc.runLimits req.run).cpuLimit
              timeUS := outcome.cpuTimeUS
              killed := outcome.cpuKilled }
        stdout := outcome.stdout
        stderr := outcome.stderr
        durationMs := w.durationMs
        cpuTimeMs := Int.tdiv outcome.cpuTimeUS 1000
        memoryPeakKB :=
          if j.cg.isSome then Cgroupv2.PeakKB w.peakDir
          else readMemoryPeakKB w.rusage
        exitCode := outcome.exitCode
        terminationSignal := outcome.termSignal }

/-! ## What the start of an exec says of its outcome -/

theorem execJail_of_start {w : ExecWorld} {j : JailFields}
    {cmdArgs args : List GoString} {lim : ExecLimits} (stdin : GoString)
    (outputCap : Int) (h : execStart w j cmdArgs lim = .ok args) :
    execJail w j cmdArgs lim stdin outputCap =
      execFinish w j outputCap (w.run args stdin) := by
  rw [execJail, h]

theorem execStart_args {w : ExecWorld} {j : JailFields}
    {cmdArgs argv : List GoString} {lim : ExecLimits}
    (h : execStart w j cmdArgs lim = .ok argv) :
    ∃ args, nsjailArgs w.host j.appDir lim j.uid j.cg j.seccomp = .ok args ∧
      argv = args ++ cmdArgs := by
  unfold execStart at h
  split at h
  · cases h
  · split at h
    · cases h
    · next args hargs =>
        simp only [] at h
        split at h
        · cases h
        · split at h
          · cases h
          · split at h
            · cases h
            · cases h; exact ⟨args, hargs, rfl⟩

/-- An exec that did not start has an error and no wait status. -/
theorem execStart_error {w : ExecWorld} {j : JailFields}
    {cmdArgs : List GoString} {lim : ExecLimits} {outcome : ExecOutcome}
    (h : execStart w j cmdArgs lim = .error outcome) :
    ∃ msg err infra, outcome = .early msg err infra := by
  unfold execStart at h
  split at h
  · cases h; exact ⟨_, _, _, rfl⟩
  · split at h
    · cases h; exact ⟨_, _, _, rfl⟩
    · simp only [] at h
      split at h
      · cases h; exact ⟨_, _, _, rfl⟩
      · split at h
        · cases h; exact ⟨_, _, _, rfl⟩
        · split at h
          · cases h; exact ⟨_, _, _, rfl⟩
          · cases h

theorem runSingleTest_status {w : TestWorld} {tc : TestCase}
    {lc : LanguageConfig} {j : JailFields} {req : RunRequest}
    {args : List GoString} (hbefore : w.ctxBefore = none)
    (hstart : execStart w.exec j (runCmdArgs req lc)
      (stageLimits lc.runLimits req.run) = .ok args) :
    (runSingleTest w tc lc j req).status =
      computeTestStatus w.ctxAfter (w.exec.run args tc.stdin).wait
        (readCapped (w.exec.run args tc.stdin).stdout (outputCap req))
        tc.expectedStdout (w.exec.run args tc.stdin).ps
        (testOutcome w tc lc j req).oomKilled
        { limitUS := cpuLimitUS (stageLimits lc.runLimits req.run).cpuLimit
          timeUS := (testOutcome w tc lc j req).cpuTimeUS
          killed := (testOutcome w tc lc j req).cpuKilled } := by
  have hout : testOutcome w tc lc j req =
      execFinish w.exec j (outputCap req) (w.exec.run args tc.stdin) :=
    execJail_of_start tc.stdin (outputCap req) hstart
  rw [runSingleTest, if_neg (by simp [hbefore]), hout]
  rfl

end Goboxd.Runner
