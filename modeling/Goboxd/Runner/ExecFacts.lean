import Goboxd.Runner.Exec

/-!
# The facts of an exec

What an exec leaves behind, apart from the time it took: its streams, the kills,
how it ended, and whether it ran into its deadline or its cpu limit. The status
of a test, its streams and its exit facts are made of these alone, and so is the
answer whether a build succeeded; the measured times go into other fields of a
result.
-/

namespace Goboxd.Runner

open Go Models Config

structure ExecFacts where
  stdout : GoString
  stderr : GoString
  oomKilled : Bool
  cpuKilled : Bool
  /-- The cpu time that was measured is not below the limit. -/
  cpuReached : Bool
  exitCode : Int
  termSignal : Int
  infra : Bool
  err : Option GoString
  ps : Option WaitStatus
  ctxErr : Option CtxErr
deriving DecidableEq, Repr

/-- `ctxErr` is what the exec's context answers afterwards. -/
def ExecOutcome.facts (o : ExecOutcome) (lim : ExecLimits) (ctxErr : Option CtxErr) :
    ExecFacts where
  stdout := o.stdout
  stderr := o.stderr
  oomKilled := o.oomKilled
  cpuKilled := o.cpuKilled
  cpuReached := o.cpuTimeUS ≥ cpuLimitUS lim.cpuLimit
  exitCode := o.exitCode
  termSignal := o.termSignal
  infra := o.infra
  err := o.err
  ps := o.ps
  ctxErr := ctxErr

def BuildWorld.facts (w : BuildWorld) (j : JailFields) (req : RunRequest)
    (lc : LanguageConfig) : ExecFacts :=
  (execJail w.exec j (buildCmdArgs req lc) (stageLimits lc.buildLimits req.build) []
    (outputCap req)).facts (stageLimits lc.buildLimits req.build) w.ctxAfter

def TestWorld.facts (w : TestWorld) (tc : TestCase) (lc : LanguageConfig)
    (j : JailFields) (req : RunRequest) : ExecFacts :=
  (testOutcome w tc lc j req).facts (stageLimits lc.runLimits req.run) w.ctxAfter

/-- The build succeeded. -/
def ExecFacts.built (f : ExecFacts) : Bool :=
  f.err = none ∧ f.ctxErr ≠ some .deadlineExceeded

/-- What a test's result says of the program. -/
structure TestAnswer where
  status : ResultStatus
  stdout : GoString
  stderr : GoString
  exitCode : Int
  terminationSignal : Int
deriving DecidableEq, Repr

def TestResult.answer (r : TestResult) : TestAnswer where
  status := r.status
  stdout := r.stdout
  stderr := r.stderr
  exitCode := r.exitCode
  terminationSignal := r.terminationSignal

/-- A cpu time that is at the limit exactly when the measured one was. -/
def ExecFacts.cpuOutcome (f : ExecFacts) (lim : ExecLimits) : CpuOutcome where
  limitUS := cpuLimitUS lim.cpuLimit
  timeUS :=
    if f.cpuReached then cpuLimitUS lim.cpuLimit else cpuLimitUS lim.cpuLimit - 1
  killed := f.cpuKilled

/-- The answer that `runSingleTest` makes of the facts. -/
def ExecFacts.answer (f : ExecFacts) (lim : ExecLimits) (expected : GoString) :
    TestAnswer :=
  if f.infra then
    { status := .internalError
      stdout := f.stdout
      stderr := if f.stderr = [] then f.err.getD [] else f.stderr
      exitCode := 0
      terminationSignal := 0 }
  else
    { status :=
        computeTestStatus f.ctxErr f.err f.stdout expected f.ps f.oomKilled
          (f.cpuOutcome lim)
      stdout := f.stdout
      stderr := f.stderr
      exitCode := f.exitCode
      terminationSignal := f.termSignal }

/-! ## The facts are all that matters -/

/-- The measured time is compared with the limit, and not read otherwise. -/
theorem computeTestStatus_congr {ctxErr : Option CtxErr} {err : Option GoString}
    {stdout expected : GoString} {ps : Option WaitStatus} {oomKilled : Bool}
    {cpu cpu' : CpuOutcome} (hlimit : cpu.limitUS = cpu'.limitUS)
    (hkilled : cpu.killed = cpu'.killed)
    (htime : cpu.timeUS ≥ cpu.limitUS ↔ cpu'.timeUS ≥ cpu'.limitUS) :
    computeTestStatus ctxErr err stdout expected ps oomKilled cpu =
      computeTestStatus ctxErr err stdout expected ps oomKilled cpu' := by
  have herr : ∀ e, errorStatus e ps cpu = errorStatus e ps cpu' := by
    intro e
    rw [hlimit] at htime
    rw [errorStatus, errorStatus, hlimit]
    simp only [htime]
  unfold computeTestStatus
  simp only [hkilled, herr]

theorem cpuOutcome_reached (f : ExecFacts) (lim : ExecLimits) :
    (f.cpuOutcome lim).timeUS ≥ (f.cpuOutcome lim).limitUS ↔ f.cpuReached = true := by
  unfold ExecFacts.cpuOutcome
  cases f.cpuReached with
  | true => simp
  | false =>
      simp only [Bool.false_eq_true, if_false, iff_false]
      omega

/-- Of a test that a live context lets start, the answer is the one of its
facts. -/
theorem runSingleTest_answer {w : TestWorld} (hbefore : w.ctxBefore = none)
    (tc : TestCase) (lc : LanguageConfig) (j : JailFields) (req : RunRequest) :
    TestResult.answer (runSingleTest w tc lc j req) =
      (w.facts tc lc j req).answer (stageLimits lc.runLimits req.run)
        tc.expectedStdout := by
  rw [runSingleTest, if_neg (by simp [hbefore])]
  show TestResult.answer (if (testOutcome w tc lc j req).infra then _ else _) =
    if (testOutcome w tc lc j req).infra then _ else _
  split
  · rfl
  · have hstatus : ∀ cpu : CpuOutcome,
        cpu.limitUS = cpuLimitUS (stageLimits lc.runLimits req.run).cpuLimit →
        cpu.timeUS = (testOutcome w tc lc j req).cpuTimeUS →
        cpu.killed = (testOutcome w tc lc j req).cpuKilled →
        computeTestStatus w.ctxAfter (testOutcome w tc lc j req).err
            (testOutcome w tc lc j req).stdout tc.expectedStdout
            (testOutcome w tc lc j req).ps (testOutcome w tc lc j req).oomKilled cpu =
          computeTestStatus w.ctxAfter (testOutcome w tc lc j req).err
            (testOutcome w tc lc j req).stdout tc.expectedStdout
            (testOutcome w tc lc j req).ps (testOutcome w tc lc j req).oomKilled
            ((w.facts tc lc j req).cpuOutcome (stageLimits lc.runLimits req.run)) := by
      intro cpu hlimit htime hkilled
      refine computeTestStatus_congr hlimit hkilled ?_
      rw [cpuOutcome_reached, hlimit, htime]
      exact (decide_eq_true_iff).symm
    rw [TestResult.answer, TestAnswer.mk.injEq]
    exact ⟨hstatus _ rfl rfl rfl, rfl, rfl, rfl, rfl⟩

theorem runBuild_ok_iff {w : BuildWorld} {j : JailFields} {req : RunRequest}
    {lc : LanguageConfig} :
    ((runBuild w j req lc).2 = none ∧ (runBuild w j req lc).1.status = .ok) ↔
      (w.facts j req lc).built = true := by
  unfold ExecFacts.built BuildWorld.facts ExecOutcome.facts runBuild buildVerdict
  simp only [decide_eq_true_eq]
  generalize execJail w.exec j (buildCmdArgs req lc)
    (stageLimits lc.buildLimits req.build) [] (outputCap req) = o
  cases o.err with
  | none =>
      simp only []
      split
      · next hd => simp [hd]
      · next hd => simp [hd]
  | some err =>
      simp only []
      split
      · simp
      · split <;> simp

end Goboxd.Runner
