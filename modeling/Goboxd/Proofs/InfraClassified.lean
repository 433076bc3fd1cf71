import Goboxd.Proofs.OutputVerdict
import Goboxd.Proofs.RunResults

/-!
# Whom a failed exec is blamed on

`execJail` has five ways to come back before the command was started, and its
callers tell them from a command that ran by `Infra`. Four of the exits set it.
The first, for an app dir that cannot be made, does not, and then the error
looks to both callers like the command's own. `runBuild` has a second hole: it
asks for the deadline before it looks at `Infra`, so a start that failed as the
wall time ran out is a build that timed out.

The other direction has no hole. Once the command was started `Infra` is never
set, and nothing else leads either caller to an internal error.
-/

namespace Goboxd.Runner

open Go Models Config

/-- `execJail` comes back before the command was started. -/
def NeverStarted (w : ExecWorld) (j : JailFields) (cmdArgs : List GoString)
    (lim : ExecLimits) : Prop :=
  ∀ args, execStart w j cmdArgs lim ≠ .ok args

def BuildNeverStarted (w : BuildWorld) (j : JailFields) (req : RunRequest)
    (lc : LanguageConfig) : Prop :=
  NeverStarted w.exec j (buildCmdArgs req lc) (stageLimits lc.buildLimits req.build)

def TestNeverStarted (w : TestWorld) (j : JailFields) (req : RunRequest)
    (lc : LanguageConfig) : Prop :=
  NeverStarted w.exec j (runCmdArgs req lc) (stageLimits lc.runLimits req.run)

/-- A build is an internal error, with an error, exactly when the compiler was
never started. -/
structure BuildClassified (w : BuildWorld) (j : JailFields) (req : RunRequest)
    (lc : LanguageConfig) : Prop where
  infra : BuildNeverStarted w j req lc →
    (runBuild w j req lc).1.status = .internalError ∧ (runBuild w j req lc).2 ≠ none
  user : ¬ BuildNeverStarted w j req lc →
    (runBuild w j req lc).1.status ≠ .internalError ∧ (runBuild w j req lc).2 = none

/-- A test that came to its exec is an internal error exactly when the program
was never started. -/
structure TestClassified (w : TestWorld) (tc : TestCase) (j : JailFields)
    (req : RunRequest) (lc : LanguageConfig) : Prop where
  infra : w.ctxBefore = none → TestNeverStarted w j req lc →
    (runSingleTest w tc lc j req).status = .internalError
  user : w.ctxBefore = none → ¬ TestNeverStarted w j req lc →
    (runSingleTest w tc lc j req).status ≠ .internalError

/-! ## What `Infra` says of the start -/

theorem startFails_iff (w : ExecWorld) (j : JailFields) (cmdArgs : List GoString)
    (lim : ExecLimits) :
    StartFails w j cmdArgs lim ↔
      w.mkdirApp = none ∧ NeverStarted w j cmdArgs lim := by
  unfold StartFails NeverStarted execStart
  cases hm : w.mkdirApp with
  | some err => simp
  | none =>
      cases hargs : nsjailArgs w.host j.appDir lim j.uid j.cg j.seccomp with
      | error err => simp
      | ok args =>
          cases hout : w.stdoutPipe <;> cases herr : w.stderrPipe <;>
            cases hstart : w.start (args ++ cmdArgs) <;> simp [hstart]

theorem runBuild_classified_iff (w : BuildWorld) (j : JailFields)
    (req : RunRequest) (lc : LanguageConfig) :
    BuildClassified w j req lc ↔
      (BuildNeverStarted w j req lc →
        w.exec.mkdirApp = none ∧ w.ctxAfter ≠ some .deadlineExceeded) := by
  have herr : ((runBuild w j req lc).2 ≠ none ↔ BuildSetupFails w j req lc) ∧
      ((runBuild w j req lc).2 ≠ none → (runBuild w j req lc).1.status = .internalError) :=
    runBuild_err
  have hfails : BuildSetupFails w j req lc ↔
      (w.exec.mkdirApp = none ∧ BuildNeverStarted w j req lc) ∧
        w.ctxAfter ≠ some .deadlineExceeded :=
    and_congr_left' (startFails_iff _ _ _ _)
  constructor
  · intro h hn
    obtain ⟨⟨hm, -⟩, hd⟩ := hfails.mp (herr.1.mp (h.infra hn).2)
    exact ⟨hm, hd⟩
  · intro h
    refine ⟨fun hn => ?_, fun hn => ?_⟩
    · have hne := herr.1.mpr (hfails.mpr ⟨⟨(h hn).1, hn⟩, (h hn).2⟩)
      exact ⟨herr.2 hne, hne⟩
    · have hnone : (runBuild w j req lc).2 = none := by
        by_contra hne
        exact hn (hfails.mp (herr.1.mp hne)).1.2
      exact ⟨fun hi => runBuild_err_of_internal hi hnone, hnone⟩

theorem runSingleTest_classified_iff (w : TestWorld) (tc : TestCase)
    (j : JailFields) (req : RunRequest) (lc : LanguageConfig) :
    TestClassified w tc j req lc ↔
      (w.ctxBefore = none → TestNeverStarted w j req lc →
        w.exec.mkdirApp = none) := by
  have hinternal : w.ctxBefore = none →
      ((runSingleTest w tc lc j req).status = .internalError ↔
        w.exec.mkdirApp = none ∧ TestNeverStarted w j req lc) := fun hctx =>
    (runSingleTest_internal_iff hctx).trans
      ((execJail_infra_iff _ _ _ _ _ _).trans (startFails_iff _ _ _ _))
  constructor
  · exact fun h hctx hn => ((hinternal hctx).mp (h.infra hctx hn)).1
  · intro h
    exact ⟨fun hctx hn => (hinternal hctx).mpr ⟨h hctx hn, hn⟩,
      fun hctx hn hi => hn ((hinternal hctx).mp hi).2⟩

/-- When a failure of the infrastructure is called one. For every exec of a
build and of a test, whatever the system answers and whatever the state of the
wall-time context: a command that was started never makes an internal error, and
one that was not makes one unless its app dir could not be made, or, for a build,
the deadline had passed when `runBuild` asked. -/
theorem infra_classified_iff (j : JailFields) (req : RunRequest)
    (lc : LanguageConfig) :
    (∀ w, BuildClassified w j req lc ↔
      (BuildNeverStarted w j req lc →
        w.exec.mkdirApp = none ∧ w.ctxAfter ≠ some .deadlineExceeded)) ∧
    ∀ w tc, TestClassified w tc j req lc ↔
      (w.ctxBefore = none → TestNeverStarted w j req lc →
        w.exec.mkdirApp = none) :=
  ⟨fun w => runBuild_classified_iff w j req lc,
    fun w tc => runSingleTest_classified_iff w tc j req lc⟩

/-! ## A full disk and a late start -/

def noAppDir : ExecWorld :=
  { (printing []).exec with mkdirApp := some (str "no space left on device") }

def noProcess : ExecWorld :=
  { (printing []).exec with start := fun _ => some (str "fork/exec: EAGAIN") }

theorem infra_blamed_on_user :
    ¬ BuildClassified ⟨noAppDir, none⟩ pyJail (pyRequest [])
        (newLanguageConfig pyLang) ∧
    ¬ BuildClassified ⟨noProcess, some .deadlineExceeded⟩ pyJail (pyRequest [])
        (newLanguageConfig pyLang) ∧
    ¬ TestClassified { printing [] with exec := noAppDir } ⟨[], []⟩ pyJail
        (pyRequest []) (newLanguageConfig pyLang) := by
  refine ⟨fun h => ?_, fun h => ?_, fun h => ?_⟩
  · exact absurd (h.infra fun args hs => nomatch hs).1 (by decide)
  · exact absurd (h.infra fun args hs => nomatch hs).1 (by decide)
  · exact absurd (h.infra rfl fun args hs => nomatch hs) (by decide)

end Goboxd.Runner
