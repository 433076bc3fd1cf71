import Goboxd.Runner.Execute

/-!
# What `ExecuteRun` returns

Three ways lead to the return. The template jail or the build could not be set
up: an error, no test results, and a build result that says internal error.
The build ran and did not end ok: no test results. Or the loop over the tests
ended, and then every test has its result in its place, unless the request was
cancelled.

In the sequential mode that is the loop's invariant, a prefix that grows. In the
parallel mode it takes three facts: the goroutine of test `i` is process `i`
and writes slot `i` only; the wait group counts the goroutines that are not
finished, so `Wait` returns after all of them; and the loop that starts them
goes through all tests when it is not cut short.
-/

namespace Goboxd.Runner

open Go Models Config Family

variable {numCPU : Int} {req : RunRequest} {lc : LanguageConfig}
  {s t : St RunState TestProc}

/-! ## When the build returns an error -/

/-- `execJail` cannot start its process: the arguments, a pipe or the start
itself fails. -/
def StartFails (w : ExecWorld) (j : JailFields) (cmdArgs : List GoString)
    (lim : ExecLimits) : Prop :=
  w.mkdirApp = none ∧
    ∀ args, nsjailArgs w.host j.appDir lim j.uid j.cg j.seccomp = .ok args →
      w.stdoutPipe ≠ none ∨ w.stderrPipe ≠ none ∨ w.start (args ++ cmdArgs) ≠ none

theorem execJail_infra_iff (w : ExecWorld) (j : JailFields)
    (cmdArgs : List GoString) (lim : ExecLimits) (stdin : GoString)
    (outputCap : Int) :
    (execJail w j cmdArgs lim stdin outputCap).infra = true ↔
      StartFails w j cmdArgs lim := by
  unfold execJail execStart StartFails
  cases hm : w.mkdirApp with
  | some err => simp [ExecOutcome.early]
  | none =>
      cases hargs : nsjailArgs w.host j.appDir lim j.uid j.cg j.seccomp with
      | error err => simp [ExecOutcome.early]
      | ok args =>
          cases hout : w.stdoutPipe with
          | some err => simp [ExecOutcome.early]
          | none =>
              cases herr : w.stderrPipe with
              | some err => simp [ExecOutcome.early]
              | none =>
                  cases hstart : w.start (args ++ cmdArgs) with
                  | some err => simp [ExecOutcome.early, hstart]
                  | none => simp [execFinish, hstart]

theorem execJail_err_of_infra {w : ExecWorld} {j : JailFields}
    {cmdArgs : List GoString} {lim : ExecLimits} (stdin : GoString)
    (outputCap : Int)
    (h : (execJail w j cmdArgs lim stdin outputCap).infra = true) :
    (execJail w j cmdArgs lim stdin outputCap).err ≠ none := by
  unfold execJail at h ⊢
  split at h
  · next outcome hstart =>
      obtain ⟨msg, err, infra, rfl⟩ := execStart_error hstart
      simp [ExecOutcome.early]
  · cases h

/-- The setup of the build fails, and not by the wall-time limit. -/
def BuildSetupFails (w : BuildWorld) (tmpl : JailFields) (req : RunRequest)
    (lc : LanguageConfig) : Prop :=
  StartFails w.exec tmpl (buildCmdArgs req lc)
      (stageLimits lc.buildLimits req.build) ∧
    w.ctxAfter ≠ some .deadlineExceeded

/-- Exactly then `runBuild` answers an error, and its result says internal
error. -/
theorem runBuild_err {w : BuildWorld} {tmpl : JailFields} :
    ((runBuild w tmpl req lc).2 ≠ none ↔ BuildSetupFails w tmpl req lc) ∧
      ((runBuild w tmpl req lc).2 ≠ none →
        (runBuild w tmpl req lc).1.status = .internalError) := by
  have hinfra := execJail_infra_iff w.exec tmpl (buildCmdArgs req lc)
    (stageLimits lc.buildLimits req.build) [] (outputCap req)
  have herr : (execJail w.exec tmpl (buildCmdArgs req lc)
      (stageLimits lc.buildLimits req.build) [] (outputCap req)).infra = true → _ :=
    execJail_err_of_infra [] (outputCap req)
  unfold BuildSetupFails runBuild buildVerdict
  rw [← hinfra]
  generalize execJail w.exec tmpl (buildCmdArgs req lc)
    (stageLimits lc.buildLimits req.build) [] (outputCap req) = outcome at herr
  by_cases hd : w.ctxAfter = some .deadlineExceeded
  · cases outcome.err <;> simp [hd]
  · cases he : outcome.err with
    | none =>
        have hok : outcome.infra = false := by
          rw [← Bool.not_eq_true]
          exact fun hi => herr hi he
        simp [hd, hok]
    | some err => cases outcome.infra <;> simp [hd]

/-- Nothing else does: without an error the result says something about the
source. -/
theorem runBuild_err_of_internal {w : BuildWorld} {tmpl : JailFields}
    (h : (runBuild w tmpl req lc).1.status = .internalError) :
    (runBuild w tmpl req lc).2 ≠ none := by
  unfold runBuild buildVerdict at h ⊢
  generalize execJail w.exec tmpl (buildCmdArgs req lc)
    (stageLimits lc.buildLimits req.build) [] (outputCap req) = outcome at h ⊢
  by_cases hd : w.ctxAfter = some .deadlineExceeded
  · cases he : outcome.err <;> simp [hd, he] at h
  · cases he : outcome.err with
    | none => simp [hd, he] at h
    | some err => cases hi : outcome.infra <;> simp_all

/-- A test that comes to its exec is an internal error exactly when `execJail`
calls the failure one of the infrastructure. -/
theorem runSingleTest_internal_iff {w : TestWorld} {tc : TestCase} {j : JailFields}
    (h : w.ctxBefore = none) :
    (runSingleTest w tc lc j req).status = .internalError ↔
      (testOutcome w tc lc j req).infra = true := by
  rw [runSingleTest, if_neg (by simp [h])]
  simp only []
  split
  · next hi => simp [hi]
  · next hi =>
      simp only [hi, Bool.false_eq_true, iff_false]
      intro heq
      have hv := computeTestStatus_verdict w.ctxAfter
        (testOutcome w tc lc j req).err (testOutcome w tc lc j req).stdout
        tc.expectedStdout (testOutcome w tc lc j req).ps
        (testOutcome w tc lc j req).oomKilled
        { limitUS := cpuLimitUS (stageLimits lc.runLimits req.run).cpuLimit
          timeUS := (testOutcome w tc lc j req).cpuTimeUS
          killed := (testOutcome w tc lc j req).cpuKilled }
      rw [heq] at hv
      cases hv

/-! ## Where the goroutines are -/

/-- What each place of the call says of the goroutines and the slots. -/
def PhaseWf (req : RunRequest) (s : St RunState TestProc) : Prop :=
  match s.shared.pc with
  | .newJail | .build _ | .loop .. | .test .. | .exec .. => s.procs = []
  | .spawn i =>
      s.shared.build.status = .ok ∧ s.shared.results.length = req.tests.length ∧
        s.procs.length = i ∧ i ≤ req.tests.length
  | .acquire i tc =>
      s.shared.build.status = .ok ∧ s.shared.results.length = req.tests.length ∧
        s.procs.length = i ∧ req.tests[i]? = some tc
  | .wait =>
      s.shared.build.status = .ok ∧ s.shared.results.length = req.tests.length ∧
        (s.shared.cancelled = true ∨ s.procs.length = req.tests.length)
  | .returned build _ err => s.procs = [] ∨ (build.status = .ok ∧ err = none)

/-- A goroutine's step leaves the call where it is. -/
structure SamePlace (s r : RunState) : Prop where
  pc : r.pc = s.pc
  build : r.build = s.build
  cancelled : r.cancelled = s.cancelled
  results : r.results.length = s.results.length
  log : ∀ x ∈ s.log, x ∈ r.log

theorem samePlace_of_move {sh : RunState} {p : TestProc} {a : TestAct}
    {r : RunState × TestProc} (h : TestMove req lc sh p a r) : SamePlace sh r.1 := by
  have hstore : ∀ att, SamePlace sh (sh.store req lc p att) := fun att =>
    ⟨rfl, rfl, rfl, List.length_set, fun x hx => List.mem_append_left _ hx⟩
  cases h with
  | noJail | noSeed | finish => exact hstore _
  | jailed | seeded | begin | release | done =>
      exact ⟨rfl, rfl, rfl, rfl, fun _ hx => hx⟩

theorem startTests_cases (numCPU : Int) (req : RunRequest) (sh : RunState)
    (tmpl : JailFields) (build : BuildResult) :
    (sh.startTests numCPU req tmpl build).build = build ∧
    (sh.startTests numCPU req tmpl build).cancelled = sh.cancelled ∧
    (sh.startTests numCPU req tmpl build).log = sh.log ∧
    (((sh.startTests numCPU req tmpl build).pc = .spawn 0 ∧
        (sh.startTests numCPU req tmpl build).results.length = req.tests.length) ∨
      ((sh.startTests numCPU req tmpl build).pc = .loop tmpl 0 ∧
        (sh.startTests numCPU req tmpl build).results = [])) := by
  unfold RunState.startTests
  split
  · exact ⟨rfl, rfl, rfl, .inl ⟨rfl, List.length_replicate⟩⟩
  · exact ⟨rfl, rfl, rfl, .inr ⟨rfl, rfl⟩⟩

theorem phaseWf_startTests {sh : RunState} {tmpl : JailFields}
    {build : BuildResult} {procs : List TestProc} (hb : build.status = .ok)
    (h : procs = []) : PhaseWf req ⟨sh.startTests numCPU req tmpl build, procs⟩ := by
  obtain ⟨hbuild, -, -, ⟨hpc, hlen⟩ | ⟨hpc, -⟩⟩ :=
    startTests_cases numCPU req sh tmpl build
  · simp [PhaseWf, hpc, hlen, h, hbuild, hb]
  · simp [PhaseWf, hpc, h]

theorem phaseWf_finishBuild {sh : RunState} {tmpl : JailFields}
    {build : BuildResult} {err : Option GoString} {procs : List TestProc}
    (h : procs = []) :
    PhaseWf req ⟨sh.finishBuild numCPU req tmpl build err, procs⟩ := by
  unfold RunState.finishBuild
  split
  · exact .inl h
  · split
    · exact .inl h
    · next hb => exact phaseWf_startTests (not_not.mp hb) h

theorem phaseWf_env {sh : RunState} {procs : List TestProc} {e : RunEvent}
    {r : RunState × List TestProc} (h : RunMove numCPU req lc sh e r)
    (hw : PhaseWf req ⟨sh, procs⟩) : PhaseWf req ⟨r.1, procs ++ r.2⟩ := by
  unfold PhaseWf at hw
  cases h with
  | cancel =>
      simp only [PhaseWf, RunState.cancel, List.append_nil]
      split <;> simp_all
  | jailFails hp | compiled hp | loopEnds hp | loopNext hp | begin hp | finish hp =>
      simp only [hp] at hw
      subst hw
      simp [PhaseWf, RunState.setPc, RunState.append]
  | interpreted hp =>
      simp only [hp] at hw
      exact phaseWf_startTests rfl (by simp [hw])
  | build hp =>
      simp only [hp] at hw
      exact phaseWf_finishBuild (by simp [hw])
  | @spawnEnds i hp hend =>
      simp only [hp] at hw
      obtain ⟨hb, hres, rfl, hle⟩ := hw
      refine ⟨hb, hres, ?_⟩
      rw [List.append_nil]
      rcases hend with hnone | hc
      · rw [List.getElem?_eq_none_iff] at hnone
        exact .inr (Nat.le_antisymm hle hnone)
      · exact .inl hc
  | spawnNext hp htc =>
      simp only [hp] at hw
      obtain ⟨hb, hres, hlen, -⟩ := hw
      exact ⟨hb, hres, by simpa using hlen, htc⟩
  | acquire hp =>
      simp only [hp] at hw
      obtain ⟨hb, hres, hlen, htc⟩ := hw
      obtain ⟨hlt, -⟩ := List.getElem?_eq_some_iff.mp htc
      exact ⟨hb, hres, by simp [hlen], hlt⟩
  | wait hp =>
      simp only [hp] at hw
      exact .inr ⟨hw.1, rfl⟩

theorem phaseWf_own {sh : RunState} {procs : List TestProc} {p : TestProc}
    {q : Nat} {a : TestAct} {r : RunState × TestProc}
    (hq : procs[q]? = some p) (h : TestMove req lc sh p a r)
    (hw : PhaseWf req ⟨sh, procs⟩) : PhaseWf req ⟨r.1, procs.set q r.2⟩ := by
  obtain ⟨hpc, hb, hc, hres, -⟩ := samePlace_of_move h
  have hne : procs ≠ [] := by
    rintro rfl
    cases hq
  simp only [PhaseWf, hpc, hb, hc, hres, List.length_set] at hw ⊢
  split <;> simp_all

theorem phaseWf_of_reachable (h : (executeRun numCPU req lc).machine.Reachable s) :
    PhaseWf req s := by
  refine h.invariant ?_ ?_
  · rintro s ⟨⟨cancelled, hsh⟩, hnil⟩
    simp [PhaseWf, hsh, startRun, hnil]
  · intro s a t _ hw _ hs
    cases a with
    | own q a =>
        obtain ⟨p, r, hq, hr, rfl⟩ := step_own.mp hs
        exact phaseWf_own hq (testStep_move hr) hw
    | env e =>
        obtain ⟨r, hr, rfl⟩ := step_env.mp hs
        exact phaseWf_env (runEvent_move hr) hw

/-! ## The wait group -/

def RunPc.announced : RunPc → Int
  | .acquire .. => 1
  | _ => 0

def TestProc.pending (p : TestProc) : Int :=
  match p.pc with
  | .finished => 0
  | _ => 1

theorem pending_nonneg (p : TestProc) : 0 ≤ p.pending := by
  unfold TestProc.pending
  split <;> decide

/-- What the call has announced beyond the goroutines that exist. -/
def RunState.unstarted (s : RunState) : Int := s.wg - s.pc.announced

theorem unstarted_startTests (sh : RunState) (tmpl : JailFields)
    (build : BuildResult) :
    (sh.startTests numCPU req tmpl build).unstarted = sh.wg := by
  unfold RunState.startTests
  split <;> exact Int.sub_zero _

theorem unstarted_finishBuild (sh : RunState) (tmpl : JailFields)
    (build : BuildResult) (err : Option GoString) :
    (sh.finishBuild numCPU req tmpl build err).unstarted = sh.wg := by
  unfold RunState.finishBuild
  split
  · exact Int.sub_zero _
  · split
    · exact Int.sub_zero _
    · exact unstarted_startTests sh tmpl build

theorem unstarted_own {sh : RunState} {p : TestProc} {a : TestAct}
    {r : RunState × TestProc} (h : TestMove req lc sh p a r) :
    r.1.unstarted = sh.unstarted - p.pending + r.2.pending := by
  cases h with
  | done hp =>
      simp only [RunState.unstarted, RunState.addWg, TestProc.setPc,
        TestProc.pending, hp]
      omega
  | noJail hp | jailed hp | noSeed hp | seeded hp | begin hp | finish hp
  | release hp =>
      simp [RunState.unstarted, RunState.store, RunState.addSem, TestProc.setPc,
        TestProc.pending, hp]

theorem unstarted_env {sh : RunState} {e : RunEvent}
    {r : RunState × List TestProc} (h : RunMove numCPU req lc sh e r) :
    r.1.unstarted = sh.unstarted + total TestProc.pending r.2 := by
  cases h with
  | cancel => simp [RunState.unstarted, RunState.cancel]
  | interpreted hp =>
      rw [unstarted_startTests]
      simp [RunState.unstarted, hp, RunPc.announced]
  | build hp =>
      rw [unstarted_finishBuild]
      simp [RunState.unstarted, hp, RunPc.announced]
  | spawnNext hp =>
      simp [RunState.unstarted, RunState.addWg, RunState.setPc, hp, RunPc.announced]
  | acquire hp =>
      simp [RunState.unstarted, RunState.addSem, RunState.setPc, hp,
        RunPc.announced, TestProc.pending]
  | jailFails hp | compiled hp | loopEnds hp | loopNext hp | spawnEnds hp
  | begin hp | finish hp | wait hp =>
      simp [RunState.unstarted, RunState.setPc, RunState.append, hp,
        RunPc.announced]

theorem unstarted_eq_pending (h : (executeRun numCPU req lc).machine.Reachable s) :
    s.shared.unstarted = total TestProc.pending s.procs := by
  refine Family.accounting (w := TestProc.pending) (q := RunState.unstarted)
    ?_ ?_ ?_ h
  · rintro sh ⟨cancelled, rfl⟩
    rfl
  · exact fun s p a l r _ _ hr => unstarted_own (testStep_move hr)
  · exact fun s e r _ hr => unstarted_env (runEvent_move hr)

theorem finished_of_wg (h : (executeRun numCPU req lc).machine.Reachable s)
    (hpc : s.shared.pc = .wait) (hwg : s.shared.wg = 0) {q : Nat} {p : TestProc}
    (hq : s.procs[q]? = some p) : p.pc = .finished := by
  have hsum := unstarted_eq_pending h
  have hle := le_total pending_nonneg hq
  have hzero : s.shared.unstarted = 0 := by
    rw [RunState.unstarted, hpc, hwg]
    rfl
  cases hp : p.pc with
  | finished => rfl
  | _ =>
      have hone : p.pending = 1 := by simp [TestProc.pending, hp]
      omega

/-! ## What a goroutine has stored -/

/-- In place `i` stands the result of something that was tried for test `i`. -/
def HasResult (req : RunRequest) (lc : LanguageConfig)
    (log : List (Nat × Attempt)) (results : List TestResult) (i : Nat)
    (tc : TestCase) : Prop :=
  ∃ att, (i, att) ∈ log ∧ results[i]? = some (att.result req lc tc)

def TestPc.isStored : TestPc → Bool
  | .stored | .released | .finished => true
  | _ => false

/-- Process `q` is the goroutine of test `q`, and its result is in its slot
once it has been stored. -/
structure TestWf (req : RunRequest) (lc : LanguageConfig) (sh : RunState)
    (q : Nat) (p : TestProc) : Prop where
  idx : p.idx = q
  tc : req.tests[q]? = some p.tc
  slot : q < sh.results.length
  stored : p.pc.isStored = true → HasResult req lc sh.log sh.results q p.tc

theorem hasResult_store {sh : RunState} {p : TestProc} {att : Attempt}
    (h : p.idx < sh.results.length) :
    HasResult req lc (sh.store req lc p att).log (sh.store req lc p att).results
      p.idx p.tc :=
  ⟨att, List.mem_append_right _ (List.mem_singleton.mpr rfl),
    List.getElem?_set_self h⟩

theorem testWf_self {sh : RunState} {q : Nat} {p : TestProc} {a : TestAct}
    {r : RunState × TestProc} (h : TestMove req lc sh p a r)
    (hw : TestWf req lc sh q p) : TestWf req lc r.1 q r.2 := by
  have hsame := samePlace_of_move h
  obtain ⟨rfl, htc, hslot, hstored⟩ := hw
  cases h with
  | noJail | noSeed | finish =>
      exact ⟨rfl, htc, hsame.results ▸ hslot, fun _ => hasResult_store hslot⟩
  | jailed | seeded | begin => exact ⟨rfl, htc, hslot, fun h => (nomatch h)⟩
  | release hp | done hp =>
      exact ⟨rfl, htc, hslot, fun _ => hstored (by simp [hp, TestPc.isStored])⟩

/-- A goroutine stores to its own slot only. -/
theorem testWf_other {sh : RunState} {q q' : Nat} {p p' : TestProc} {a : TestAct}
    {r : RunState × TestProc} (h : TestMove req lc sh p a r) (hidx : p.idx = q)
    (hne : q' ≠ q) (hw : TestWf req lc sh q' p') : TestWf req lc r.1 q' p' := by
  have hsame := samePlace_of_move h
  obtain ⟨hi, htc, hslot, hstored⟩ := hw
  refine ⟨hi, htc, hsame.results ▸ hslot, fun hs => ?_⟩
  obtain ⟨att, hmem, hres⟩ := hstored hs
  refine ⟨att, hsame.log _ hmem, ?_⟩
  have hkeep : ∀ att', (sh.store req lc p att').results[q']? = sh.results[q']? :=
    fun att' => List.getElem?_set_ne (by omega)
  cases h with
  | noJail | noSeed | finish => rw [hkeep]; exact hres
  | jailed | seeded | begin | release | done => exact hres

theorem testWf_env {procs : List TestProc} {sh : RunState} {e : RunEvent}
    {r : RunState × List TestProc} {q : Nat} {p : TestProc}
    (h : RunMove numCPU req lc sh e r) (hw : PhaseWf req ⟨sh, procs⟩)
    (hq : procs[q]? = some p) (hp : TestWf req lc sh q p) :
    TestWf req lc r.1 q p := by
  have hne : procs ≠ [] := by
    rintro rfl
    cases hq
  unfold PhaseWf at hw
  cases h with
  | jailFails hpc | compiled hpc | interpreted hpc | build hpc | loopEnds hpc
  | loopNext hpc | begin hpc | finish hpc =>
      simp only [hpc] at hw
      exact absurd hw hne
  | cancel | spawnEnds | spawnNext | acquire | wait =>
      exact ⟨hp.idx, hp.tc, hp.slot, hp.stored⟩

theorem testWf_spawn {procs : List TestProc} {sh : RunState} {e : RunEvent}
    {r : RunState × List TestProc} {k : Nat} {p : TestProc}
    (h : RunMove numCPU req lc sh e r) (hw : PhaseWf req ⟨sh, procs⟩)
    (hk : r.2[k]? = some p) : TestWf req lc r.1 (procs.length + k) p := by
  cases h with
  | @acquire i tc hpc =>
      simp only [PhaseWf, hpc] at hw
      obtain ⟨-, hres, hlen, htc⟩ := hw
      obtain ⟨hlt, -⟩ := List.getElem?_eq_some_iff.mp htc
      cases k with
      | zero =>
          cases hk
          refine ⟨hlen.symm, ?_, ?_, fun h => (nomatch h)⟩
          · rw [Nat.add_zero, hlen]
            exact htc
          · simp only [RunState.setPc, RunState.addSem]
            omega
      | succ k => cases hk
  | _ => cases hk

theorem testWf_of_reachable (h : (executeRun numCPU req lc).machine.Reachable s) :
    Each (TestWf req lc) s := by
  refine Family.each ?_ ?_ ?_ ?_ h
  · intro s q a p r _ hw _ hq hr
    exact testWf_self (testStep_move hr) (hw q p hq)
  · intro s q a p r q' p' _ hw _ hq hr hne hq'
    exact testWf_other (testStep_move hr) (hw q p hq).idx hne (hw q' p' hq')
  · intro s e r q p hr hw _ he hq
    exact testWf_env (runEvent_move he) (phaseWf_of_reachable hr) hq (hw q p hq)
  · intro s e r k p hr _ he hk
    exact testWf_spawn (runEvent_move he) (phaseWf_of_reachable hr) hk

/-! ## What is returned -/

/-- The first `i` tests have their results in place, and there is nothing
else. -/
def ResultsUpTo (req : RunRequest) (lc : LanguageConfig)
    (log : List (Nat × Attempt)) (results : List TestResult) (i : Nat) : Prop :=
  results.length = i ∧
    ∀ k tc, k < i → req.tests[k]? = some tc → HasResult req lc log results k tc

/-- The three ways to return: nothing could be set up, the build did not end
ok, or the tests are done, all of them unless the request was cancelled. -/
inductive ReturnWf (req : RunRequest) (lc : LanguageConfig) (cancelled : Bool)
    (log : List (Nat × Attempt)) (build : BuildResult) (tests : List TestResult) :
    Option GoString → Prop where
  | setup {err : GoString} (hb : build.status = .internalError) (ht : tests = []) :
      ReturnWf req lc cancelled log build tests (some err)
  | build (hb : build.status ≠ .ok) (ht : tests = []) (hlog : log = []) :
      ReturnWf req lc cancelled log build tests none
  | tests (hb : build.status = .ok) (ht : cancelled = true ∨
        ResultsUpTo req lc log tests req.tests.length) :
      ReturnWf req lc cancelled log build tests none

/-- What each place of the call says of the results. -/
def ProgressWf (req : RunRequest) (lc : LanguageConfig) (s : RunState) : Prop :=
  match s.pc with
  | .newJail | .build _ => s.log = []
  | .loop _ i =>
      s.build.status = .ok ∧ ResultsUpTo req lc s.log s.results i ∧
        i ≤ req.tests.length
  | .test _ i tc | .exec _ i tc _ =>
      s.build.status = .ok ∧ ResultsUpTo req lc s.log s.results i ∧
        req.tests[i]? = some tc
  | .spawn _ | .acquire .. | .wait => True
  | .returned build tests err => ReturnWf req lc s.cancelled s.log build tests err

theorem HasResult.mono {log log' : List (Nat × Attempt)} {results : List TestResult}
    {i : Nat} {tc : TestCase} (hlog : ∀ x ∈ log, x ∈ log')
    (h : HasResult req lc log results i tc) : HasResult req lc log' results i tc := by
  obtain ⟨att, hmem, hres⟩ := h
  exact ⟨att, hlog _ hmem, hres⟩

theorem resultsUpTo_append {sh : RunState} {tmpl : JailFields} {i : Nat}
    {tc : TestCase} (att : Attempt)
    (h : ResultsUpTo req lc sh.log sh.results i) (htc : req.tests[i]? = some tc) :
    ResultsUpTo req lc (sh.append req lc tmpl i tc att).log
      (sh.append req lc tmpl i tc att).results (i + 1) := by
  obtain ⟨rfl, hres⟩ := h
  refine ⟨List.length_append, fun k tc' hk htc' => ?_⟩
  rcases Nat.lt_succ_iff_lt_or_eq.mp hk with hlt | rfl
  · obtain ⟨att', hmem, hr⟩ := hres k tc' hlt htc'
    refine ⟨att', List.mem_append_left _ hmem, ?_⟩
    rw [RunState.append, List.getElem?_append_left hlt]
    exact hr
  · rw [htc] at htc'
    cases htc'
    exact ⟨att, List.mem_append_right _ (List.mem_singleton.mpr rfl),
      List.getElem?_concat_length⟩

theorem progressWf_startTests {sh : RunState} {tmpl : JailFields}
    {build : BuildResult} (hb : build.status = .ok) :
    ProgressWf req lc (sh.startTests numCPU req tmpl build) := by
  obtain ⟨hbuild, -, -, ⟨hpc, -⟩ | ⟨hpc, hres⟩⟩ :=
    startTests_cases numCPU req sh tmpl build
  · simp [ProgressWf, hpc]
  · simp [ProgressWf, hpc, hbuild, hb, hres, ResultsUpTo]

theorem progressWf_build {sh : RunState} {tmpl : JailFields} {w : BuildWorld}
    {durationMs : Int} (hlog : sh.log = []) :
    ProgressWf req lc (sh.finishBuild numCPU req tmpl
      { (runBuild w tmpl req lc).1 with durationMs := durationMs }
      (runBuild w tmpl req lc).2) := by
  unfold RunState.finishBuild
  split
  · next herr =>
      obtain ⟨err, herr'⟩ := Option.ne_none_iff_exists'.mp herr
      rw [herr']
      exact .setup (runBuild_err.2 herr) rfl
  · split
    · next hb => exact .build hb rfl hlog
    · next hb => exact progressWf_startTests (not_not.mp hb)

/-- The sequential loop ends after the last test, unless it is cut short. -/
theorem returnWf_loopEnds {sh : RunState} {i : Nat} (hb : sh.build.status = .ok)
    (hres : ResultsUpTo req lc sh.log sh.results i) (hle : i ≤ req.tests.length)
    (hend : req.tests[i]? = none ∨ sh.cancelled = true) :
    ReturnWf req lc sh.cancelled sh.log sh.build sh.results none := by
  refine .tests hb ?_
  rcases hend with hnone | hc
  · rw [List.getElem?_eq_none_iff] at hnone
    rw [Nat.le_antisymm hle hnone] at hres
    exact .inr hres
  · exact .inl hc

/-- The parallel loop waits for all tests, unless it was cut short. -/
theorem returnWf_wait (h : (executeRun numCPU req lc).machine.Reachable s)
    (hpc : s.shared.pc = .wait) (hwg : s.shared.wg = 0) :
    ReturnWf req lc s.shared.cancelled s.shared.log s.shared.build s.shared.results
      none := by
  have hphase := phaseWf_of_reachable h
  simp only [PhaseWf, hpc] at hphase
  obtain ⟨hb, hlen, hall⟩ := hphase
  refine .tests hb (hall.imp_right fun hall => ⟨hlen, fun k tc hk htc => ?_⟩)
  obtain ⟨p, hp⟩ : ∃ p, s.procs[k]? = some p :=
    ⟨_, List.getElem?_eq_getElem (hall ▸ hk)⟩
  have hw := testWf_of_reachable h k p hp
  have htc' := hw.tc
  rw [htc] at htc'
  cases htc'
  exact hw.stored (by rw [finished_of_wg h hpc hwg hp]; rfl)

theorem returnWf_cancel {cancelled : Bool} {log : List (Nat × Attempt)}
    {build : BuildResult} {tests : List TestResult} {err : Option GoString}
    (h : ReturnWf req lc cancelled log build tests err) :
    ReturnWf req lc true log build tests err := by
  cases h with
  | setup hb ht => exact .setup hb ht
  | build hb ht hlog => exact .build hb ht hlog
  | tests hb => exact .tests hb (.inl rfl)

theorem progressWf_env {e : RunEvent} {r : RunState × List TestProc}
    (hr : (executeRun numCPU req lc).machine.Reachable s)
    (h : RunMove numCPU req lc s.shared e r) (hw : ProgressWf req lc s.shared) :
    ProgressWf req lc r.1 := by
  unfold ProgressWf at hw
  cases h with
  | cancel =>
      cases hs : s.shared.pc <;> simp only [hs] at hw <;>
        simp only [ProgressWf, RunState.cancel, hs]
      all_goals first | exact hw | exact returnWf_cancel hw
  | jailFails => exact .setup rfl rfl
  | compiled hp =>
      simp only [hp] at hw
      exact hw
  | interpreted => exact progressWf_startTests rfl
  | build hp =>
      simp only [hp] at hw
      exact progressWf_build hw
  | loopEnds hp hend =>
      simp only [hp] at hw
      exact returnWf_loopEnds hw.1 hw.2.1 hw.2.2 hend
  | loopNext hp htc =>
      simp only [hp] at hw
      exact ⟨hw.1, hw.2.1, htc⟩
  | begin hp =>
      simp only [hp] at hw
      exact hw
  | finish hp =>
      simp only [hp] at hw
      obtain ⟨hb, hres, htc⟩ := hw
      obtain ⟨hlt, -⟩ := List.getElem?_eq_some_iff.mp htc
      exact ⟨hb, resultsUpTo_append _ hres htc, hlt⟩
  | spawnEnds | spawnNext | acquire => trivial
  | wait hp hwg => exact returnWf_wait hr hp hwg

theorem progressWf_own {p : TestProc} {q : Nat} {a : TestAct}
    {r : RunState × TestProc} (hphase : PhaseWf req s)
    (hq : s.procs[q]? = some p) (h : TestMove req lc s.shared p a r)
    (hw : ProgressWf req lc s.shared) : ProgressWf req lc r.1 := by
  have hne : s.procs ≠ [] := by
    intro hnil
    rw [hnil] at hq
    cases hq
  obtain ⟨hpc, -, hc, -, hlog⟩ := samePlace_of_move h
  unfold ProgressWf PhaseWf at *
  rw [hpc, hc]
  cases hs : s.shared.pc with
  | newJail | build | loop | test | exec =>
      simp only [hs] at hphase
      exact absurd hphase hne
  | spawn | acquire | wait => trivial
  | returned build tests err =>
      simp only [hs] at hphase hw ⊢
      obtain ⟨hb, rfl⟩ := hphase.resolve_left hne
      cases hw with
      | build hb' => exact absurd hb hb'
      | tests hb ht =>
          refine .tests hb (ht.imp_right fun hres => ⟨hres.1, fun k tc hk htc => ?_⟩)
          exact (hres.2 k tc hk htc).mono hlog

theorem progressWf_of_reachable
    (h : (executeRun numCPU req lc).machine.Reachable s) :
    ProgressWf req lc s.shared := by
  refine h.invariant (I := fun s => ProgressWf req lc s.shared) ?_ ?_
  · rintro s ⟨⟨cancelled, hsh⟩, -⟩
    simp [ProgressWf, hsh, startRun]
  · intro s a t hr hw _ hs
    cases a with
    | own q a =>
        obtain ⟨p, r, hq, hstep, rfl⟩ := step_own.mp hs
        exact progressWf_own (phaseWf_of_reachable hr) hq (testStep_move hstep) hw
    | env e =>
        obtain ⟨r, hstep, rfl⟩ := step_env.mp hs
        exact progressWf_env hr (runEvent_move hstep) hw

theorem returnWf_of_reachable {build : BuildResult} {tests : List TestResult}
    {err : Option GoString} (h : (executeRun numCPU req lc).machine.Reachable s)
    (hpc : s.shared.pc = .returned build tests err) :
    ReturnWf req lc s.shared.cancelled s.shared.log build tests err := by
  have hw := progressWf_of_reachable h
  simpa only [ProgressWf, hpc] using hw

end Goboxd.Runner
