import Goboxd.Proofs.ResponseStatus

/-!
# What an accepted response says of the tests

The scan for the first status that is not `accepted` passes over nothing: an
empty list and a list that is too short would both look like success to it. That
neither reaches it is a fact about cancellation. `ExecuteRun` returns fewer
results than there are tests, or a slot nobody wrote, only when the loop over
the tests was cut short, the loop is cut short only by a context that is done,
and `HandleRun` asks the same context again before it writes anything.

Of the results that are there, one that never came from a program has a status
of its own, and an exec that did not start has an error, so what is left is the
comparison at the end of `computeTestStatus`.
-/

namespace Goboxd.Api

open Go Models Config Runner Family

variable {numCPU : Int} {req : RunRequest} {lc : LanguageConfig}
  {s : St RunState TestProc}

/-- The status `runSingleTest` computes of an exec that was started. -/
def statusOfExec (w : TestWorld) (tc : TestCase) (lc : LanguageConfig)
    (j : JailFields) (req : RunRequest) : ResultStatus :=
  let outcome := testOutcome w tc lc j req
  computeTestStatus w.ctxAfter outcome.err outcome.stdout tc.expectedStdout
    outcome.ps outcome.oomKilled
    { limitUS := cpuLimitUS (stageLimits lc.runLimits req.run).cpuLimit
      timeUS := outcome.cpuTimeUS
      killed := outcome.cpuKilled }

/-- In this call the command of test `i` was started, and `computeTestStatus`
accepted what came of it; `r` is the result. -/
def TestAccepted (req : RunRequest) (lc : LanguageConfig) (s : RunState) (i : Nat)
    (tc : TestCase) (r : TestResult) : Prop :=
  ∃ w j args, (i, .ran w j) ∈ s.log ∧ w.ctxBefore = none ∧
    execStart w.exec j (runCmdArgs req lc) (stageLimits lc.runLimits req.run) =
      .ok args ∧
    statusOfExec w tc lc j req = .accepted ∧ r = runSingleTest w tc lc j req

/-! ## The scan -/

theorem text_eq_accepted {st : ResultStatus}
    (h : st.text = ResultStatus.accepted.text) : st = .accepted := by
  cases st with
  | accepted => rfl
  | _ => exact absurd h (by decide)

theorem accepted_of_firstNotAccepted {tests : List TestResult}
    (h : firstNotAccepted tests = .accepted) : ∀ r ∈ tests, r.status = .accepted := by
  induction tests with
  | nil => exact fun r hr => nomatch hr
  | cons t rest ih =>
      rw [firstNotAccepted] at h
      split at h
      · next hne =>
          split at h
          · exact absurd h hne
          · cases h
      · next heq =>
          rw [not_not] at heq
          rintro r hr
          rcases List.mem_cons.mp hr with rfl | hr
          · exact heq
          · exact ih h r hr

theorem accepted_of_topLevel {build : BuildResult} {tests : List TestResult}
    (hb : build.status = .ok) (h : computeTopLevelStatus build tests = .accepted) :
    ∀ r ∈ tests, r.status = .accepted := by
  rw [computeTopLevelStatus_ok hb] at h
  split at h
  · cases h
  · exact accepted_of_firstNotAccepted h

/-! ## What an accepted result comes from -/

theorem execStart_of_err {w : ExecWorld} {j : JailFields}
    {cmdArgs : List GoString} {lim : ExecLimits} {stdin : GoString} {outputCap : Int}
    (h : (execJail w j cmdArgs lim stdin outputCap).err = none) :
    ∃ args, execStart w j cmdArgs lim = .ok args := by
  cases hs : execStart w j cmdArgs lim with
  | ok args => exact ⟨args, rfl⟩
  | error outcome =>
      obtain ⟨msg, err, infra, rfl⟩ := execStart_error hs
      rw [execJail, hs] at h
      cases h

theorem runSingleTest_accepted {w : TestWorld} {tc : TestCase} {j : JailFields}
    (h : (runSingleTest w tc lc j req).status = .accepted) :
    w.ctxBefore = none ∧
      (∃ args, execStart w.exec j (runCmdArgs req lc)
        (stageLimits lc.runLimits req.run) = .ok args) ∧
      statusOfExec w tc lc j req = .accepted := by
  simp only [runSingleTest] at h
  split at h
  · cases h
  · next hctx =>
      split at h
      · cases h
      · have herr := (computeTestStatus_accepted_iff.mp h).2.1
        exact ⟨not_not.mp hctx, execStart_of_err herr, h⟩

theorem testAccepted_of_result {s : RunState} {i : Nat} {tc : TestCase}
    {att : Attempt} (hmem : (i, att) ∈ s.log)
    (h : (att.result req lc tc).status = .accepted) :
    TestAccepted req lc s i tc (att.result req lc tc) := by
  cases att with
  | noJail | noSeed => cases h
  | ran w j =>
      obtain ⟨hctx, ⟨args, hstart⟩, hst⟩ := runSingleTest_accepted h
      exact ⟨w, j, args, hmem, hctx, hstart, hst, rfl⟩

/-- Accepted means that every test was run and accepted. In both modes, for
every schedule, every answer of the system and every moment at which the client
goes: a 200 with status `accepted` is written only when the build was ok, and
then every test of the request has its place in the response, its command was
started in this call, and its status was computed as accepted. -/
theorem accepted_tests_all_run {resp : RunResponse}
    (h : (executeRun numCPU req lc).machine.Reachable s)
    (hresp : response req s.shared = some resp)
    (hacc : resp.status = ResultStatus.accepted.text) :
    resp.build.status = .ok ∧ resp.tests.length = req.tests.length ∧
      ∀ i tc, req.tests[i]? = some tc →
        ∃ r, resp.tests[i]? = some r ∧ TestAccepted req lc s.shared i tc r := by
  obtain ⟨build, tests, err, hpc, hc⟩ := response_returned hresp
  rcases response_cases h hpc hresp with ⟨hb, -, -, hst⟩ | ⟨hb, -, rfl⟩
  · have htop := text_eq_accepted (hst.symm.trans hacc)
    rcases computeTopLevelStatus_of_not_ok tests hb with heq | heq <;>
      (rw [heq] at htop; cases htop)
  · have htop := text_eq_accepted hacc
    have hkept : sentTests req (computeTopLevelStatus build tests) tests = tests :=
      sentTests_kept (by simp [htop])
    have hall := accepted_of_topLevel hb htop
    have hres : ResultsUpTo req lc s.shared.log tests req.tests.length := by
      cases returnWf_of_reachable h hpc with
      | setup hb' => rw [hb] at hb'; cases hb'
      | build hb' => exact absurd hb hb'
      | tests _ ht => exact ht.resolve_left (by simp [hc])
    simp only [hkept]
    refine ⟨hb, hres.1, fun i tc htc => ?_⟩
    obtain ⟨hlt, -⟩ := List.getElem?_eq_some_iff.mp htc
    obtain ⟨att, hmem, hget⟩ := hres.2 i tc hlt htc
    exact ⟨_, hget, testAccepted_of_result hmem
      (hall _ (List.mem_of_getElem? hget))⟩

theorem accepted_tests_all_run_pair :
    ∃ s resp, (executeRun 4 pairOfTests pyConfig).machine.exec ⟨startRun false, []⟩
        (pairRun (printing (str "abcd"))) = some s ∧
      response pairOfTests s.shared = some resp ∧ resp.build.status = .ok ∧
      ∃ r, resp.tests[1]? = some r ∧
        TestAccepted pairOfTests pyConfig s.shared 1 ⟨[], str "abcde"⟩ r := by
  have hr := Machine.reachable_of_exec (pairRun (printing (str "abcd")))
    init_executeRun rfl
  have hall := accepted_tests_all_run hr rfl (by decide)
  exact ⟨_, _, rfl, rfl, hall.1, hall.2.2 1 _ rfl⟩

end Goboxd.Api
