import Goboxd.Proofs.ResponseTests

/-!
# When a response agrees with itself

The top-level status is computed from the results `ExecuteRun` returned, and
then the results are rewritten when it says `build_failed` or `internal_error`.
After a build that did not end ok the rewrite changes nothing that anybody
computed, and the status does not depend on the tests. After one that did, the
status is `internal_error` only because some test says so, and it is never
`build_failed`, since no test's own status is: the rewrite then takes every
test, those that ran included, and the status can no longer be read off the
tests that are sent.
-/

namespace Goboxd.Api

open Go Models Config Runner Family

variable {numCPU : Int} {req : RunRequest} {lc : LanguageConfig}
  {s : St RunState TestProc}

/-- The status of the response is the one its own fields give. -/
def StatusAgrees (req : RunRequest) (s : RunState) : Prop :=
  ∀ resp, response req s = some resp →
    resp.status = (computeTopLevelStatus resp.build resp.tests).text

/-- The program of test `i` was run, and gave `r`. -/
def Executed (req : RunRequest) (lc : LanguageConfig) (s : RunState) (i : Nat)
    (r : TestResult) : Prop :=
  ∃ w j tc args, (i, .ran w j) ∈ s.log ∧ req.tests[i]? = some tc ∧
    w.ctxBefore = none ∧
    execStart w.exec j (runCmdArgs req lc) (stageLimits lc.runLimits req.run) =
      .ok args ∧
    r = runSingleTest w tc lc j req

/-- No returned result of a program that was run has its status replaced. -/
def ExecutedKept (req : RunRequest) (lc : LanguageConfig) (s : RunState) : Prop :=
  ∀ build tests err resp, s.pc = .returned build tests err →
    response req s = some resp → ∀ i r, tests[i]? = some r →
      Executed req lc s i r → ∃ r', resp.tests[i]? = some r' ∧ r'.status = r.status

/-! ## The status of a list -/

theorem firstNotAccepted_cases (tests : List TestResult) :
    firstNotAccepted tests = .accepted ∨ firstNotAccepted tests = .notExecuted ∨
      ∃ r ∈ tests, r.status = firstNotAccepted tests := by
  induction tests with
  | nil => exact .inl rfl
  | cons t rest ih =>
      rw [firstNotAccepted]
      split
      · split
        · exact .inr (.inr ⟨t, List.mem_cons_self, rfl⟩)
        · exact .inr (.inl rfl)
      · rcases ih with h | h | ⟨r, hr, h⟩
        · exact .inl h
        · exact .inr (.inl h)
        · exact .inr (.inr ⟨r, List.mem_cons_of_mem _ hr, h⟩)

theorem computeTopLevelStatus_congr {build : BuildResult} (h : build.status ≠ .ok)
    (tests tests' : List TestResult) :
    computeTopLevelStatus build tests = computeTopLevelStatus build tests' := by
  simp [computeTopLevelStatus, h]

def HasInternalError (tests : List TestResult) : Prop :=
  ∃ r ∈ tests, r.status = .internalError

instance (tests : List TestResult) : Decidable (HasInternalError tests) :=
  inferInstanceAs (Decidable (∃ r ∈ tests, r.status = .internalError))

theorem computeTopLevelStatus_ok {build : BuildResult} (hb : build.status = .ok)
    (tests : List TestResult) :
    computeTopLevelStatus build tests =
      if tests.any fun t => t.status = .internalError then .internalError
      else firstNotAccepted tests := by
  simp [computeTopLevelStatus, hb, BuildStatus.valid]

theorem computeTopLevelStatus_internal {build : BuildResult}
    {tests : List TestResult} (hb : build.status = .ok) (h : HasInternalError tests) :
    computeTopLevelStatus build tests = .internalError := by
  rw [computeTopLevelStatus_ok hb, if_pos (by simpa [HasInternalError] using h)]

/-- A status that is neither the service's nor the build's is not rewritten. -/
theorem computeTopLevelStatus_kept {build : BuildResult}
    {tests : List TestResult} (hb : build.status = .ok)
    (h : ¬ HasInternalError tests)
    (hfailed : ∀ r ∈ tests, r.status ≠ .buildFailed) :
    ¬ (computeTopLevelStatus build tests = .buildFailed ∨
      computeTopLevelStatus build tests = .internalError) := by
  rw [computeTopLevelStatus_ok hb, if_neg (by simpa [HasInternalError] using h)]
  rcases firstNotAccepted_cases tests with heq | heq | ⟨r, hr, heq⟩
  · simp [heq]
  · simp [heq]
  · rw [← heq]
    rintro (hst | hst)
    · exact hfailed r hr hst
    · exact h ⟨r, hr, hst⟩

/-! ## The status of a result -/

theorem result_status (req : RunRequest) (lc : LanguageConfig) (tc : TestCase)
    (att : Attempt) : isVerdict (att.result req lc tc).status = true ∨
      (att.result req lc tc).status = .internalError := by
  cases att with
  | noJail | noSeed => exact .inr rfl
  | ran w j =>
      simp only [Attempt.result, runSingleTest]
      split
      · exact .inl rfl
      · split
        · exact .inr rfl
        · exact .inl (computeTestStatus_verdict _ _ _ _ _ _ _)

theorem status_ne_buildFailed {log : List (Nat × Attempt)}
    {tests : List TestResult}
    (h : ResultsUpTo req lc log tests req.tests.length) :
    ∀ r ∈ tests, r.status ≠ .buildFailed := by
  intro r hr hst
  obtain ⟨k, hk, hget⟩ := List.mem_iff_getElem.mp hr
  have hlt : k < req.tests.length := h.1 ▸ hk
  obtain ⟨att, -, hres⟩ := h.2 k _ hlt (List.getElem?_eq_getElem hlt)
  rw [List.getElem?_eq_getElem hk, hget] at hres
  rw [Option.some.inj hres] at hst
  rcases result_status req lc _ att with hv | hi
  · rw [hst] at hv
    cases hv
  · rw [hst] at hi
    cases hi

/-! ## The response -/

/-- What the response says, by the way `ExecuteRun` returned. -/
theorem response_cases {build : BuildResult} {tests : List TestResult}
    {err : Option GoString} {resp : RunResponse}
    (h : (executeRun numCPU req lc).machine.Reachable s)
    (hpc : s.shared.pc = .returned build tests err)
    (hresp : response req s.shared = some resp) :
    (build.status ≠ .ok ∧ tests = [] ∧ resp.build = build ∧
        resp.status = (computeTopLevelStatus build tests).text) ∨
      (build.status = .ok ∧ (∀ r ∈ tests, r.status ≠ .buildFailed) ∧
        resp =
          { status := (computeTopLevelStatus build tests).text
            build := build
            tests := sentTests req (computeTopLevelStatus build tests) tests }) := by
  obtain ⟨build', tests', err', hpc', hc⟩ := response_returned hresp
  rw [hpc] at hpc'
  cases hpc'
  cases returnWf_of_reachable h hpc with
  | setup hb ht =>
      rw [response_err hc hb hpc] at hresp
      cases hresp
      exact .inl ⟨by simp [hb], ht, rfl, by simp [computeTopLevelStatus, hb]⟩
  | build hb ht =>
      obtain ⟨-, rfl⟩ := response_ok hpc hresp
      exact .inl ⟨hb, ht, rfl, rfl⟩
  | tests hb ht =>
      obtain ⟨-, rfl⟩ := response_ok hpc hresp
      exact .inr ⟨hb, status_ne_buildFailed (ht.resolve_left (by simp [hc])), rfl⟩

theorem sentTests_internal {tests : List TestResult} (h : HasInternalError tests) :
    (sentTests req .internalError tests).length = tests.length ∧
      ∀ r ∈ sentTests req .internalError tests, r.status = .notExecuted := by
  obtain ⟨r, hr, -⟩ := h
  have hne : tests ≠ [] := List.ne_nil_of_mem hr
  rw [sentTests, if_pos (.inr rfl)]
  simp only []
  rw [if_neg (by simp [hne])]
  refine ⟨List.length_map _, fun r hr => ?_⟩
  obtain ⟨r', -, rfl⟩ := List.mem_map.mp hr
  rfl

theorem agrees_of_no_tests {build : BuildResult} {err : Option GoString}
    {resp : RunResponse} (hpc : s.shared.pc = .returned build [] err)
    (hresp : response req s.shared = some resp) (hb : build.status ≠ .ok)
    (hbuild : resp.build = build)
    (hst : resp.status = (computeTopLevelStatus build []).text) :
    StatusAgrees req s.shared ∧ ExecutedKept req lc s.shared := by
  refine ⟨fun resp' hresp' => ?_, fun build' tests' err' resp' hpc' _ i r hr => ?_⟩
  · rw [hresp] at hresp'
    cases hresp'
    rw [hst, hbuild, computeTopLevelStatus_congr hb]
  · rw [hpc] at hpc'
    cases hpc'
    cases hr

theorem agrees_of_kept {build : BuildResult} {tests : List TestResult}
    {err : Option GoString}
    (hpc : s.shared.pc = .returned build tests err)
    (hresp : response req s.shared =
      some
        { status := (computeTopLevelStatus build tests).text
          build := build
          tests := tests }) :
    StatusAgrees req s.shared ∧ ExecutedKept req lc s.shared := by
  refine ⟨fun resp' hresp' => ?_, fun build' tests' err' resp' hpc' hresp' i r hr _ => ?_⟩
  · rw [hresp] at hresp'
    cases hresp'
    rfl
  · rw [hpc] at hpc'
    rw [hresp] at hresp'
    cases hpc'
    cases hresp'
    exact ⟨r, hr, rfl⟩

/-- What a response says of itself. In every run, its status is the documented
one of the build and the results that `ExecuteRun` returned. When the build is
ok and a result says internal error, that is the status and every test is sent
as not executed; otherwise the status is also the one of the response's own
fields, and no result of a program that ran has its status replaced. -/
theorem response_consistent {build : BuildResult} {tests : List TestResult}
    {err : Option GoString} {resp : RunResponse}
    (h : (executeRun numCPU req lc).machine.Reachable s)
    (hpc : s.shared.pc = .returned build tests err)
    (hresp : response req s.shared = some resp) :
    resp.build = build ∧ resp.status = (computeTopLevelStatus build tests).text ∧
    (build.status = .ok ∧ HasInternalError tests →
      resp.status = ResultStatus.internalError.text ∧
        resp.tests.length = tests.length ∧
        ∀ r ∈ resp.tests, r.status = .notExecuted) ∧
    (¬ (build.status = .ok ∧ HasInternalError tests) →
      StatusAgrees req s.shared ∧ ExecutedKept req lc s.shared) := by
  rcases response_cases h hpc hresp with ⟨hb, rfl, hbuild, hst⟩ | ⟨hb, hfailed, rfl⟩
  · exact ⟨hbuild, hst, fun hin => absurd hin.1 hb,
      fun _ => agrees_of_no_tests hpc hresp hb hbuild hst⟩
  · refine ⟨rfl, rfl, fun hin => ?_, fun hout => ?_⟩
    · rw [computeTopLevelStatus_internal hb hin.2]
      exact ⟨rfl, sentTests_internal hin.2⟩
    · have hkept := computeTopLevelStatus_kept hb (fun hin => hout ⟨hb, hin⟩) hfailed
      rw [sentTests_kept hkept] at hresp
      exact agrees_of_kept hpc hresp

/-! ## One test that cannot be run -/

def unstartable : TestWorld :=
  { printing [] with
    exec := { (printing []).exec with start := fun _ => some (str "fork: EAGAIN") } }

def pairOfTests : RunRequest := { twoTests with maxParallel := none }

/-- The first test cannot be started when `w` is `unstartable`; the second
prints what it should. -/
def pairRun (w : TestWorld) : List (Act TestAct RunEvent) :=
  [.env (.newJail (.ok pyJail)), .env .next, .env .begin, .env (.finish w),
    .env .next, .env .begin, .env (.finish (printing (str "abcde"))), .env .next]

theorem init_executeRun : (executeRun 4 pairOfTests pyConfig).machine.init
    ⟨startRun false, []⟩ :=
  ⟨⟨false, rfl⟩, rfl⟩

theorem response_consistent_accepted :
    ∃ s resp, (executeRun 4 pairOfTests pyConfig).machine.exec ⟨startRun false, []⟩
        (pairRun (printing (str "abcd"))) = some s ∧
      response pairOfTests s.shared = some resp ∧
      resp.status = str "accepted" ∧ StatusAgrees pairOfTests s.shared := by
  have hr := Machine.reachable_of_exec (pairRun (printing (str "abcd")))
    init_executeRun rfl
  refine ⟨_, _, rfl, rfl, rfl, ?_⟩
  exact ((response_consistent hr rfl rfl).2.2.2 (by decide)).1

theorem executed_test_rewritten :
    (¬ ∀ s, (executeRun 4 pairOfTests pyConfig).machine.Reachable s →
      StatusAgrees pairOfTests s.shared) ∧
    ¬ ∀ s, (executeRun 4 pairOfTests pyConfig).machine.Reachable s →
      ExecutedKept pairOfTests pyConfig s.shared := by
  have hr := Machine.reachable_of_exec (pairRun unstartable) init_executeRun rfl
  refine ⟨fun h => ?_, fun h => ?_⟩
  · exact absurd (h _ hr _ rfl) (by decide)
  · obtain ⟨r', hr', hst⟩ := h _ hr _ _ _ _ rfl rfl 1 _ rfl
      ⟨printing (str "abcde"), pyJail, _, _, List.mem_of_getElem? (i := 1) rfl, rfl,
        rfl, rfl, rfl⟩
    cases hr'
    exact absurd hst (by decide)

end Goboxd.Api
