import Goboxd.Api.Handlers
import Goboxd.Proofs.OutputVerdict
import Goboxd.Proofs.RunResults

/-!
# When a response answers every test

A 200 is written in two places. The common one fills in the tests that were
not taken up, and what `ExecuteRun` returned there is a result for every test
or none at all, since a loop that was cut short belongs to a client that is
gone. The early one, for a build result that is itself an internal error, sends
the build and no tests.

So the response is short exactly after a setup that failed: the template jail
could not be made, or the build could not be started.
-/

namespace Goboxd.Api

open Go Models Config Runner Family

variable {numCPU : Int} {req : RunRequest} {lc : LanguageConfig}
  {s t : St RunState TestProc}

/-- If a 200 is written in this state, it has an entry for every test, and each
is the result of that test or not executed. -/
def TestsAnswered (req : RunRequest) (lc : LanguageConfig) (s : RunState) : Prop :=
  ∀ resp, response req s = some resp →
    resp.tests.length = req.tests.length ∧
      ∀ i tc, req.tests[i]? = some tc → ∃ r, resp.tests[i]? = some r ∧
        (r.status = .notExecuted ∨
          ∃ att, (i, att) ∈ s.log ∧ r = att.result req lc tc)

/-- The template jail is made and the build is started, unless the client is
gone already. -/
def SetupHolds (req : RunRequest) (lc : LanguageConfig) (s : St RunState TestProc)
    (a : Act TestAct RunEvent) : Prop :=
  s.shared.cancelled = true ∨
    (∀ err, a ≠ .env (.newJail (.error err))) ∧
      ∀ w durationMs tmpl, a = .env (.build w durationMs) →
        s.shared.pc = .build tmpl → ¬ BuildSetupFails w tmpl req lc

/-! ## Under the condition -/

/-- An error is returned only to a client that is gone. -/
def ErrorUnseen (s : RunState) : Prop :=
  ∀ build tests err, s.pc = .returned build tests (some err) → s.cancelled = true

theorem errorUnseen_startTests (sh : RunState) (tmpl : JailFields)
    (build : BuildResult) : ErrorUnseen (sh.startTests numCPU req tmpl build) := by
  intro b ts err hpc
  obtain ⟨-, -, -, ⟨hpc', -⟩ | ⟨hpc', -⟩⟩ :=
    startTests_cases numCPU req sh tmpl build <;>
    (rw [hpc'] at hpc; cases hpc)

theorem errorUnseen_env {e : RunEvent} {r : RunState × List TestProc}
    (h : RunMove numCPU req lc s.shared e r) (hg : SetupHolds req lc s (.env e)) :
    ErrorUnseen r.1 := by
  cases h with
  | cancel => exact fun _ _ _ _ => rfl
  | jailFails =>
      exact fun _ _ _ _ => hg.resolve_right fun h => h.1 _ rfl
  | interpreted => exact errorUnseen_startTests _ _ _
  | build hp =>
      unfold RunState.finishBuild
      split
      · next herr =>
          exact fun _ _ _ _ => hg.resolve_right fun h =>
            h.2 _ _ _ rfl hp (runBuild_err.1.mp herr)
      · split
        · exact fun _ _ _ hpc => nomatch hpc
        · exact errorUnseen_startTests _ _ _
  | compiled | loopEnds | loopNext | spawnEnds | spawnNext | begin | finish
  | acquire | wait => exact fun _ _ _ hpc => nomatch hpc

theorem errorUnseen_of_setup
    (h : (executeRun numCPU req lc).machine.Reach (SetupHolds req lc) s) :
    ErrorUnseen s.shared := by
  refine h.invariant (I := fun s => ErrorUnseen s.shared) ?_ ?_
  · rintro s ⟨⟨cancelled, hsh⟩, -⟩ _ _ _ hpc
    rw [hsh] at hpc
    cases hpc
  · intro s a t _ hw hg hs
    cases a with
    | own q a =>
        obtain ⟨p, r, -, hr, rfl⟩ := step_own.mp hs
        obtain ⟨hpc, -, hc, -⟩ := samePlace_of_move (testStep_move hr)
        simpa only [ErrorUnseen, hpc, hc] using hw
    | env e =>
        obtain ⟨r, hr, rfl⟩ := step_env.mp hs
        exact errorUnseen_env (runEvent_move hr) hg

theorem response_ok {s : RunState} {build : BuildResult} {tests : List TestResult}
    {resp : RunResponse} (hpc : s.pc = .returned build tests none)
    (h : response req s = some resp) :
    s.cancelled = false ∧
      resp =
        { status := (computeTopLevelStatus build tests).text
          build := build
          tests := sentTests req (computeTopLevelStatus build tests) tests } := by
  simp only [response, hpc, finishRun] at h
  split at h
  · cases h
  · next hc =>
      rw [if_neg (by simp)] at h
      cases h
      exact ⟨Bool.eq_false_iff.mpr hc, rfl⟩

theorem response_returned {s : RunState} {resp : RunResponse}
    (h : response req s = some resp) :
    ∃ build tests err, s.pc = .returned build tests err ∧ s.cancelled = false := by
  unfold response at h
  split at h
  · next build tests err hpc =>
      refine ⟨build, tests, err, hpc, Bool.eq_false_iff.mpr fun hc => ?_⟩
      rw [hc] at h
      cases h
  · cases h

theorem answered_sent {top : ResultStatus} {log : List (Nat × Attempt)}
    {tests : List TestResult}
    (h : ResultsUpTo req lc log tests req.tests.length ∨
      (tests = [] ∧ (top = .buildFailed ∨ top = .internalError))) :
    (sentTests req top tests).length = req.tests.length ∧
      ∀ i tc, req.tests[i]? = some tc → ∃ r, (sentTests req top tests)[i]? = some r ∧
        (r.status = .notExecuted ∨
          ∃ att, (i, att) ∈ log ∧ r = att.result req lc tc) := by
  have hlen := sentTests_length (h.imp_left And.left)
  refine ⟨hlen, fun i tc htc => ?_⟩
  obtain ⟨hlt, -⟩ := List.getElem?_eq_some_iff.mp htc
  have hsent := List.getElem?_eq_getElem (hlen ▸ hlt)
  refine ⟨_, hsent, ?_⟩
  rcases sentTests_entry hsent with hkept | hne
  · rcases h with hres | ⟨rfl, -⟩
    · obtain ⟨att, hmem, hr⟩ := hres.2 i tc hlt htc
      rw [hr] at hkept
      exact .inr ⟨att, hmem, (Option.some.inj hkept).symm⟩
    · cases hkept
  · exact .inl hne

theorem testsAnswered_of_setup
    (h : (executeRun numCPU req lc).machine.Reach (SetupHolds req lc) s) :
    TestsAnswered req lc s.shared := by
  intro resp hresp
  obtain ⟨build, tests, err, hpc, hc⟩ := response_returned hresp
  cases returnWf_of_reachable h.reachable hpc with
  | setup =>
      have hgone := errorUnseen_of_setup h _ _ _ hpc
      rw [hc] at hgone
      cases hgone
  | build hb ht =>
      obtain ⟨-, rfl⟩ := response_ok hpc hresp
      exact answered_sent (.inr ⟨ht, computeTopLevelStatus_of_not_ok tests hb⟩)
  | tests hb ht =>
      obtain ⟨-, rfl⟩ := response_ok hpc hresp
      exact answered_sent (.inl (ht.resolve_left (by simp [hc])))

/-! ## Against the condition -/

theorem response_err {s : RunState} {build : BuildResult} {tests : List TestResult}
    {err : GoString} (hc : s.cancelled = false)
    (hb : build.status = .internalError)
    (hpc : s.pc = .returned build tests (some err)) :
    response req s =
      some { status := ResultStatus.internalError.text, build := build, tests := [] } := by
  simp [response, hpc, finishRun, hc, hb, Answer.body]

theorem unanswered_of_err {s : RunState} {build : BuildResult}
    {tests : List TestResult} {err : GoString} (hsome : req.tests ≠ [])
    (hc : s.cancelled = false) (hb : build.status = .internalError)
    (hpc : s.pc = .returned build tests (some err)) :
    ¬ TestsAnswered req lc s := by
  intro h
  have hlen := (h _ (response_err hc hb hpc)).1
  exact hsome (List.eq_nil_of_length_eq_zero hlen.symm)

theorem unanswered_of_not_setup {a : Act TestAct RunEvent} (hsome : req.tests ≠ [])
    (hs : (executeRun numCPU req lc).machine.step s a = some t)
    (hg : ¬ SetupHolds req lc s a) : ¬ TestsAnswered req lc t.shared := by
  rw [SetupHolds, not_or, Bool.not_eq_true, not_and_or] at hg
  obtain ⟨hc, hg⟩ := hg
  rcases hg with hg | hg
  · push Not at hg
    obtain ⟨err, rfl⟩ := hg
    obtain ⟨r, hr, rfl⟩ := step_env.mp hs
    have hmove : RunMove numCPU req lc s.shared (.newJail (.error err)) r :=
      runEvent_move hr
    cases hmove with
    | jailFails => exact unanswered_of_err hsome hc rfl rfl
  · push Not at hg
    obtain ⟨w, durationMs, tmpl, rfl, hpc, hfails⟩ := hg
    obtain ⟨r, hr, rfl⟩ := step_env.mp hs
    have hmove : RunMove numCPU req lc s.shared (.build w durationMs) r :=
      runEvent_move hr
    cases hmove with
    | build hp =>
        rw [hpc] at hp
        cases hp
        have herr := runBuild_err.1.mpr hfails
        obtain ⟨err, herr'⟩ := Option.ne_none_iff_exists'.mp herr
        simp only [RunState.finishBuild, herr']
        rw [if_pos (by simp)]
        refine unanswered_of_err hsome hc ?_ rfl
        exact runBuild_err.2 herr

/-- When every 200 answers every test. For every request that passed
validation, in both modes and every schedule, whatever the system answers and
whenever the client goes, it is so as long as the setup of the template jail and
of the build does not fail while the client is there; and where it does fail, the
response that follows answers no test. -/
theorem every_test_answered {getenv : Env} {reg : Registry}
    {decoded : Except GoString RunRequest}
    (hv : validateRun getenv reg decoded = .ok (req, lc)) :
    ((executeRun numCPU req lc).machine.Reach (SetupHolds req lc) s →
      TestsAnswered req lc s.shared) ∧
    ∀ a t, (executeRun numCPU req lc).machine.Reachable s →
      (executeRun numCPU req lc).machine.step s a = some t →
      ¬ SetupHolds req lc s a → ¬ TestsAnswered req lc t.shared :=
  ⟨testsAnswered_of_setup, fun _ _ _ =>
    unanswered_of_not_setup (validateRun_ok hv).2.someTest⟩

/-! ## Two tests, run at once or not at all -/

def twoTests : RunRequest where
  language := str "py3"
  source := str "print('abcd')"
  sourceFilename := []
  artifactFilename := []
  build := none
  run := none
  tests := [⟨[], str "abcd"⟩, ⟨[], str "abcde"⟩]
  maxParallel := some 2
  maxOutputBytes := none

abbrev pyConfig : LanguageConfig := newLanguageConfig pyLang

theorem validate_twoTests :
    validateRun (fun _ => []) pyRegistry (.ok twoTests) = .ok (twoTests, pyConfig) :=
  rfl

/-- The second test is done before the first one's jail is seeded. -/
def parallelRun : List (Act TestAct RunEvent) :=
  [.env (.newJail (.ok pyJail)), .env .next, .env .acquire, .env .next,
    .env .acquire, .env .next, .own 1 (.newJail (.ok pyJail)),
    .own 0 (.newJail (.ok pyJail)), .own 1 (.seed none), .own 1 .begin,
    .own 1 (.finish (printing (str "abcd"))), .own 1 .release, .own 0 (.seed none),
    .own 0 .begin, .own 1 .done, .own 0 (.finish (printing (str "abcd"))),
    .own 0 .release, .own 0 .done, .env .wait]

def noSpaceRun : List (Act TestAct RunEvent) :=
  [.env (.newJail (.error (str "mkdir: no space left on device")))]

/-- A simple way for a step to keep to the condition: there is no build, and the
template jail is made. -/
def setupCheck (_ : St RunState TestProc) : Act TestAct RunEvent → Bool
  | .env (.newJail (.error _)) => false
  | .env (.build ..) => false
  | _ => true

theorem setupCheck_sound (s : St RunState TestProc) (a : Act TestAct RunEvent)
    (h : setupCheck s a = true) : SetupHolds twoTests pyConfig s a := by
  refine .inr ⟨?_, ?_⟩
  · rintro err rfl
    cases h
  · rintro w durationMs tmpl rfl
    cases h

theorem every_test_answered_parallel :
    ∃ s, (executeRun 4 twoTests pyConfig).machine.exec ⟨startRun false, []⟩
        parallelRun = some s ∧
      TestsAnswered twoTests pyConfig s.shared ∧
      (response twoTests s.shared).isSome := by
  have hinit : (executeRun 4 twoTests pyConfig).machine.init ⟨startRun false, []⟩ :=
    ⟨⟨false, rfl⟩, rfl⟩
  have hsetup := Machine.reach_of_execIf setupCheck_sound parallelRun
    (.start hinit) rfl
  exact ⟨_, rfl, (every_test_answered validate_twoTests).1 hsetup, rfl⟩

theorem no_test_answered_without_jail :
    validateRun (fun _ => []) pyRegistry (.ok twoTests) = .ok (twoTests, pyConfig) ∧
    ¬ ∀ s, (executeRun 4 twoTests pyConfig).machine.Reachable s →
      TestsAnswered twoTests pyConfig s.shared := by
  refine ⟨validate_twoTests, fun h => ?_⟩
  have hinit : (executeRun 4 twoTests pyConfig).machine.init ⟨startRun false, []⟩ :=
    ⟨⟨false, rfl⟩, rfl⟩
  have hr := Machine.reachable_of_exec noSpaceRun hinit rfl
  exact absurd (h _ hr _ rfl).1 (by decide)

end Goboxd.Api
