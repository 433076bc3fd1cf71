import Goboxd.Proofs.RunResults

/-!
# Where an internal error comes from

Three kinds of steps of a call can go wrong in a way that is not the program's:
making a jail, seeding one, and starting an exec. A run in which none of them
does has no internal error anywhere, in no result and in no build result, and
returns no error. And each of them, when it goes wrong, leaves one: the build by
its result, a test by what is stored for it.

Which failures there are in a run is what the statements about faults differ
in, so here it is kept apart from them. `execOf` reads off a step the exec that
it completes.
-/

namespace Goboxd.Runner

open Go Models Config Family

variable {numCPU : Int} {req : RunRequest} {lc : LanguageConfig}
  {s t : St RunState TestProc}

/-- A call of `execJail`, with what its caller's context answers afterwards. -/
structure ExecCall where
  w : ExecWorld
  j : JailFields
  cmdArgs : List GoString
  lim : ExecLimits
  ctxAfter : Option CtxErr

def buildCall (req : RunRequest) (lc : LanguageConfig) (w : BuildWorld)
    (j : JailFields) : ExecCall where
  w := w.exec
  j := j
  cmdArgs := buildCmdArgs req lc
  lim := stageLimits lc.buildLimits req.build
  ctxAfter := w.ctxAfter

def testCall (req : RunRequest) (lc : LanguageConfig) (w : TestWorld)
    (j : JailFields) : ExecCall where
  w := w.exec
  j := j
  cmdArgs := runCmdArgs req lc
  lim := stageLimits lc.runLimits req.run
  ctxAfter := w.ctxAfter

/-- The jail in which a goroutine runs its test. -/
def TestPc.execJail : TestPc → Option JailFields
  | .exec j _ => some j
  | _ => none

/-- The same for the sequential loop. -/
def RunPc.execJail : RunPc → Option JailFields
  | .exec j _ _ _ => some j
  | _ => none

def RunPc.buildJail : RunPc → Option JailFields
  | .build j => some j
  | _ => none

/-- The exec that a step completes. A test whose context was done at its start
makes none. -/
def execOf (req : RunRequest) (lc : LanguageConfig) (s : St RunState TestProc) :
    Act TestAct RunEvent → Option ExecCall
  | .env (.build w _) => s.shared.pc.buildJail.map (buildCall req lc w)
  | .env (.finish w) =>
      if w.ctxBefore = none then s.shared.pc.execJail.map (testCall req lc w)
      else none
  | .own p (.finish w) =>
      if w.ctxBefore = none then
        (s.procs[p]?.bind fun l => l.pc.execJail).map (testCall req lc w)
      else none
  | _ => none

/-- The exec cannot be started. -/
def ExecCall.fails (c : ExecCall) : Prop := StartFails c.w c.j c.cmdArgs c.lim

/-- The step makes a jail, or seeds one, and fails. -/
def jailFails : Act TestAct RunEvent → Bool
  | .env (.newJail (.error _)) => true
  | .own _ (.newJail (.error _)) => true
  | .own _ (.seed (some _)) => true
  | _ => false

/-- Nothing goes wrong in this step. -/
def StepWorks (req : RunRequest) (lc : LanguageConfig) (s : St RunState TestProc)
    (a : Act TestAct RunEvent) : Prop :=
  jailFails a = false ∧ ∀ c, execOf req lc s a = some c → ¬ c.fails

/-- No part of what the call has produced says internal error. -/
structure NoInternal (req : RunRequest) (lc : LanguageConfig) (s : RunState) :
    Prop where
  log : ∀ x ∈ s.log, ∀ tc, (x.2.result req lc tc).status ≠ .internalError
  results : ∀ r ∈ s.results, r.status ≠ .internalError
  build : s.build.status ≠ .internalError
  returned : ∀ build tests err, s.pc = .returned build tests err →
    err = none ∧ build.status ≠ .internalError ∧
      ∀ r ∈ tests, r.status ≠ .internalError

/-! ## The result of an attempt -/

theorem ran_internal_iff {w : TestWorld} {j : JailFields} {tc : TestCase} :
    ((Attempt.ran w j).result req lc tc).status = .internalError ↔
      w.ctxBefore = none ∧ (testCall req lc w j).fails := by
  by_cases hctx : w.ctxBefore = none
  · rw [Attempt.result, runSingleTest_internal_iff hctx]
    simp only [hctx, true_and]
    exact execJail_infra_iff _ _ _ _ _ _
  · simp [Attempt.result, runSingleTest, hctx, failResult]

/-! ## A client that is gone -/

theorem NoInternal.of_same {sh r : RunState} (h : NoInternal req lc sh)
    (hlog : r.log = sh.log) (hres : r.results = sh.results)
    (hbuild : r.build = sh.build)
    (hret : ∀ build tests err, r.pc = .returned build tests err →
      err = none ∧ build.status ≠ .internalError ∧
        ∀ x ∈ tests, x.status ≠ .internalError) :
    NoInternal req lc r :=
  ⟨hlog ▸ h.log, hres ▸ h.results, hbuild ▸ h.build, hret⟩

theorem NoInternal.store {sh : RunState} (h : NoInternal req lc sh)
    {p : TestProc} {att : Attempt}
    (hatt : ∀ tc, (att.result req lc tc).status ≠ .internalError) :
    NoInternal req lc (sh.store req lc p att) := by
  refine ⟨fun x hx => ?_, fun r hr => ?_, h.build, h.returned⟩
  · rcases List.mem_append.mp hx with hx | hx
    · exact h.log x hx
    · rw [List.mem_singleton.mp hx]
      exact hatt
  · rcases List.mem_or_eq_of_mem_set hr with hr | rfl
    · exact h.results r hr
    · exact hatt p.tc

theorem NoInternal.append {sh : RunState} (h : NoInternal req lc sh)
    {tmpl : JailFields} {i : Nat} {tc : TestCase} {att : Attempt}
    (hatt : ∀ tc, (att.result req lc tc).status ≠ .internalError) :
    NoInternal req lc (sh.append req lc tmpl i tc att) := by
  refine ⟨fun x hx => ?_, fun r hr => ?_, h.build, fun _ _ _ hpc => nomatch hpc⟩
  · rcases List.mem_append.mp hx with hx | hx
    · exact h.log x hx
    · rw [List.mem_singleton.mp hx]
      exact hatt
  · rcases List.mem_append.mp hr with hr | hr
    · exact h.results r hr
    · rw [List.mem_singleton.mp hr]
      exact hatt tc

theorem NoInternal.startTests {sh : RunState} (h : NoInternal req lc sh)
    (tmpl : JailFields) {build : BuildResult}
    (hb : build.status ≠ .internalError) :
    NoInternal req lc (sh.startTests numCPU req tmpl build) := by
  unfold RunState.startTests
  split
  · refine ⟨h.log, fun r hr => ?_, hb, fun _ _ _ hpc => nomatch hpc⟩
    rw [(List.mem_replicate.mp hr).2]
    exact ResultStatus.noConfusion
  · exact ⟨h.log, fun r hr => (nomatch hr), hb, fun _ _ _ hpc => nomatch hpc⟩

theorem NoInternal.finishBuild {sh : RunState} (h : NoInternal req lc sh)
    {tmpl : JailFields} {w : BuildWorld} (durationMs : Int)
    (hstarts : ¬ (buildCall req lc w tmpl).fails) :
    NoInternal req lc (sh.finishBuild numCPU req tmpl
      { (runBuild w tmpl req lc).1 with durationMs := durationMs }
      (runBuild w tmpl req lc).2) := by
  have hnone : (runBuild w tmpl req lc).2 = none := by
    by_contra hne
    exact hstarts (runBuild_err.1.mp hne).1
  have hb : (runBuild w tmpl req lc).1.status ≠ .internalError :=
    fun hi => runBuild_err_of_internal hi hnone
  unfold RunState.finishBuild
  rw [hnone, if_neg (by simp)]
  split
  · refine h.of_same rfl rfl rfl fun build tests err hpc => ?_
    cases hpc
    exact ⟨rfl, hb, fun r hr => nomatch hr⟩
  · exact h.startTests tmpl hb

theorem noInternal_own {q : Nat} {p : TestProc} {a : TestAct}
    {r : RunState × TestProc} (hq : s.procs[q]? = some p)
    (h : TestMove req lc s.shared p a r) (hw : StepWorks req lc s (.own q a))
    (hi : NoInternal req lc s.shared) : NoInternal req lc r.1 := by
  cases h with
  | noJail | noSeed => cases hw.1
  | jailed | seeded | begin | release | done => exact hi.of_same rfl rfl rfl hi.returned
  | @finish j w hp hafter =>
      refine hi.store fun tc hin => ?_
      obtain ⟨hctx, hfails⟩ := ran_internal_iff.mp hin
      refine hw.2 (testCall req lc w j) ?_ hfails
      simp [execOf, hctx, hq, hp, TestPc.execJail]

theorem noInternal_env {e : RunEvent} {r : RunState × List TestProc}
    (h : RunMove numCPU req lc s.shared e r) (hw : StepWorks req lc s (.env e))
    (hi : NoInternal req lc s.shared) : NoInternal req lc r.1 := by
  cases h with
  | cancel => exact hi.of_same rfl rfl rfl hi.returned
  | jailFails => cases hw.1
  | interpreted => exact hi.startTests _ (by decide)
  | @build tmpl w durationMs hp hafter =>
      refine hi.finishBuild durationMs (hw.2 _ ?_)
      simp [execOf, hp, RunPc.buildJail]
  | @finish tmpl i tc w hp hafter =>
      refine hi.append fun tc hin => ?_
      obtain ⟨hctx, hfails⟩ := ran_internal_iff.mp hin
      refine hw.2 (testCall req lc w tmpl) ?_ hfails
      simp [execOf, hctx, hp, RunPc.execJail]
  | loopEnds | wait =>
      refine hi.of_same rfl rfl rfl fun build tests err hpc => ?_
      cases hpc
      exact ⟨rfl, hi.build, hi.results⟩
  | compiled | loopNext | spawnEnds | spawnNext | begin | acquire =>
      exact hi.of_same rfl rfl rfl fun _ _ _ hpc => nomatch hpc

theorem noInternal_init (h : (executeRun numCPU req lc).machine.init s) :
    NoInternal req lc s.shared := by
  obtain ⟨⟨cancelled, hsh⟩, -⟩ := h
  rw [hsh]
  exact ⟨fun x hx => (nomatch hx), fun r hr => (nomatch hr),
    BuildStatus.noConfusion, fun _ _ _ hpc => nomatch hpc⟩

theorem noInternal_step {a : Act TestAct RunEvent}
    (hs : (executeRun numCPU req lc).machine.step s a = some t)
    (hw : StepWorks req lc s a) (hi : NoInternal req lc s.shared) :
    NoInternal req lc t.shared := by
  cases a with
  | own q a =>
      obtain ⟨p, r, hq, hr, rfl⟩ := step_own.mp hs
      exact noInternal_own hq (testStep_move hr) hw hi
  | env e =>
      obtain ⟨r, hr, rfl⟩ := step_env.mp hs
      exact noInternal_env (runEvent_move hr) hw hi

theorem noInternal_of_works
    (h : (executeRun numCPU req lc).machine.Reach (StepWorks req lc) s) :
    NoInternal req lc s.shared :=
  h.invariant (I := fun s => NoInternal req lc s.shared)
    (fun _ => noInternal_init) fun _ _ _ _ hi hw hs => noInternal_step hs hw hi

/-! ## Steps that go wrong -/

/-- An exec that cannot be started leaves an internal error, unless it is the
build's and its deadline has passed. -/
theorem internal_of_fails {a : Act TestAct RunEvent} {c : ExecCall}
    (hs : (executeRun numCPU req lc).machine.step s a = some t)
    (hc : execOf req lc s a = some c) (hfails : c.fails)
    (hd : c.ctxAfter ≠ some .deadlineExceeded) : ¬ NoInternal req lc t.shared := by
  intro hi
  cases a with
  | own q a =>
      obtain ⟨p, r, hq, hr, rfl⟩ := step_own.mp hs
      have hmove : TestMove req lc s.shared p a r := testStep_move hr
      cases hmove with
      | @finish j w hp hafter =>
          simp only [execOf, hq, hp, Option.bind_some, TestPc.execJail,
            Option.map_some] at hc
          split at hc
          · next hctx =>
              cases hc
              exact hi.log (p.idx, .ran w j)
                (List.mem_append_right _ (List.mem_singleton.mpr rfl)) p.tc
                (ran_internal_iff.mpr ⟨hctx, hfails⟩)
          · cases hc
      | _ => cases hc
  | env e =>
      obtain ⟨r, hr, rfl⟩ := step_env.mp hs
      have hmove : RunMove numCPU req lc s.shared e r := runEvent_move hr
      cases hmove with
      | @build tmpl w durationMs hp hafter =>
          simp only [execOf, hp, RunPc.buildJail, Option.map_some] at hc
          cases hc
          have herr : (runBuild w tmpl req lc).2 ≠ none :=
            runBuild_err.1.mpr ⟨hfails, hd⟩
          have hpc : (s.shared.finishBuild numCPU req tmpl
              { (runBuild w tmpl req lc).1 with durationMs := durationMs }
              (runBuild w tmpl req lc).2).pc =
                .returned { (runBuild w tmpl req lc).1 with durationMs := durationMs }
                  [] (runBuild w tmpl req lc).2 := by
            unfold RunState.finishBuild
            rw [if_pos herr]
            rfl
          exact herr (hi.returned _ _ _ hpc).1
      | @finish tmpl i tc w hp hafter =>
          simp only [execOf, hp, RunPc.execJail, Option.map_some] at hc
          split at hc
          · next hctx =>
              cases hc
              exact hi.log (i, .ran w tmpl)
                (List.mem_append_right _ (List.mem_singleton.mpr rfl)) tc
                (ran_internal_iff.mpr ⟨hctx, hfails⟩)
          · cases hc
      | _ => cases hc

end Goboxd.Runner
