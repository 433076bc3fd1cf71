import Goboxd.Lib.Family
import Goboxd.Runner.Exec

/-!
# `ExecuteRun`

One call of `ExecuteRun` as a family: the caller's own path through the
template jail, the build and the loop over the tests is the environment, and
the goroutines of the parallel mode are the processes. In the sequential mode
there are none. What the system answers is in the actions, and the client may
cancel the request's context between any two steps; a context that is done
stays done.

`log` is kept for the specification: what was tried for which test, in the
order in which the results were stored.
-/

namespace Goboxd.Runner

open Go Models Config

/-- What came of a test that the loop took up: its own jail could not be made
or seeded (parallel mode), or it went through `runSingleTest`. -/
inductive Attempt where
  | noJail (err : GoString)
  | noSeed (err : GoString)
  | ran (w : TestWorld) (j : JailFields)

def internalErrorResult (stderr : GoString) : TestResult :=
  { TestResult.zero with status := .internalError, stderr := stderr }

/-- The result stored for an attempt. -/
def Attempt.result (req : RunRequest) (lc : LanguageConfig) (tc : TestCase) :
    Attempt → TestResult
  | .noJail err => internalErrorResult err
  | .noSeed err => internalErrorResult (str "seeding jail: " ++ err)
  | .ran w j => runSingleTest w tc lc j req

/-- Where the call is. A test of the sequential loop carries what
`runSingleTest` read from the context at its start. -/
inductive RunPc where
  | newJail
  | build (tmpl : JailFields)
  /-- At the head of the sequential loop. -/
  | loop (tmpl : JailFields) (i : Nat)
  | test (tmpl : JailFields) (i : Nat) (tc : TestCase)
  | exec (tmpl : JailFields) (i : Nat) (tc : TestCase) (ctxErr : Option CtxErr)
  /-- At the head of the parallel loop. -/
  | spawn (i : Nat)
  | acquire (i : Nat) (tc : TestCase)
  | wait
  | returned (build : BuildResult) (tests : List TestResult) (err : Option GoString)

/-- `ExecuteRun` has its results. -/
def RunPc.isReturned : RunPc → Bool
  | .returned .. => true
  | _ => false

/-- What the call and its goroutines share. -/
structure RunState where
  cancelled : Bool
  pc : RunPc
  build : BuildResult
  results : List TestResult
  sem : Int
  wg : Int
  log : List (Nat × Attempt)

/-- Where the goroutine of a test is. -/
inductive TestPc where
  | start
  | jailed (j : JailFields)
  | seeded (j : JailFields)
  | exec (j : JailFields) (ctxErr : Option CtxErr)
  /-- The result is stored; the receive from the semaphore is next. -/
  | stored
  | released
  | finished

/-- The goroutine's deferred calls are next. -/
def TestPc.atDefers : TestPc → Bool
  | .stored => true
  | _ => false

/-- The goroutine of test `idx`. -/
structure TestProc where
  idx : Nat
  tc : TestCase
  pc : TestPc

inductive RunEvent where
  | cancel
  | newJail (answer : Except GoString JailFields)
  | build (w : BuildWorld) (durationMs : Int)
  /-- The head of the loop: the next test, or its end. -/
  | next
  | begin
  | finish (w : TestWorld)
  | acquire
  | wait

inductive TestAct where
  | newJail (answer : Except GoString JailFields)
  | seed (answer : Option GoString)
  | begin
  | finish (w : TestWorld)
  | release
  | done

def RunState.setPc (s : RunState) (pc : RunPc) : RunState := { s with pc := pc }

/-- `ctx.Err()` of the request's context. -/
def RunState.ctxErr (s : RunState) : Option CtxErr :=
  if s.cancelled then some .canceled else none

/-- The answers of a context derived from the request's: it is cancelled only
when the request's is. -/
def RunState.derivedErr (s : RunState) (err : Option CtxErr) : Prop :=
  err = some .canceled → s.cancelled = true

instance (s : RunState) (err : Option CtxErr) : Decidable (s.derivedErr err) :=
  inferInstanceAs (Decidable (_ → _))

/-- After the build: the loop over the tests in its mode. -/
def RunState.startTests (numCPU : Int) (req : RunRequest) (s : RunState)
    (tmpl : JailFields) (build : BuildResult) : RunState :=
  if effectiveParallel numCPU req > 1 then
    { s with
      pc := .spawn 0
      build := build
      results := List.replicate req.tests.length .zero }
  else { s with pc := .loop tmpl 0, build := build, results := [] }

/-- After `runBuild`. -/
def RunState.finishBuild (numCPU : Int) (req : RunRequest) (s : RunState)
    (tmpl : JailFields) (build : BuildResult) (err : Option GoString) : RunState :=
  if err ≠ none then s.setPc (.returned build [] err)
  else if build.status ≠ .ok then s.setPc (.returned build [] none)
  else s.startTests numCPU req tmpl build

/-- The sequential loop appends a result. -/
def RunState.append (req : RunRequest) (lc : LanguageConfig) (s : RunState)
    (tmpl : JailFields) (i : Nat) (tc : TestCase) (a : Attempt) : RunState :=
  { s with
    pc := .loop tmpl (i + 1)
    results := s.results ++ [a.result req lc tc]
    log := s.log ++ [(i, a)] }

/-- A goroutine stores its result in its slot. -/
def RunState.store (req : RunRequest) (lc : LanguageConfig) (s : RunState)
    (p : TestProc) (a : Attempt) : RunState :=
  { s with
    results := s.results.set p.idx (a.result req lc p.tc)
    log := s.log ++ [(p.idx, a)] }

def RunState.addSem (s : RunState) (n : Int) : RunState := { s with sem := s.sem + n }

def RunState.addWg (s : RunState) (n : Int) : RunState := { s with wg := s.wg + n }

def RunState.cancel (s : RunState) : RunState := { s with cancelled := true }

def TestProc.setPc (p : TestProc) (pc : TestPc) : TestProc := { p with pc := pc }

def jailFailure (err : GoString) : BuildResult where
  status := .internalError
  stdout := []
  stderr := err
  durationMs := 0
  cpuTimeMs := 0

def buildSkipped : BuildResult where
  status := .ok
  stdout := []
  stderr := []
  durationMs := 0
  cpuTimeMs := 0

def testStep (req : RunRequest) (lc : LanguageConfig) (s : RunState)
    (p : TestProc) : TestAct → Option (RunState × TestProc)
  | .newJail answer =>
      match p.pc with
      | .start =>
          match answer with
          | .error err => some (s.store req lc p (.noJail err), p.setPc .stored)
          | .ok j => some (s, p.setPc (.jailed j))
      | _ => none
  | .seed answer =>
      match p.pc with
      | .jailed j =>
          match answer with
          | some err => some (s.store req lc p (.noSeed err), p.setPc .stored)
          | none => some (s, p.setPc (.seeded j))
      | _ => none
  | .begin =>
      match p.pc with
      | .seeded j => some (s, p.setPc (.exec j s.ctxErr))
      | _ => none
  | .finish w =>
      match p.pc with
      | .exec j ctxErr =>
          if w.ctxBefore = ctxErr ∧ s.derivedErr w.ctxAfter then
            some (s.store req lc p (.ran w j), p.setPc .stored)
          else none
      | _ => none
  | .release =>
      match p.pc with
      | .stored => some (s.addSem (-1), p.setPc .released)
      | _ => none
  | .done =>
      match p.pc with
      | .released => some (s.addWg (-1), p.setPc .finished)
      | _ => none

/-- A step of the call itself, or of the client. -/
def runEvent (numCPU : Int) (req : RunRequest) (lc : LanguageConfig)
    (s : RunState) : RunEvent → Option (RunState × List TestProc)
  | .cancel => some (s.cancel, [])
  | .newJail answer =>
      match s.pc with
      | .newJail =>
          match answer with
          | .error err =>
              some (s.setPc (.returned (jailFailure err) []
                (some (str "materializing jail: " ++ err))), [])
          | .ok tmpl =>
              if lc.buildCmd ≠ [] then some (s.setPc (.build tmpl), [])
              else some (s.startTests numCPU req tmpl buildSkipped, [])
      | _ => none
  | .build w durationMs =>
      match s.pc with
      | .build tmpl =>
          if s.derivedErr w.ctxAfter then
            let res := runBuild w tmpl req lc
            some (s.finishBuild numCPU req tmpl
              { res.1 with durationMs := durationMs } res.2, [])
          else none
      | _ => none
  | .next =>
      match s.pc with
      | .loop tmpl i =>
          match req.tests[i]? with
          | none => some (s.setPc (.returned s.build s.results none), [])
          | some tc =>
              if s.ctxErr ≠ none then
                some (s.setPc (.returned s.build s.results none), [])
              else some (s.setPc (.test tmpl i tc), [])
      | .spawn i =>
          match req.tests[i]? with
          | none => some (s.setPc .wait, [])
          | some tc =>
              if s.ctxErr ≠ none then some (s.setPc .wait, [])
              else some ((s.addWg 1).setPc (.acquire i tc), [])
      | _ => none
  | .begin =>
      match s.pc with
      | .test tmpl i tc => some (s.setPc (.exec tmpl i tc s.ctxErr), [])
      | _ => none
  | .finish w =>
      match s.pc with
      | .exec tmpl i tc ctxErr =>
          if w.ctxBefore = ctxErr ∧ s.derivedErr w.ctxAfter then
            some (s.append req lc tmpl i tc (.ran w tmpl), [])
          else none
      | _ => none
  | .acquire =>
      match s.pc with
      | .acquire i tc =>
          if s.sem < effectiveParallel numCPU req then
            some ((s.addSem 1).setPc (.spawn (i + 1)), [⟨i, tc, .start⟩])
          else none
      | _ => none
  | .wait =>
      match s.pc with
      | .wait =>
          if s.wg = 0 then some (s.setPc (.returned s.build s.results none), [])
          else none
      | _ => none

def startRun (cancelled : Bool) : RunState where
  cancelled := cancelled
  pc := .newJail
  build := buildSkipped
  results := []
  sem := 0
  wg := 0
  log := []

/-- `ExecuteRun` of a request. The client may be gone when it starts. -/
def executeRun (numCPU : Int) (req : RunRequest) (lc : LanguageConfig) :
    Family RunState TestProc TestAct RunEvent where
  init s := ∃ cancelled, s = startRun cancelled
  own _ := testStep req lc
  env := runEvent numCPU req lc

/-! ## What a step can be -/

inductive TestMove (req : RunRequest) (lc : LanguageConfig) (s : RunState)
    (p : TestProc) : TestAct → RunState × TestProc → Prop where
  | noJail {err : GoString} (hp : p.pc = .start) :
      TestMove req lc s p (.newJail (.error err))
        (s.store req lc p (.noJail err), p.setPc .stored)
  | jailed {j : JailFields} (hp : p.pc = .start) :
      TestMove req lc s p (.newJail (.ok j)) (s, p.setPc (.jailed j))
  | noSeed {j : JailFields} {err : GoString} (hp : p.pc = .jailed j) :
      TestMove req lc s p (.seed (some err))
        (s.store req lc p (.noSeed err), p.setPc .stored)
  | seeded {j : JailFields} (hp : p.pc = .jailed j) :
      TestMove req lc s p (.seed none) (s, p.setPc (.seeded j))
  | begin {j : JailFields} (hp : p.pc = .seeded j) :
      TestMove req lc s p .begin (s, p.setPc (.exec j s.ctxErr))
  | finish {j : JailFields} {w : TestWorld} (hp : p.pc = .exec j w.ctxBefore)
      (hafter : s.derivedErr w.ctxAfter) :
      TestMove req lc s p (.finish w)
        (s.store req lc p (.ran w j), p.setPc .stored)
  | release (hp : p.pc = .stored) :
      TestMove req lc s p .release (s.addSem (-1), p.setPc .released)
  | done (hp : p.pc = .released) :
      TestMove req lc s p .done (s.addWg (-1), p.setPc .finished)

theorem testStep_move {req : RunRequest} {lc : LanguageConfig} {s : RunState}
    {p : TestProc} {a : TestAct} {r : RunState × TestProc}
    (h : testStep req lc s p a = some r) : TestMove req lc s p a r := by
  cases a with
  | newJail answer =>
      simp only [testStep] at h
      split at h
      · next hp =>
          cases answer with
          | error err => cases h; exact .noJail hp
          | ok j => cases h; exact .jailed hp
      · cases h
  | seed answer =>
      simp only [testStep] at h
      split at h
      · next hp =>
          cases answer with
          | some err => cases h; exact .noSeed hp
          | none => cases h; exact .seeded hp
      · cases h
  | begin =>
      simp only [testStep] at h
      split at h
      · next hp => cases h; exact .begin hp
      · cases h
  | finish w =>
      simp only [testStep] at h
      split at h
      · next hp =>
          split at h
          · next hc =>
              cases h
              obtain ⟨rfl, hafter⟩ := hc
              exact .finish hp hafter
          · cases h
      · cases h
  | release =>
      simp only [testStep] at h
      split at h
      · next hp => cases h; exact .release hp
      · cases h
  | done =>
      simp only [testStep] at h
      split at h
      · next hp => cases h; exact .done hp
      · cases h

inductive RunMove (numCPU : Int) (req : RunRequest) (lc : LanguageConfig)
    (s : RunState) : RunEvent → RunState × List TestProc → Prop where
  | cancel : RunMove numCPU req lc s .cancel (s.cancel, [])
  | jailFails {err : GoString} (hp : s.pc = .newJail) :
      RunMove numCPU req lc s (.newJail (.error err))
        (s.setPc (.returned (jailFailure err) []
          (some (str "materializing jail: " ++ err))), [])
  | compiled {tmpl : JailFields} (hp : s.pc = .newJail) (hb : lc.buildCmd ≠ []) :
      RunMove numCPU req lc s (.newJail (.ok tmpl)) (s.setPc (.build tmpl), [])
  | interpreted {tmpl : JailFields} (hp : s.pc = .newJail) (hb : lc.buildCmd = []) :
      RunMove numCPU req lc s (.newJail (.ok tmpl))
        (s.startTests numCPU req tmpl buildSkipped, [])
  | build {tmpl : JailFields} {w : BuildWorld} {durationMs : Int}
      (hp : s.pc = .build tmpl) (hafter : s.derivedErr w.ctxAfter) :
      RunMove numCPU req lc s (.build w durationMs)
        (s.finishBuild numCPU req tmpl
          { (runBuild w tmpl req lc).1 with durationMs := durationMs }
          (runBuild w tmpl req lc).2, [])
  | loopEnds {tmpl : JailFields} {i : Nat} (hp : s.pc = .loop tmpl i)
      (hend : req.tests[i]? = none ∨ s.cancelled = true) :
      RunMove numCPU req lc s .next
        (s.setPc (.returned s.build s.results none), [])
  | loopNext {tmpl : JailFields} {i : Nat} {tc : TestCase}
      (hp : s.pc = .loop tmpl i) (htc : req.tests[i]? = some tc) :
      RunMove numCPU req lc s .next (s.setPc (.test tmpl i tc), [])
  | spawnEnds {i : Nat} (hp : s.pc = .spawn i)
      (hend : req.tests[i]? = none ∨ s.cancelled = true) :
      RunMove numCPU req lc s .next (s.setPc .wait, [])
  | spawnNext {i : Nat} {tc : TestCase} (hp : s.pc = .spawn i)
      (htc : req.tests[i]? = some tc) :
      RunMove numCPU req lc s .next ((s.addWg 1).setPc (.acquire i tc), [])
  | begin {tmpl : JailFields} {i : Nat} {tc : TestCase}
      (hp : s.pc = .test tmpl i tc) :
      RunMove numCPU req lc s .begin (s.setPc (.exec tmpl i tc s.ctxErr), [])
  | finish {tmpl : JailFields} {i : Nat} {tc : TestCase} {w : TestWorld}
      (hp : s.pc = .exec tmpl i tc w.ctxBefore)
      (hafter : s.derivedErr w.ctxAfter) :
      RunMove numCPU req lc s (.finish w)
        (s.append req lc tmpl i tc (.ran w tmpl), [])
  | acquire {i : Nat} {tc : TestCase} (hp : s.pc = .acquire i tc)
      (hsem : s.sem < effectiveParallel numCPU req) :
      RunMove numCPU req lc s .acquire
        ((s.addSem 1).setPc (.spawn (i + 1)), [⟨i, tc, .start⟩])
  | wait (hp : s.pc = .wait) (hwg : s.wg = 0) :
      RunMove numCPU req lc s .wait
        (s.setPc (.returned s.build s.results none), [])

theorem RunState.ctxErr_ne_none {s : RunState} :
    s.ctxErr ≠ none ↔ s.cancelled = true := by
  unfold RunState.ctxErr
  split
  · next h => simp [h]
  · next h => simp [h]

theorem runEvent_move {numCPU : Int} {req : RunRequest} {lc : LanguageConfig}
    {s : RunState} {e : RunEvent} {r : RunState × List TestProc}
    (h : runEvent numCPU req lc s e = some r) : RunMove numCPU req lc s e r := by
  cases e with
  | cancel => cases h; exact .cancel
  | newJail answer =>
      simp only [runEvent] at h
      split at h
      · next hp =>
          cases answer with
          | error err => cases h; exact .jailFails hp
          | ok tmpl =>
              simp only [] at h
              split at h
              · next hb => cases h; exact .compiled hp hb
              · next hb => cases h; exact .interpreted hp (not_not.mp hb)
      · cases h
  | build w durationMs =>
      simp only [runEvent] at h
      split at h
      · next hp =>
          split at h
          · next hafter => cases h; exact .build hp hafter
          · cases h
      · cases h
  | next =>
      simp only [runEvent] at h
      split at h
      · next hp =>
          split at h
          · next htc => cases h; exact .loopEnds hp (.inl htc)
          · next htc =>
              split at h
              · next hc => cases h; exact .loopEnds hp (.inr (RunState.ctxErr_ne_none.mp hc))
              · cases h; exact .loopNext hp htc
      · next hp =>
          split at h
          · next htc => cases h; exact .spawnEnds hp (.inl htc)
          · next htc =>
              split at h
              · next hc => cases h; exact .spawnEnds hp (.inr (RunState.ctxErr_ne_none.mp hc))
              · cases h; exact .spawnNext hp htc
      · cases h
  | begin =>
      simp only [runEvent] at h
      split at h
      · next hp => cases h; exact .begin hp
      · cases h
  | finish w =>
      simp only [runEvent] at h
      split at h
      · next hp =>
          split at h
          · next hc =>
              cases h
              obtain ⟨rfl, hafter⟩ := hc
              exact .finish hp hafter
          · cases h
      · cases h
  | acquire =>
      simp only [runEvent] at h
      split at h
      · next hp =>
          split at h
          · next hsem => cases h; exact .acquire hp hsem
          · cases h
      · cases h
  | wait =>
      simp only [runEvent] at h
      split at h
      · next hp =>
          split at h
          · next hwg => cases h; exact .wait hp hwg
          · cases h
      · cases h

end Goboxd.Runner
