import Goboxd.Api.Admission
import Goboxd.Api.Validate
import Goboxd.Runner.Execute

/-!
# The end of `HandleRun`

What the handler makes of the answer of `ExecuteRun`: nothing when the client
is gone, an early answer when the build result is itself an internal error, a
500 for any other error, and otherwise the response with the top-level status.
And what it makes of a refusal by the gate, after which there is no run.
-/

namespace Goboxd.Api

open Go Models Config Runner

def firstNotAccepted : List TestResult → ResultStatus
  | [] => .accepted
  | t :: rest =>
      if t.status ≠ .accepted then
        if t.status.valid then t.status else .notExecuted
      else firstNotAccepted rest

def computeTopLevelStatus (build : BuildResult) (tests : List TestResult) :
    ResultStatus :=
  if build.status = .internalError then .internalError
  else if !build.status.valid then .buildFailed
  else if build.status ≠ .ok then .buildFailed
  else if tests.any fun t => t.status = .internalError then .internalError
  else firstNotAccepted tests

/-- What is written to the client. A 200 carries the top-level status also in
its `X-Run-Status` header. -/
inductive Answer where
  | nothing
  | run (xRunStatus : GoString) (resp : RunResponse)
  | error (code : Nat) (detail : ErrorDetail)
deriving DecidableEq, Repr

/-- The answer with the status and the error mark given to `recordRun`, and
whether the time of the last internal error is set. -/
structure Handled where
  answer : Answer
  record : GoString × Bool
  lastInternalErr : Bool
deriving DecidableEq, Repr

/-- The tests of the response, rewritten when the top-level status is
`build_failed` or `internal_error`. -/
def sentTests (req : RunRequest) (top : ResultStatus) (tests : List TestResult) :
    List TestResult :=
  if top = .buildFailed ∨ top = .internalError then
    let tests :=
      -- `testsRes == nil`: the parallel mode makes a list as long as `req.Tests`
      if tests = [] ∧ req.tests.length > 0 then
        List.replicate req.tests.length .zero
      else tests
    tests.map fun t => { t with status := .notExecuted }
  else tests

/-- `HandleRun` after `ExecuteRun`. -/
def finishRun (clientGone : Bool) (req : RunRequest) (build : BuildResult)
    (tests : List TestResult) (err : Option GoString) : Handled :=
  if clientGone then
    { answer := .nothing
      record := (ResultStatus.cancelled.text, err.isSome)
      lastInternalErr := err.isSome }
  else if err ≠ none then
    if build.status = .internalError then
      { answer :=
          .run ResultStatus.internalError.text
            { status := ResultStatus.internalError.text
              build := build
              tests := [] }
        record := (ResultStatus.internalError.text, true)
        lastInternalErr := false }
    else
      { answer :=
          .error 500
            { code := str "internal_error", message := str "sandbox execution failed" }
        record := (ResultStatus.internalError.text, true)
        lastInternalErr := true }
  else
    let top := computeTopLevelStatus build tests
    { answer :=
        .run top.text
          { status := top.text, build := build, tests := sentTests req top tests }
      record := (top.text, top = .internalError)
      lastInternalErr := false }

/-- `classifyAcquireErr`: the recorded status, and whether it is an error. -/
def classifyAcquireErr (clientGone : Bool) (err : AcquireErr) : GoString × Bool :=
  if clientGone = false ∧ err = .errShuttingDown then (str "shutting_down", true)
  else (ResultStatus.cancelled.text, false)

/-- `HandleRun` when `acquire` returns an error. -/
def refuseRun (clientGone : Bool) (err : AcquireErr) : Handled :=
  if err = .errQueueFull then
    { answer :=
        .error 503
          { code := str "queue_full"
            message := str "server is at capacity: too many jobs queued, retry shortly" }
      record := (str "queue_full", true)
      lastInternalErr := false }
  else
    { answer :=
        if (classifyAcquireErr clientGone err).2 then
          .error 503
            { code := str "shutting_down"
              message := str "server is shutting down: retry shortly" }
        else .nothing
      record := classifyAcquireErr clientGone err
      lastInternalErr := false }

def Answer.body : Answer → Option RunResponse
  | .run _ resp => some resp
  | _ => none

/-- The 200 that `HandleRun` writes when it reaches its end in this state of
the call. -/
def response (req : RunRequest) (s : RunState) : Option RunResponse :=
  match s.pc with
  | .returned build tests err => (finishRun s.cancelled req build tests err).answer.body
  | _ => none

/-! ## What is sent -/

theorem computeTopLevelStatus_of_not_ok {build : BuildResult}
    (tests : List TestResult) (h : build.status ≠ .ok) :
    computeTopLevelStatus build tests = .buildFailed ∨
      computeTopLevelStatus build tests = .internalError := by
  unfold computeTopLevelStatus
  split
  · exact .inr rfl
  · split <;> exact .inl rfl

theorem sentTests_kept {req : RunRequest} {top : ResultStatus}
    {tests : List TestResult} (h : ¬ (top = .buildFailed ∨ top = .internalError)) :
    sentTests req top tests = tests := by
  rw [sentTests, if_neg h]

/-- A rewritten response has as many tests as the request when no test was
taken up, and as many as there are results otherwise. -/
theorem sentTests_length {req : RunRequest} {top : ResultStatus}
    {tests : List TestResult}
    (h : tests.length = req.tests.length ∨
      (tests = [] ∧ (top = .buildFailed ∨ top = .internalError))) :
    (sentTests req top tests).length = req.tests.length := by
  unfold sentTests
  split
  · simp only [List.length_map]
    split
    · exact List.length_replicate
    · next hne =>
        rcases h with h | ⟨rfl, -⟩
        · exact h
        · simp only [true_and, Nat.not_lt, Nat.le_zero] at hne
          rw [hne]
          rfl
  · next hkept => exact h.resolve_right fun h => hkept h.2

theorem sentTests_entry {req : RunRequest} {top : ResultStatus}
    {tests : List TestResult} {i : Nat} {r : TestResult}
    (h : (sentTests req top tests)[i]? = some r) :
    tests[i]? = some r ∨ r.status = .notExecuted := by
  unfold sentTests at h
  split at h
  · simp only [List.getElem?_map, Option.map_eq_some_iff] at h
    obtain ⟨r', -, rfl⟩ := h
    exact .inr rfl
  · exact .inl h

end Goboxd.Api
