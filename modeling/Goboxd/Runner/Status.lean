import Goboxd.Lib.GoParse
import Goboxd.Models

/-!
# From an exit to a status

How the state of a finished process becomes the exit facts of a result, and how
those, the kills that were detected and the output become the test's status.
The order of the checks is the source's, and it matters: a cancellation wins
over every limit, and a detected kill wins over the wait status that looks the
same for all of them.
-/

namespace Goboxd.Runner

open Go Models

/-- `ctx.Err()` of a context that is done. -/
inductive CtxErr where
  | canceled
  | deadlineExceeded
deriving DecidableEq, Repr

inductive WaitStatus where
  | exited (code : Int)
  | signaled (sig : Int)
deriving DecidableEq, Repr

def SIGABRT : Int := 6
def SIGKILL : Int := 9
def SIGSEGV : Int := 11
def SIGXCPU : Int := 24

def exitFacts (ps : Option WaitStatus) : Int × Int :=
  match ps with
  | none => (0, 0)
  | some (.signaled sig) => (-1, sig)
  | some (.exited code) =>
      if code ≥ 129 ∧ code ≤ 192 then (code, code - 128) else (code, 0)

/-- A wait status as a result status; `unset` means no signal kill. -/
def signalReasonFromStatus : WaitStatus → ResultStatus
  | .exited code =>
      if code = 128 + SIGXCPU then .cpuTimeExceeded else .unset
  | .signaled sig =>
      if sig = SIGKILL then .timeExceeded
      else if sig = SIGSEGV ∨ sig = SIGABRT then .memoryExceeded
      else if sig = SIGXCPU then .cpuTimeExceeded
      else .runtimeError

def signalKillReason (ps : Option WaitStatus) : ResultStatus :=
  ps.elim .unset signalReasonFromStatus

/-- `cpuOutcome`: the limit and the measured time in microseconds, and whether
the poller killed the process. -/
structure CpuOutcome where
  limitUS : Int
  timeUS : Int
  killed : Bool
deriving DecidableEq, Repr

def compareOutput (stdout expected : GoString) : ResultStatus :=
  if expected = [] then .accepted
  else if stdout = expected then .accepted
  else if trimSpace stdout = trimSpace expected then .whitespaceMismatch
  else .wrongOutput

/-- What an exec error means once no kill was detected. -/
def errorStatus (err : GoString) (ps : Option WaitStatus) (cpu : CpuOutcome) :
    ResultStatus :=
  if signalKillReason ps ≠ .unset then signalKillReason ps
  else if contains err (str "exit status 137") then
    if cpu.limitUS > 0 ∧ cpu.timeUS ≥ cpu.limitUS then .cpuTimeExceeded
    else .timeExceeded
  else .runtimeError

def computeTestStatus (ctxErr : Option CtxErr) (err : Option GoString)
    (stdout expected : GoString) (ps : Option WaitStatus) (oomKilled : Bool)
    (cpu : CpuOutcome) : ResultStatus :=
  if ctxErr = some .canceled then .cancelled
  else if oomKilled then .memoryExceeded
  else if cpu.killed ∨ (err ≠ none ∧ signalKillReason ps = .cpuTimeExceeded) then
    .cpuTimeExceeded
  else if ctxErr = some .deadlineExceeded then .timeExceeded
  else
    match err with
    | some err => errorStatus err ps cpu
    | none => compareOutput stdout expected

/-! ## When a status is the comparison's -/

theorem errorStatus_ne_accepted (err : GoString) (ps : Option WaitStatus)
    (cpu : CpuOutcome) : errorStatus err ps cpu ≠ .accepted := by
  unfold errorStatus
  split
  · cases ps with
    | none => exact ResultStatus.noConfusion
    | some st =>
        simp only [signalKillReason, Option.elim, signalReasonFromStatus]
        split <;> (repeat' split) <;> exact ResultStatus.noConfusion
  · (repeat' split) <;> exact ResultStatus.noConfusion

theorem compareOutput_accepted_iff (stdout : GoString) {expected : GoString}
    (h : expected ≠ []) :
    compareOutput stdout expected = .accepted ↔ stdout = expected := by
  rw [compareOutput, if_neg h]
  split
  · next heq => simp [heq]
  · next hne => split <;> simp [hne]

/-- A test is accepted only by the comparison, and only when nothing went
wrong before it. -/
theorem computeTestStatus_accepted_iff {ctxErr : Option CtxErr}
    {err : Option GoString} {stdout expected : GoString}
    {ps : Option WaitStatus} {oomKilled : Bool} {cpu : CpuOutcome} :
    computeTestStatus ctxErr err stdout expected ps oomKilled cpu = .accepted ↔
      ctxErr = none ∧ err = none ∧ oomKilled = false ∧ cpu.killed = false ∧
        compareOutput stdout expected = .accepted := by
  unfold computeTestStatus
  split
  · next hc => simp [hc]
  · next hc =>
      split
      · next hoom => simp [hoom]
      · next hoom =>
          split
          · next hcpu =>
              simp only [reduceCtorEq, false_iff, not_and]
              rintro - rfl - hk
              simp [hk] at hcpu
          · next hcpu =>
              split
              · next hd => simp [hd]
              · next hd =>
                  have hctx : ctxErr = none := by
                    cases ctxErr with
                    | none => rfl
                    | some e => cases e <;> contradiction
                  cases err with
                  | some err => simp [errorStatus_ne_accepted]
                  | none => simp_all

/-! ## What a test's status can be -/

/-- The statuses that say something about the program or the client, and not
about the service. -/
def isVerdict : ResultStatus → Bool
  | .unset | .buildFailed | .internalError | .notExecuted => false
  | _ => true

theorem signalReason_verdict {st : WaitStatus}
    (h : signalReasonFromStatus st ≠ .unset) :
    isVerdict (signalReasonFromStatus st) = true := by
  cases st with
  | exited code =>
      simp only [signalReasonFromStatus] at h ⊢
      split
      · rfl
      · next hne => simp [hne] at h
  | signaled sig =>
      simp only [signalReasonFromStatus]
      (repeat' split) <;> rfl

theorem errorStatus_verdict (err : GoString) (ps : Option WaitStatus)
    (cpu : CpuOutcome) : isVerdict (errorStatus err ps cpu) = true := by
  unfold errorStatus
  split
  · next hne =>
      cases ps with
      | none => exact absurd rfl hne
      | some st => exact signalReason_verdict hne
  · (repeat' split) <;> rfl

theorem compareOutput_verdict (stdout expected : GoString) :
    isVerdict (compareOutput stdout expected) = true := by
  unfold compareOutput
  (repeat' split) <;> rfl

theorem computeTestStatus_verdict (ctxErr : Option CtxErr) (err : Option GoString)
    (stdout expected : GoString) (ps : Option WaitStatus) (oomKilled : Bool)
    (cpu : CpuOutcome) :
    isVerdict (computeTestStatus ctxErr err stdout expected ps oomKilled cpu) =
      true := by
  unfold computeTestStatus
  (repeat' split)
  all_goals first
    | rfl
    | exact errorStatus_verdict _ _ _
    | exact compareOutput_verdict _ _

end Goboxd.Runner
