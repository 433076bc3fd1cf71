import Goboxd.Api.Handlers
import Goboxd.Api.Metrics

/-!
# Requests and the metrics

The calls of `HandleRun` as processes over the gate and the metrics. Each call
validates its request, goes through `acquire`, and then either has its refusal
recorded or runs: it adds itself to `metrics.InFlight`, calls `ExecuteRun`, has
its end recorded, and the two deferred calls take it out of `metrics.InFlight`
and out of the gate.

What `ExecuteRun` answers is arbitrary here, and so are the durations. The gate
moves `metrics.Queued` under its own mutex; the step is the same. A client may
disconnect at any moment.
-/

namespace Goboxd.Api

open Go Models Config Runner

structure ApiState where
  gs : GateState
  metrics : Metrics
deriving DecidableEq, Repr

/-- Where a call of `HandleRun` is. -/
inductive HandlePc where
  | validating
  | rejected
  /-- In `acquire`, or just behind it. -/
  | acquiring (req : RunRequest)
  | running (req : RunRequest)
  | recording (r : RunRecord) (pc : RecordPc)
  /-- The deferred `release` is next. -/
  | releasing
  | returned

/-- A call of `HandleRun`: what the decoder makes of its body, and the calls of
`recordRun` it has begun. -/
structure HandleCall where
  decoded : Except GoString RunRequest
  caller : Caller
  pc : HandlePc
  records : List RunRecord

inductive HandleAct where
  | validate
  | gate (a : CallerAct)
  /-- The client disconnects. -/
  | disconnect
  | refuse (duration : Int)
  | count
  | finish (build : BuildResult) (tests : List TestResult) (err : Option GoString)
      (duration : Int)
  | record
  | uncount
  | release
  | ret

inductive ApiEvent where
  | request (decoded : Except GoString RunRequest)
  | stop

/-- The gate's step, which moves `metrics.Queued` as well. -/
def ApiState.setGate (s : ApiState) (gs : GateState) : ApiState where
  gs := gs
  metrics := { s.metrics with queued := gs.metricsQueued }

def ApiState.setMetrics (s : ApiState) (metrics : Metrics) : ApiState :=
  { s with metrics := metrics }

def ApiState.addInFlight (s : ApiState) (d : Int) : ApiState :=
  s.setMetrics { s.metrics with inFlight := s.metrics.inFlight + d }

def HandleCall.setPc (c : HandleCall) (pc : HandlePc) : HandleCall := { c with pc := pc }

def HandleCall.setCaller (c : HandleCall) (caller : Caller) : HandleCall :=
  { c with caller := caller }

/-- The call begins to record its end. -/
def HandleCall.beginRecord (c : HandleCall) (end_ : Handled) (duration : Int) :
    HandleCall :=
  let r : RunRecord := ⟨end_.record.1, duration, end_.record.2⟩
  { c with pc := .recording r .addTotal, records := r :: c.records }

def handleStep (getenv : Env) (reg : Registry) (s : ApiState) (c : HandleCall) :
    HandleAct → Option (ApiState × HandleCall)
  | .validate =>
      match c.pc with
      | .validating =>
          match validateRun getenv reg c.decoded with
          | .ok (req, _) => some (s, c.setPc (.acquiring req))
          | .error _ => some (s, c.setPc .rejected)
      | _ => none
  | .gate a =>
      match c.pc with
      | .acquiring _ =>
          if a = .release then none
          else
            (callerStep s.gs c.caller a).map fun r => (s.setGate r.1, c.setCaller r.2)
      | _ => none
  | .disconnect => some (s, c.setCaller { c.caller with ctxDone := true })
  | .refuse duration =>
      match c.pc, c.caller.phase with
      | .acquiring _, .failed e =>
          some (s, c.beginRecord (refuseRun c.caller.ctxDone e) duration)
      | _, _ => none
  | .count =>
      match c.pc, c.caller.phase with
      | .acquiring req, .admitted => some (s.addInFlight 1, c.setPc (.running req))
      | _, _ => none
  | .finish build tests err duration =>
      match c.pc with
      | .running req =>
          some (s, c.beginRecord (finishRun c.caller.ctxDone req build tests err) duration)
      | _ => none
  | .record =>
      match c.pc with
      | .recording r pc =>
          (recordStep s.metrics r pc).map fun o =>
            (s.setMetrics o.1, c.setPc (.recording r o.2))
      | _ => none
  | .uncount =>
      match c.pc, c.caller.phase with
      | .recording _ .returned, .admitted => some (s.addInFlight (-1), c.setPc .releasing)
      | _, _ => none
  | .release =>
      match c.pc with
      | .releasing =>
          (callerStep s.gs c.caller .release).map fun r =>
            (s.setGate r.1, (c.setCaller r.2).setPc .returned)
      | _ => none
  | .ret =>
      match c.pc, c.caller.phase with
      | .recording _ .returned, .failed _ => some (s, c.setPc .returned)
      | _, _ => none

def apiEvent (s : ApiState) : ApiEvent → ApiState × List HandleCall
  | .request decoded => (s, [⟨decoded, ⟨.entering, false⟩, .validating, []⟩])
  | .stop => (s.setGate (stop s.gs), [])

def newApiState (maxJobs maxQueued : Int) : ApiState where
  gs := newAdmissionGate maxJobs maxQueued
  metrics := newMetrics

/-- All requests of `POST /run` over the life of the process. -/
def requests (getenv : Env) (reg : Registry) (maxJobs maxQueued : Int) :
    Family ApiState HandleCall HandleAct ApiEvent where
  init s := s = newApiState maxJobs maxQueued
  own _ := handleStep getenv reg
  env s e := some (apiEvent s e)

/-! ## What a step can be -/

inductive HandleMove (getenv : Env) (reg : Registry) (s : ApiState) (c : HandleCall) :
    HandleAct → ApiState × HandleCall → Prop where
  | pass {req : RunRequest} {lc : LanguageConfig} (hpc : c.pc = .validating)
      (hval : validateRun getenv reg c.decoded = .ok (req, lc)) :
      HandleMove getenv reg s c .validate (s, c.setPc (.acquiring req))
  | reject {e : ErrorDetail} (hpc : c.pc = .validating)
      (hval : validateRun getenv reg c.decoded = .error e) :
      HandleMove getenv reg s c .validate (s, c.setPc .rejected)
  | gate {a : CallerAct} {r : GateState × Caller} {req : RunRequest}
      (hpc : c.pc = .acquiring req) (ha : a ≠ .release)
      (hm : CallerMove s.gs c.caller a r) :
      HandleMove getenv reg s c (.gate a) (s.setGate r.1, c.setCaller r.2)
  | disconnect :
      HandleMove getenv reg s c .disconnect (s, c.setCaller { c.caller with ctxDone := true })
  | refuse {req : RunRequest} {e : AcquireErr} {duration : Int}
      (hpc : c.pc = .acquiring req) (hph : c.caller.phase = .failed e) :
      HandleMove getenv reg s c (.refuse duration)
        (s, c.beginRecord (refuseRun c.caller.ctxDone e) duration)
  | count {req : RunRequest} (hpc : c.pc = .acquiring req)
      (hph : c.caller.phase = .admitted) :
      HandleMove getenv reg s c .count (s.addInFlight 1, c.setPc (.running req))
  | finish {req : RunRequest} {build : BuildResult} {tests : List TestResult}
      {err : Option GoString} {duration : Int} (hpc : c.pc = .running req) :
      HandleMove getenv reg s c (.finish build tests err duration)
        (s, c.beginRecord (finishRun c.caller.ctxDone req build tests err) duration)
  | record {r : RunRecord} {pc : RecordPc} {o : Metrics × RecordPc}
      (hpc : c.pc = .recording r pc) (ho : recordStep s.metrics r pc = some o) :
      HandleMove getenv reg s c .record (s.setMetrics o.1, c.setPc (.recording r o.2))
  | uncount {r : RunRecord} (hpc : c.pc = .recording r .returned)
      (hph : c.caller.phase = .admitted) :
      HandleMove getenv reg s c .uncount (s.addInFlight (-1), c.setPc .releasing)
  | release (hpc : c.pc = .releasing) (hph : c.caller.phase = .admitted) :
      HandleMove getenv reg s c .release
        (s.setGate (release s.gs),
          (c.setCaller { c.caller with phase := .released }).setPc .returned)
  | ret {r : RunRecord} {e : AcquireErr} (hpc : c.pc = .recording r .returned)
      (hph : c.caller.phase = .failed e) :
      HandleMove getenv reg s c .ret (s, c.setPc .returned)

theorem handleStep_move {getenv : Env} {reg : Registry} {s : ApiState} {c : HandleCall}
    {a : HandleAct} {r : ApiState × HandleCall}
    (h : handleStep getenv reg s c a = some r) : HandleMove getenv reg s c a r := by
  cases a with
  | validate =>
      rw [handleStep] at h
      split at h
      · next hpc =>
          split at h
          · next hval => cases h; exact .pass hpc hval
          · next hval => cases h; exact .reject hpc hval
      · cases h
  | gate a =>
      rw [handleStep] at h
      split at h
      · next hpc =>
          split at h
          · cases h
          · next ha =>
              obtain ⟨q, hq, rfl⟩ := Option.map_eq_some_iff.mp h
              exact .gate hpc ha (callerStep_move hq)
      · cases h
  | disconnect => cases h; exact .disconnect
  | refuse duration =>
      rw [handleStep] at h
      split at h
      · next hpc hph => cases h; exact .refuse hpc hph
      · cases h
  | count =>
      rw [handleStep] at h
      split at h
      · next hpc hph => cases h; exact .count hpc hph
      · cases h
  | finish build tests err duration =>
      rw [handleStep] at h
      split at h
      · next hpc => cases h; exact .finish hpc
      · cases h
  | record =>
      rw [handleStep] at h
      split at h
      · next hpc =>
          obtain ⟨o, ho, rfl⟩ := Option.map_eq_some_iff.mp h
          exact .record hpc ho
      · cases h
  | uncount =>
      rw [handleStep] at h
      split at h
      · next hpc hph => cases h; exact .uncount hpc hph
      · cases h
  | release =>
      rw [handleStep] at h
      split at h
      · next hpc =>
          obtain ⟨q, hq, rfl⟩ := Option.map_eq_some_iff.mp h
          cases callerStep_move hq with
          | release hph => exact .release hpc hph
      · cases h
  | ret =>
      rw [handleStep] at h
      split at h
      · next hpc hph => cases h; exact .ret hpc hph
      · cases h

/-! ## The job statistics -/

/-- `jobStatsSnapshot`; times are in nanoseconds. -/
structure JobStatsSnapshot where
  inFlight : Int
  total : Int
  failedInternal : Int
  lastErrorAt : Option Int
deriving DecidableEq, Repr

/-- `GetStats`. The zero `time.Time` of `lastInternalErr` is `none`. -/
def GetStats (m : Metrics) (lastInternalErr : Option Int) : JobStatsSnapshot where
  inFlight := m.inFlight
  total := m.totalRuns
  failedInternal := m.errors
  lastErrorAt := lastInternalErr

/-- How a request ended: by its validation, by the gate, or by what `ExecuteRun`
answered. -/
inductive RunEnd where
  | rejected
  | refused (clientGone : Bool) (e : AcquireErr)
  | ran (clientGone : Bool) (req : RunRequest) (build : BuildResult)
      (tests : List TestResult) (err : Option GoString)

/-- What `HandleRun` does at that end. -/
def RunEnd.handled : RunEnd → Option Handled
  | .rejected => none
  | .refused clientGone e => some (refuseRun clientGone e)
  | .ran clientGone req build tests err => some (finishRun clientGone req build tests err)

/-- A run ends with what some call of `ExecuteRun` answers. -/
def RunEnd.Possible (numCPU : Int) : RunEnd → Prop
  | .rejected | .refused _ _ => True
  | .ran clientGone req build tests err =>
      ∃ lc s, (executeRun numCPU req lc).machine.Reachable s ∧
        s.shared.pc = .returned build tests err ∧ s.shared.cancelled = clientGone

/-- A request that has ended, and when that was recorded. -/
structure ServedRun (numCPU : Int) where
  ended : RunEnd
  time : Int
  possible : ended.Possible numCPU

/-- `lastInternalErr` after one more request. -/
def setLastInternalErr {numCPU : Int} (last : Option Int) (r : ServedRun numCPU) :
    Option Int :=
  if r.ended.handled.any Handled.lastInternalErr then some r.time else last

def lastInternalErr {numCPU : Int} (runs : List (ServedRun numCPU)) : Option Int :=
  runs.foldl setLastInternalErr none

end Goboxd.Api
