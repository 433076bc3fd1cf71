import Goboxd.Lib.Family
import Goboxd.Lib.GoString

/-!
# The admission gate

`admissionGate` bounds concurrency: at most `maxJobs` requests in flight and
`maxQueued` waiting. Its methods are modelled critical section by critical
section, because the mutex is exactly what makes those the steps other
goroutines interleave with. What `acquire` does outside the mutex is its
`select`: taking a case is a step of its own, so the gate can move between a
waiter's wakeup and the critical section that follows it.

A channel is a number, and `closed` lists the ones that were closed. Closing a
closed channel panics in Go; here it raises `panicked`, so that the absence of
the panic is something to prove rather than something the model assumes.
-/

namespace Goboxd.Api

/-- The errors `acquire` returns: `errQueueFull`, `errShuttingDown`, and the
request context's own error. -/
inductive AcquireErr where
  | errQueueFull
  | errShuttingDown
  | ctxErr
deriving DecidableEq, Repr

/-- A `chan struct{}`, by the order in which it was made. -/
abbrev Chan := Nat

structure AdmissionGate where
  inFlight : Int
  queued : Int
  maxJobs : Int
  maxQueued : Int
  stopped : Bool
  broadcast : Chan
deriving DecidableEq, Repr

/-- Everything a critical section of the gate touches: the gate itself, the
channels made and closed so far, and `metrics.Queued`. -/
structure GateState where
  gate : AdmissionGate
  made : Nat
  closed : List Chan
  metricsQueued : Int
  panicked : Bool
deriving DecidableEq, Repr

def newAdmissionGate (n m : Int) : GateState where
  gate :=
    { inFlight := 0, queued := 0, maxJobs := n, maxQueued := m
      stopped := false, broadcast := 0 }
  made := 1
  closed := []
  metricsQueued := 0
  panicked := false

/-- `readMaxJobs`. -/
def readMaxJobs (getenv : String → GoString) (numCPU : Int) : Int :=
  match Go.atoi (getenv "GOBOXD_MAX_JOBS") with
  | some v => if v > 0 then v else numCPU
  | none => numCPU

/-- `readMaxQueued`: a zero that is written out disables the queue. -/
def readMaxQueued (getenv : String → GoString) (numCPU : Int) : Int :=
  match Go.atoi (getenv "GOBOXD_MAX_QUEUED") with
  | some v => if v < 0 then readMaxJobs getenv numCPU else v
  | none => readMaxJobs getenv numCPU

def closeChan (s : GateState) (c : Chan) : GateState :=
  if c ∈ s.closed then { s with panicked := true }
  else { s with closed := c :: s.closed }

/-- `close(g.broadcast); g.broadcast = make(chan struct{})`. -/
def renewBroadcast (s : GateState) : GateState :=
  let s := closeChan s s.gate.broadcast
  { s with gate := { s.gate with broadcast := s.made }, made := s.made + 1 }

/-- How a critical section of `acquire` leaves its caller: returned, or queued
and about to `select` on the captured channel. -/
inductive Verdict where
  | ok
  | err (e : AcquireErr)
  | wait (b : Chan)
deriving DecidableEq, Repr

/-- The first critical section of `acquire`. -/
def acquireEnter (s : GateState) : GateState × Verdict :=
  let g := s.gate
  if g.stopped then (s, .err .errShuttingDown)
  else if g.inFlight < g.maxJobs then
    ({ s with gate := { g with inFlight := g.inFlight + 1 } }, .ok)
  else if g.maxQueued ≤ 0 ∨ g.queued ≥ g.maxQueued then
    (s, .err .errQueueFull)
  else
    ({ s with
        gate := { g with queued := g.queued + 1 }
        metricsQueued := s.metricsQueued + 1 },
      .wait g.broadcast)

/-- `g.queued--` with its mirror. -/
def leaveQueue (s : GateState) : GateState :=
  { s with
    gate := { s.gate with queued := s.gate.queued - 1 }
    metricsQueued := s.metricsQueued - 1 }

/-- The critical section of the `<-ctx.Done()` case. -/
def acquireCancel (s : GateState) : GateState × Verdict :=
  (leaveQueue s, .err .ctxErr)

/-- The critical section of the `<-b` case: the waiter examines the gate again,
and waits on the fresh channel when another took the freed slot. -/
def acquireRecheck (s : GateState) : GateState × Verdict :=
  if s.gate.stopped then (leaveQueue s, .err .errShuttingDown)
  else if s.gate.inFlight < s.gate.maxJobs then
    let s := leaveQueue s
    ({ s with gate := { s.gate with inFlight := s.gate.inFlight + 1 } }, .ok)
  else (s, .wait s.gate.broadcast)

def release (s : GateState) : GateState :=
  let s := { s with gate := { s.gate with inFlight := s.gate.inFlight - 1 } }
  if s.gate.queued > 0 then renewBroadcast s else s

def stop (s : GateState) : GateState :=
  let s := { s with gate := { s.gate with stopped := true } }
  if s.gate.queued > 0 then renewBroadcast s else s

@[simp] theorem renewBroadcast_stopped (s : GateState) :
    (renewBroadcast s).gate.stopped = s.gate.stopped := by
  unfold renewBroadcast closeChan
  simp only []
  split <;> rfl

@[simp] theorem release_stopped (s : GateState) :
    (release s).gate.stopped = s.gate.stopped := by
  unfold release
  simp only []
  split <;> simp

@[simp] theorem stop_stopped (s : GateState) : (stop s).gate.stopped = true := by
  unfold stop
  simp only []
  split <;> simp

/-! ## The callers -/

inductive Phase where
  /-- `acquire` is about to lock for the first time. -/
  | entering
  /-- Queued, in the `select`, holding the captured channel. -/
  | selecting (b : Chan)
  /-- The `select` took `<-b`; the critical section is still to come. -/
  | woken (b : Chan)
  /-- The `select` took `<-ctx.Done()`; the critical section is still to come. -/
  | cancelling (b : Chan)
  | admitted
  | failed (e : AcquireErr)
  /-- The slot was given back by the deferred `release`. -/
  | released
deriving DecidableEq, Repr

structure Caller where
  phase : Phase
  ctxDone : Bool
deriving DecidableEq, Repr

def Phase.holds : Phase → Option Chan
  | .selecting b | .woken b | .cancelling b => some b
  | _ => none

def Verdict.phase : Verdict → Phase
  | .ok => .admitted
  | .err e => .failed e
  | .wait b => .selecting b

inductive CallerAct where
  | enter
  | takeBroadcast
  | recheck
  | takeDone
  | cancel
  | release
  | ctxCancel
deriving DecidableEq, Repr

/-- What happens around the callers: a new call of `acquire`, `Stop`, and a
`release` by code that is not a caller of this table. -/
inductive GateEvent where
  | call
  | stop
  | strayRelease
deriving DecidableEq, Repr

/-- One step of a caller. The `select` takes `<-b` only once `b` is closed and
`<-ctx.Done()` only once the context is done; when both are ready either may be
taken. -/
def callerStep (s : GateState) (c : Caller) :
    CallerAct → Option (GateState × Caller)
  | .enter =>
      match c.phase with
      | .entering =>
          let (s, v) := acquireEnter s
          some (s, { c with phase := v.phase })
      | _ => none
  | .takeBroadcast =>
      match c.phase with
      | .selecting b =>
          if b ∈ s.closed then some (s, { c with phase := .woken b }) else none
      | _ => none
  | .recheck =>
      match c.phase with
      | .woken _ =>
          let (s, v) := acquireRecheck s
          some (s, { c with phase := v.phase })
      | _ => none
  | .takeDone =>
      match c.phase with
      | .selecting b =>
          if c.ctxDone then some (s, { c with phase := .cancelling b }) else none
      | _ => none
  | .cancel =>
      match c.phase with
      | .cancelling _ =>
          let (s, v) := acquireCancel s
          some (s, { c with phase := v.phase })
      | _ => none
  | .release =>
      match c.phase with
      | .admitted => some (release s, { c with phase := .released })
      | _ => none
  | .ctxCancel => some (s, { c with ctxDone := true })

/-- What a caller's step can be, with its guard and its effect. Everything
proved about the gate reads its steps off this list. -/
inductive CallerMove (s : GateState) (c : Caller) :
    CallerAct → GateState × Caller → Prop where
  | enter (h : c.phase = .entering) :
      CallerMove s c .enter
        ((acquireEnter s).1, { c with phase := (acquireEnter s).2.phase })
  | takeBroadcast {b : Chan} (h : c.phase = .selecting b) (hb : b ∈ s.closed) :
      CallerMove s c .takeBroadcast (s, { c with phase := .woken b })
  | recheck {b : Chan} (h : c.phase = .woken b) :
      CallerMove s c .recheck
        ((acquireRecheck s).1, { c with phase := (acquireRecheck s).2.phase })
  | takeDone {b : Chan} (h : c.phase = .selecting b) (hd : c.ctxDone = true) :
      CallerMove s c .takeDone (s, { c with phase := .cancelling b })
  | cancel {b : Chan} (h : c.phase = .cancelling b) :
      CallerMove s c .cancel
        (leaveQueue s, { c with phase := .failed .ctxErr })
  | release (h : c.phase = .admitted) :
      CallerMove s c .release (release s, { c with phase := .released })
  | ctxCancel : CallerMove s c .ctxCancel (s, { c with ctxDone := true })

theorem callerStep_move {s : GateState} {c : Caller} {a : CallerAct}
    {r : GateState × Caller} (h : callerStep s c a = some r) :
    CallerMove s c a r := by
  cases a <;> simp only [callerStep] at h
  case enter =>
    split at h
    · next hc => cases h; exact .enter hc
    · cases h
  case takeBroadcast =>
    split at h
    · next hc =>
        split at h
        · next hb => cases h; exact .takeBroadcast hc hb
        · cases h
    · cases h
  case recheck =>
    split at h
    · next hc => cases h; exact .recheck hc
    · cases h
  case takeDone =>
    split at h
    · next hc =>
        split at h
        · next hd => cases h; exact .takeDone hc hd
        · cases h
    · cases h
  case cancel =>
    split at h
    · next hc => cases h; exact .cancel hc
    · cases h
  case release =>
    split at h
    · next hc => cases h; exact .release hc
    · cases h
  case ctxCancel => cases h; exact .ctxCancel

def gateEvent (s : GateState) : GateEvent → Option (GateState × List Caller)
  | .call => some (s, [⟨.entering, false⟩])
  | .stop => some (stop s, [])
  | .strayRelease => some (release s, [])

def admission (maxJobs maxQueued : Int) :
    Family GateState Caller CallerAct GateEvent where
  init s := s = newAdmissionGate maxJobs maxQueued
  own _ := callerStep
  env := gateEvent

end Goboxd.Api
