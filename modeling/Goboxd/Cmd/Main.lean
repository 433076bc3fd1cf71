import Goboxd.Api.Admission

/-!
# Shutdown

Four actors meet in the shutdown path of `main`: `main` itself, the goroutine
that watches for a second signal, the HTTP server, and the handlers of `POST
/run`. The handlers are the family's processes. Each is a caller of the
admission gate, with the steps around `ExecuteRun` that `HandleRun` adds: the
increment of `metrics.InFlight` after `acquire` succeeded, and the deferred
decrement before the deferred `release`.

Of `net/http` the model keeps the table of open connections. `Shutdown`
answers nil when the table is empty and the context's error when its deadline
passed first. `Close` empties the table without waiting for any handler, and
both close the listener. A client that disconnects cancels its request, but the
server tracks the connection until the handler has returned.
-/

namespace Goboxd.Cmd

open Api

/-- Where `main` is, from serving to the end of the shutdown path. -/
inductive MainPc where
  | serving
  /-- The signal arrived; `StartShutdown` and `StopAdmission` are next. -/
  | stopping
  /-- The watcher of the second signal is about to be started. -/
  | arming
  /-- The watcher runs; `srv.Shutdown(drainCtx)` is next. -/
  | armed
  | shutdown
  /-- `Shutdown` answered an error other than `ErrServerClosed`; `srv.Close()`
  is next. -/
  | closing
  | waiting
  /-- `drained` is true; `runner.SweepAllJails()` is next. -/
  | sweepJails
  /-- `cgroupv2.Default().Sweep()` is next. -/
  | sweepCgroups
  | done
deriving DecidableEq, Repr

inductive ShutdownErr where
  | serverClosed
  | deadlineExceeded
deriving DecidableEq, Repr

/-- What the handlers and `main` share. `accepted` counts the connections the
listener has accepted, and `conns` lists those the server still tracks. -/
structure Server where
  main : MainPc
  listening : Bool
  gs : GateState
  inFlight : Int
  accepted : Nat
  conns : List Nat
  drainExpired : Bool
  watching : Bool
deriving DecidableEq, Repr

/-- How far a handler is around its call of `acquire`. -/
inductive Stage where
  /-- The connection is open, its request has not reached the gate. -/
  | reading
  /-- In `acquire`, or just behind it. -/
  | acquiring
  /-- `metrics.InFlight` was incremented; `ExecuteRun` is running. -/
  | counted
  /-- `metrics.InFlight` was decremented; `release` is next. -/
  | uncounted
  | returning
  | returned
deriving DecidableEq, Repr

structure Handler where
  caller : Caller
  stage : Stage
deriving DecidableEq, Repr

inductive HandlerAct where
  | begin
  | gate (a : CallerAct)
  | count
  | uncount
  | release
  | reject
  | ret
  /-- The connection is closed while no request is being handled on it. -/
  | drop
deriving DecidableEq, Repr

/-- Everything that is not a handler's own step. -/
inductive ServerEvent where
  | connect
  | signal
  | stopAdmission
  | watch
  | callShutdown
  | drainExpires
  | shutdownReturns (err : Option ShutdownErr)
  | close
  /-- One poll of `waitForDrainUntil`; `late` tells whether the cap passed. -/
  | poll (late : Bool)
  | sweepJails
  | sweepCgroups
  /-- The watcher receives the second signal and closes the server. -/
  | secondSignal
deriving DecidableEq, Repr

def handlerStep (p : ℕ) (s : Server) (h : Handler) :
    HandlerAct → Option (Server × Handler)
  | .begin =>
      match h.stage with
      | .reading => some (s, { h with stage := .acquiring })
      | _ => none
  | .gate .release => none
  | .gate a =>
      match h.stage with
      | .acquiring =>
          (callerStep s.gs h.caller a).map fun r =>
            ({ s with gs := r.1 }, { h with caller := r.2 })
      | _ => none
  | .count =>
      match h.stage, h.caller.phase with
      | .acquiring, .admitted =>
          some ({ s with inFlight := s.inFlight + 1 }, { h with stage := .counted })
      | _, _ => none
  | .uncount =>
      match h.stage with
      | .counted =>
          some ({ s with inFlight := s.inFlight - 1 }, { h with stage := .uncounted })
      | _ => none
  | .release =>
      match h.stage with
      | .uncounted =>
          (callerStep s.gs h.caller .release).map fun r =>
            ({ s with gs := r.1 }, { caller := r.2, stage := .returning })
      | _ => none
  | .reject =>
      match h.stage, h.caller.phase with
      | .acquiring, .failed _ => some (s, { h with stage := .returning })
      | _, _ => none
  | .ret =>
      match h.stage with
      | .returning =>
          some ({ s with conns := s.conns.erase p }, { h with stage := .returned })
      | _ => none
  | .drop =>
      match h.stage with
      | .reading =>
          some ({ s with conns := s.conns.erase p }, { h with stage := .returned })
      | _ => none

/-- What a handler's step can be, with its guard and its effect. -/
inductive HandlerMove (p : ℕ) (s : Server) (h : Handler) :
    HandlerAct → Server × Handler → Prop where
  | begin (hs : h.stage = .reading) :
      HandlerMove p s h .begin (s, { h with stage := .acquiring })
  | gate {a : CallerAct} {r : GateState × Caller} (ha : a ≠ .release)
      (hs : h.stage = .acquiring) (hm : CallerMove s.gs h.caller a r) :
      HandlerMove p s h (.gate a)
        ({ s with gs := r.1 }, { h with caller := r.2 })
  | count (hs : h.stage = .acquiring) (hp : h.caller.phase = .admitted) :
      HandlerMove p s h .count
        ({ s with inFlight := s.inFlight + 1 }, { h with stage := .counted })
  | uncount (hs : h.stage = .counted) :
      HandlerMove p s h .uncount
        ({ s with inFlight := s.inFlight - 1 }, { h with stage := .uncounted })
  | release (hs : h.stage = .uncounted) (hp : h.caller.phase = .admitted) :
      HandlerMove p s h .release
        ({ s with gs := Api.release s.gs },
          { caller := { h.caller with phase := .released }, stage := .returning })
  | reject {e : AcquireErr} (hs : h.stage = .acquiring)
      (hp : h.caller.phase = .failed e) :
      HandlerMove p s h .reject (s, { h with stage := .returning })
  | ret (hs : h.stage = .returning) :
      HandlerMove p s h .ret
        ({ s with conns := s.conns.erase p }, { h with stage := .returned })
  | drop (hs : h.stage = .reading) :
      HandlerMove p s h .drop
        ({ s with conns := s.conns.erase p }, { h with stage := .returned })

theorem handlerStep_move {p : ℕ} {s : Server} {h : Handler} {a : HandlerAct}
    {r : Server × Handler} (hr : handlerStep p s h a = some r) :
    HandlerMove p s h a r := by
  cases a with
  | begin =>
      simp only [handlerStep] at hr
      split at hr
      · next hs => cases hr; exact .begin hs
      · cases hr
  | gate a =>
      have ha : a ≠ .release := by
        rintro rfl
        cases hr
      rw [handlerStep.eq_def] at hr
      cases a <;> first | exact absurd rfl ha | skip
      all_goals
        simp only [] at hr
        split at hr
        · next hs =>
            obtain ⟨r', hr', rfl⟩ := Option.map_eq_some_iff.mp hr
            exact .gate ha hs (callerStep_move hr')
        · cases hr
  | count =>
      simp only [handlerStep] at hr
      split at hr
      · next hs hp => cases hr; exact .count hs hp
      · cases hr
  | uncount =>
      simp only [handlerStep] at hr
      split at hr
      · next hs => cases hr; exact .uncount hs
      · cases hr
  | release =>
      simp only [handlerStep] at hr
      split at hr
      · next hs =>
          obtain ⟨r', hr', rfl⟩ := Option.map_eq_some_iff.mp hr
          cases callerStep_move hr' with
          | release hp => exact .release hs hp
      · cases hr
  | reject =>
      simp only [handlerStep] at hr
      split at hr
      · next hs hp => cases hr; exact .reject hs hp
      · cases hr
  | ret =>
      simp only [handlerStep] at hr
      split at hr
      · next hs => cases hr; exact .ret hs
      · cases hr
  | drop =>
      simp only [handlerStep] at hr
      split at hr
      · next hs => cases hr; exact .drop hs
      · cases hr

def Handler.fresh : Handler := ⟨⟨.entering, false⟩, .reading⟩

/-- What `srv.Shutdown` may answer: nil when no connection is tracked, the
context's error when it expired. `ErrServerClosed`, which `main` also checks
for, is an answer of `ListenAndServe` only. -/
def shutdownAnswers (s : Server) : Option ShutdownErr → Bool
  | none => s.conns.isEmpty
  | some .deadlineExceeded => s.drainExpired
  | some .serverClosed => false

def serverEvent (s : Server) : ServerEvent → Option (Server × List Handler)
  | .connect =>
      if s.listening then
        some ({ s with
            accepted := s.accepted + 1
            conns := s.accepted :: s.conns }, [Handler.fresh])
      else none
  | .signal =>
      match s.main with
      | .serving => some ({ s with main := .stopping }, [])
      | _ => none
  | .stopAdmission =>
      match s.main with
      | .stopping => some ({ s with main := .arming, gs := Api.stop s.gs }, [])
      | _ => none
  | .watch =>
      match s.main with
      | .arming => some ({ s with main := .armed, watching := true }, [])
      | _ => none
  | .callShutdown =>
      match s.main with
      | .armed => some ({ s with main := .shutdown, listening := false }, [])
      | _ => none
  | .drainExpires =>
      match s.main with
      | .shutdown => some ({ s with drainExpired := true }, [])
      | _ => none
  | .shutdownReturns err =>
      match s.main with
      | .shutdown =>
          if shutdownAnswers s err then
            some ({ s with
              main :=
                match err with
                | none => .sweepJails
                | some .serverClosed => .waiting
                | some .deadlineExceeded => .closing }, [])
          else none
      | _ => none
  | .close =>
      match s.main with
      | .closing => some ({ s with main := .waiting, conns := [] }, [])
      | _ => none
  | .poll late =>
      match s.main with
      | .waiting =>
          if s.inFlight > 0 then
            some ({ s with main := if late then .done else .waiting }, [])
          else some ({ s with main := .sweepJails }, [])
      | _ => none
  | .sweepJails =>
      match s.main with
      | .sweepJails => some ({ s with main := .sweepCgroups }, [])
      | _ => none
  | .sweepCgroups =>
      match s.main with
      | .sweepCgroups => some ({ s with main := .done }, [])
      | _ => none
  | .secondSignal =>
      if s.watching ∧ s.main ≠ .done then
        some ({ s with watching := false, listening := false, conns := [] }, [])
      else none

/-- What an event can be, with its guard and its effect. -/
inductive ServerMove (s : Server) : ServerEvent → Server × List Handler → Prop where
  | connect (hl : s.listening = true) :
      ServerMove s .connect
        ({ s with accepted := s.accepted + 1, conns := s.accepted :: s.conns },
          [Handler.fresh])
  | signal (hm : s.main = .serving) :
      ServerMove s .signal ({ s with main := .stopping }, [])
  | stopAdmission (hm : s.main = .stopping) :
      ServerMove s .stopAdmission
        ({ s with main := .arming, gs := Api.stop s.gs }, [])
  | watch (hm : s.main = .arming) :
      ServerMove s .watch ({ s with main := .armed, watching := true }, [])
  | callShutdown (hm : s.main = .armed) :
      ServerMove s .callShutdown
        ({ s with main := .shutdown, listening := false }, [])
  | drainExpires (hm : s.main = .shutdown) :
      ServerMove s .drainExpires ({ s with drainExpired := true }, [])
  | drained (hm : s.main = .shutdown) (hc : s.conns = []) :
      ServerMove s (.shutdownReturns none) ({ s with main := .sweepJails }, [])
  | timedOut (hm : s.main = .shutdown) (hd : s.drainExpired = true) :
      ServerMove s (.shutdownReturns (some .deadlineExceeded))
        ({ s with main := .closing }, [])
  | close (hm : s.main = .closing) :
      ServerMove s .close ({ s with main := .waiting, conns := [] }, [])
  | busy {late : Bool} (hm : s.main = .waiting) (hn : s.inFlight > 0) :
      ServerMove s (.poll late)
        ({ s with main := if late then .done else .waiting }, [])
  | idle {late : Bool} (hm : s.main = .waiting) (hn : s.inFlight ≤ 0) :
      ServerMove s (.poll late) ({ s with main := .sweepJails }, [])
  | sweepJails (hm : s.main = .sweepJails) :
      ServerMove s .sweepJails ({ s with main := .sweepCgroups }, [])
  | sweepCgroups (hm : s.main = .sweepCgroups) :
      ServerMove s .sweepCgroups ({ s with main := .done }, [])
  | secondSignal (hw : s.watching = true) (hm : s.main ≠ .done) :
      ServerMove s .secondSignal
        ({ s with watching := false, listening := false, conns := [] }, [])

theorem serverEvent_move {s : Server} {e : ServerEvent}
    {r : Server × List Handler} (hr : serverEvent s e = some r) :
    ServerMove s e r := by
  cases e with
  | connect =>
      simp only [serverEvent] at hr
      split at hr
      · next hl => cases hr; exact .connect hl
      · cases hr
  | shutdownReturns err =>
      simp only [serverEvent] at hr
      split at hr
      · next hm =>
          split at hr
          · next ha =>
              cases err with
              | none => cases hr; exact .drained hm (List.isEmpty_iff.mp ha)
              | some err =>
                  cases err with
                  | serverClosed => cases ha
                  | deadlineExceeded => cases hr; exact .timedOut hm ha
          · cases hr
      · cases hr
  | poll late =>
      simp only [serverEvent] at hr
      split at hr
      · next hm =>
          split at hr
          · next hn => cases hr; exact .busy hm hn
          · next hn => cases hr; exact .idle hm (Int.not_lt.mp hn)
      · cases hr
  | secondSignal =>
      simp only [serverEvent] at hr
      split at hr
      · next h => cases hr; exact .secondSignal h.1 h.2
      · cases hr
  | signal | stopAdmission | watch | callShutdown | drainExpires | close
      | sweepJails | sweepCgroups =>
      simp only [serverEvent] at hr
      split at hr
      · next hm => cases hr; constructor; exact hm
      · cases hr

def newServer (maxJobs maxQueued : Int) : Server where
  main := .serving
  listening := true
  gs := newAdmissionGate maxJobs maxQueued
  inFlight := 0
  accepted := 0
  conns := []
  drainExpired := false
  watching := false

def server (maxJobs maxQueued : Int) :
    Family Server Handler HandlerAct ServerEvent where
  init s := s = newServer maxJobs maxQueued
  own := handlerStep
  env := serverEvent

end Goboxd.Cmd
