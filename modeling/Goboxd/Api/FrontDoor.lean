import Goboxd.Api.Middleware
import Goboxd.Api.Requests

/-!
# The front door

Every request to the server, through the chain of `NewRouter`: the recovery, the
request id, the access log, the throttle, the bearer token, the multiplexer and
the handler. The requests are the processes. They share the gate and the metrics,
the buckets of the throttle, the clock and the access log.

The throttle takes two steps: the clock is read for the arguments of `allow`, before
the lock of the limiter is taken. Between the two, other requests may be answered, and
time may pass.

A handler other than `HandleRun` answers in one step, out of whatever it finds, or
panics after part of its answer. The steps of `HandleRun` are those of its own
model, and what it writes is written in the step that decides it. The process of
a request stays behind as its history, and so do the calls of `allow`.
-/

namespace Goboxd.Api

open Go Config Models Runner

/-- What the server is started with. -/
structure FrontConfig where
  getenv : Env
  reg : Registry
  parseFloat : GoString → Option ℚ
  maxJobs : Int
  maxQueued : Int
  playgroundExists : Bool

def FrontConfig.throttle (cfg : FrontConfig) : RateLimitCfg :=
  loadRateLimit cfg.getenv cfg.parseFloat

def FrontConfig.mux (cfg : FrontConfig) : ServeMux Route :=
  router cfg.getenv cfg.playgroundExists

/-- A call of `allow`, and when it had the lock. -/
structure ServedCall where
  call : AllowCall
  time : ℚ
deriving DecidableEq

/-- `calls` are the calls of `allow` that had the lock so far, the first one first. -/
structure FrontState where
  api : ApiState
  limiter : RateLimiter
  now : ℚ
  calls : List ServedCall
  log : List LogEntry

/-- Which middleware or handler is next. -/
inductive FrontPc where
  | arriving
  | throttle
  /-- `allow` is called and does not have the lock yet. -/
  | allowing (c : AllowCall)
  | authorize
  | dispatch
  | running
  | serving (found : Found Route)
  /-- The access log is next. -/
  | answered
  | logged
  /-- A panic was recovered from. -/
  | recovered

/-- A request with the writer it is answered on. `passed` is when the throttle let it
through, and `call` is the call of `HandleRun` as far as it has come. -/
structure Exchange where
  req : HttpRequest
  requestID : GoString
  out : BodyRecorder
  passed : Option ℚ
  call : Option HandleCall
  pc : FrontPc

inductive FrontAct where
  | identify (random : GoString)
  | throttle
  /-- `allow` has the lock, and returns. -/
  | allow
  | authorize
  | dispatch
  | run (a : HandleAct)
  /-- `HandleRun` has returned. -/
  | leave
  | serve (site : Site)
  /-- The handler panics when it has done so many calls on its writer. -/
  | panic (site : Site) (done : ℕ)
  | log

inductive FrontEvent where
  | request (r : HttpRequest)
  /-- So many seconds pass. -/
  | tick (d : ℚ)
  | stop

def Exchange.fresh (r : HttpRequest) : Exchange where
  req := r
  requestID := []
  out := ⟨.fresh, 200⟩
  passed := none
  call := none
  pc := .arriving

def Exchange.goTo (x : Exchange) (pc : FrontPc) : Exchange := { x with pc := pc }

def Exchange.write (x : Exchange) (os : List WriterOp) : Exchange :=
  { x with out := x.out.ops os }

/-- `RecoveryMiddleware` after a panic. It writes past the recorder. -/
def Exchange.recover (x : Exchange) : Exchange :=
  { x with out := { x.out with w := x.out.w.ops (errorOps 500) }, pc := .recovered }

/-- The call of `HandleRun` has come so far. -/
def Exchange.goOn (x : Exchange) (c : HandleCall) : Exchange :=
  { x with call := some c, pc := .running }

/-- What `HandleRun` writes in a step. -/
def handleOps (getenv : Env) (reg : Registry) (c : HandleCall) : HandleAct → List WriterOp
  | .validate =>
      match validateRun getenv reg c.decoded with
      | .ok _ => []
      | .error _ => errorOps 400
  | .refuse _ =>
      match c.caller.phase with
      | .failed e => answerOps (refuseRun c.caller.ctxDone e).answer
      | _ => []
  | .finish build tests err _ =>
      match c.pc with
      | .running req => answerOps (finishRun c.caller.ctxDone req build tests err).answer
      | _ => []
  | _ => []

def frontStep (cfg : FrontConfig) (s : FrontState) (x : Exchange) :
    FrontAct → Option (FrontState × Exchange)
  | .identify random =>
      match x.pc with
      | .arriving =>
          let id := requestIDOf x.req random
          some (s, (({ x with requestID := id }).write
            [.set (str "X-Request-Id") id]).goTo .throttle)
      | _ => none
  | .throttle =>
      match x.pc with
      | .throttle =>
          match throttled cfg.throttle x.req s.now with
          | none => some (s, { x with passed := some s.now }.goTo .authorize)
          | some c => some (s, x.goTo (.allowing c))
      | _ => none
  | .allow =>
      match x.pc with
      | .allowing c =>
          let r := allowCall cfg.throttle s.limiter c
          let s' := { s with limiter := r.2, calls := s.calls ++ [⟨c, s.now⟩] }
          if r.1 then some (s', { x with passed := some s.now }.goTo .authorize)
          else
            some (s', (x.write
              (.set (str "Retry-After") (str "1") :: errorOps 429)).goTo .answered)
      | _ => none
  | .authorize =>
      match x.pc with
      | .authorize =>
          match authRefusal cfg.getenv x.req with
          | none => some (s, x.goTo .dispatch)
          | some e => some (s, (x.write (errorOps e.1)).goTo .answered)
      | _ => none
  | .dispatch =>
      match x.pc with
      | .dispatch =>
          match cfg.mux.find x.req.method x.req.url with
          | .handler .run _ =>
              some (s, x.goOn ⟨x.req.body, ⟨.entering, false⟩, .validating, []⟩)
          | found => some (s, x.goTo (.serving found))
      | _ => none
  | .run a =>
      match x.pc, x.call with
      | .running, some c =>
          (handleStep cfg.getenv cfg.reg s.api c a).map fun r =>
            ({ s with api := r.1 },
              (x.goOn r.2).write (handleOps cfg.getenv cfg.reg c a))
      | _, _ => none
  | .leave =>
      match x.pc, x.call with
      | .running, some c =>
          match c.pc with
          | .rejected | .returned => some (s, x.goTo .answered)
          | _ => none
      | _, _ => none
  | .serve site =>
      match x.pc with
      | .serving found =>
          (site.reply x.req found).map fun r => (s, (x.write r.ops).goTo .answered)
      | _ => none
  | .panic site done =>
      match x.pc with
      | .serving found =>
          (site.reply x.req found).map fun r => (s, (x.write (r.ops.take done)).recover)
      | _ => none
  | .log =>
      match x.pc with
      | .answered =>
          some ({ s with log := s.log ++ [logEntry x.req x.requestID x.out] }, x.goTo .logged)
      | _ => none

def frontEvent (s : FrontState) : FrontEvent → Option (FrontState × List Exchange)
  | .request r => some (s, [.fresh r])
  | .tick d => if 0 ≤ d then some ({ s with now := s.now + d }, []) else none
  | .stop => some ({ s with api := s.api.setGate (stop s.api.gs) }, [])

def newFrontState (cfg : FrontConfig) : FrontState where
  api := newApiState cfg.maxJobs cfg.maxQueued
  limiter := newRateLimiter
  now := 0
  calls := []
  log := []

/-- The server behind its listener. -/
def frontDoor (cfg : FrontConfig) : Family FrontState Exchange FrontAct FrontEvent where
  init s := s = newFrontState cfg
  own _ := frontStep cfg
  env := frontEvent

/-! ## What a step can be -/

inductive FrontMove (cfg : FrontConfig) (s : FrontState) (x : Exchange) :
    FrontState × Exchange → Prop where
  | identify {id : GoString} (hpc : x.pc = .arriving) :
      FrontMove cfg s x
        (s, (({ x with requestID := id }).write [.set (str "X-Request-Id") id]).goTo .throttle)
  | unthrottled (hpc : x.pc = .throttle) (hno : throttled cfg.throttle x.req s.now = none) :
      FrontMove cfg s x (s, { x with passed := some s.now }.goTo .authorize)
  | stamp {c : AllowCall} (hpc : x.pc = .throttle)
      (hc : throttled cfg.throttle x.req s.now = some c) :
      FrontMove cfg s x (s, x.goTo (.allowing c))
  | allow {c : AllowCall} {rl : RateLimiter} (hpc : x.pc = .allowing c)
      (hr : allowCall cfg.throttle s.limiter c = (true, rl)) :
      FrontMove cfg s x
        ({ s with limiter := rl, calls := s.calls ++ [⟨c, s.now⟩] },
          { x with passed := some s.now }.goTo .authorize)
  | limit {c : AllowCall} {rl : RateLimiter} (hpc : x.pc = .allowing c)
      (hr : allowCall cfg.throttle s.limiter c = (false, rl)) :
      FrontMove cfg s x
        ({ s with limiter := rl, calls := s.calls ++ [⟨c, s.now⟩] },
          (x.write (.set (str "Retry-After") (str "1") :: errorOps 429)).goTo .answered)
  | pass (hpc : x.pc = .authorize) (ha : authRefusal cfg.getenv x.req = none) :
      FrontMove cfg s x (s, x.goTo .dispatch)
  | refuse {e : ℕ × ErrorDetail} (hpc : x.pc = .authorize)
      (ha : authRefusal cfg.getenv x.req = some e) :
      FrontMove cfg s x (s, (x.write (errorOps e.1)).goTo .answered)
  | enter {values : List GoString} (hpc : x.pc = .dispatch)
      (hf : cfg.mux.find x.req.method x.req.url = .handler .run values) :
      FrontMove cfg s x (s, x.goOn ⟨x.req.body, ⟨.entering, false⟩, .validating, []⟩)
  | route {found : Found Route} (hpc : x.pc = .dispatch)
      (hf : cfg.mux.find x.req.method x.req.url = found)
      (hrun : ∀ values, found ≠ .handler .run values) :
      FrontMove cfg s x (s, x.goTo (.serving found))
  | run {c : HandleCall} {a : HandleAct} {r : ApiState × HandleCall} (hpc : x.pc = .running)
      (hc : x.call = some c) (hr : handleStep cfg.getenv cfg.reg s.api c a = some r) :
      FrontMove cfg s x
        ({ s with api := r.1 }, (x.goOn r.2).write (handleOps cfg.getenv cfg.reg c a))
  | leave {c : HandleCall} (hpc : x.pc = .running) (hc : x.call = some c)
      (hover : c.pc = .rejected ∨ c.pc = .returned) : FrontMove cfg s x (s, x.goTo .answered)
  | serve {found : Found Route} {r : Reply} (hpc : x.pc = .serving found) :
      FrontMove cfg s x (s, (x.write r.ops).goTo .answered)
  | panic {found : Found Route} {r : Reply} {done : ℕ} (hpc : x.pc = .serving found) :
      FrontMove cfg s x (s, (x.write (r.ops.take done)).recover)
  | log (hpc : x.pc = .answered) :
      FrontMove cfg s x
        ({ s with log := s.log ++ [logEntry x.req x.requestID x.out] }, x.goTo .logged)

theorem frontStep_move {cfg : FrontConfig} {s : FrontState} {x : Exchange} {a : FrontAct}
    {r : FrontState × Exchange} (h : frontStep cfg s x a = some r) : FrontMove cfg s x r := by
  cases a with
  | identify random =>
      rw [frontStep] at h
      split at h
      · next hpc => cases h; exact .identify hpc
      · cases h
  | throttle =>
      rw [frontStep] at h
      split at h
      · next hpc =>
          split at h
          · next hno => cases h; exact .unthrottled hpc hno
          · next hc => cases h; exact .stamp hpc hc
      · cases h
  | allow =>
      rw [frontStep] at h
      split at h
      · next hpc =>
          simp only [] at h
          split at h
          · next hr => cases h; exact .allow hpc (Prod.ext hr rfl)
          · next hr =>
              cases h
              exact .limit hpc (Prod.ext (Bool.eq_false_iff.mpr hr) rfl)
      · cases h
  | authorize =>
      rw [frontStep] at h
      split at h
      · next hpc =>
          split at h
          · next ha => cases h; exact .pass hpc ha
          · next ha => cases h; exact .refuse hpc ha
      · cases h
  | dispatch =>
      rw [frontStep] at h
      split at h
      · next hpc =>
          split at h
          · next hf => cases h; exact .enter hpc hf
          · next hrun => cases h; exact .route hpc rfl hrun
      · cases h
  | run a =>
      rw [frontStep] at h
      split at h
      · next hpc hc =>
          obtain ⟨r, hr, rfl⟩ := Option.map_eq_some_iff.mp h
          exact .run hpc hc hr
      · cases h
  | leave =>
      rw [frontStep] at h
      split at h
      · next hpc hc =>
          split at h
          · next hover => cases h; exact .leave hpc hc (.inl hover)
          · next hover => cases h; exact .leave hpc hc (.inr hover)
          · cases h
      · cases h
  | serve site =>
      rw [frontStep] at h
      split at h
      · next hpc =>
          obtain ⟨r, -, rfl⟩ := Option.map_eq_some_iff.mp h
          exact .serve hpc
      · cases h
  | panic site done =>
      rw [frontStep] at h
      split at h
      · next hpc =>
          obtain ⟨r, -, rfl⟩ := Option.map_eq_some_iff.mp h
          exact .panic hpc
      · cases h
  | log =>
      rw [frontStep] at h
      split at h
      · next hpc => cases h; exact .log hpc
      · cases h

/-- What comes from outside. -/
inductive FrontArrival (s : FrontState) : FrontState × List Exchange → Prop where
  | request (r : HttpRequest) : FrontArrival s (s, [.fresh r])
  | tick {d : ℚ} (hd : 0 ≤ d) : FrontArrival s ({ s with now := s.now + d }, [])
  | stop : FrontArrival s ({ s with api := s.api.setGate (Api.stop s.api.gs) }, [])

theorem frontEvent_arrival {s : FrontState} {e : FrontEvent} {r : FrontState × List Exchange}
    (h : frontEvent s e = some r) : FrontArrival s r := by
  cases e with
  | request r =>
      cases h
      exact .request r
  | tick d =>
      rw [frontEvent] at h
      split at h
      · next hd =>
          cases h
          exact .tick hd
      · cases h
  | stop =>
      cases h
      exact .stop

end Goboxd.Api
