import Goboxd.Api.Handlers
import Goboxd.Api.Playground
import Goboxd.Api.Probes
import Goboxd.Api.RateLimit
import Goboxd.Api.Testcases
import Goboxd.Lib.ResponseWriter
import Goboxd.Lib.ServeMux

/-!
# The router and the middleware

What stands between a connection and the handlers: the table of routes, the
throttle and the bearer token in front of `POST /run`, the request id, the access
log and the recovery from panics. What each of them does is a function here; how
they are chained, and what that is worth when requests overlap, is for the
modules that use them.

Of the answers of `net/http` itself, the redirects and the errors of the
multiplexer, the status is kept. The handlers of `net/http/pprof` are in the table,
and answer anything once.
-/

namespace Goboxd.Api

open Go Config Models Runner

/-- A request as `net/http` hands it over. `header` is `r.Header.Get`, and `body` is
what the decoder of `HandleRun` makes of the body. The path of a URL was sent, and
was rooted, empty, or the asterisk. -/
structure HttpRequest where
  method : GoString
  url : Url
  remoteAddr : GoString
  header : GoString → GoString
  body : Except GoString RunRequest
  sent : ∃ p, (isAbs p = true ∨ p = [] ∨ p = str "*") ∧ setPath p = some url

/-- The test of both middlewares. -/
def HttpRequest.isRun (r : HttpRequest) : Bool :=
  r.method = str "POST" && r.url.path = str "/run"

/-! ## Errors -/

/-- `writeErrorStatus`. -/
def errorOps (status : ℕ) : List WriterOp :=
  [.set (str "Content-Type") (str "application/json"), .writeHeader status, .write]

/-- What `HandleRun` writes. The two refusals of the gate and a 200 carry the status
in a header, and a 400 and a 500 do not. -/
def answerOps : Answer → List WriterOp
  | .nothing => []
  | .run xRunStatus _ =>
      [.set (str "Content-Type") (str "application/json"),
        .set (str "X-Run-Status") xRunStatus, .writeHeader 200, .write]
  | .error code detail =>
      (if code = 503 then
        [.set (str "Retry-After") (str "1"), .set (str "X-Run-Status") detail.code]
      else []) ++ errorOps code

/-! ## The bearer token and the origin -/

/-- `authConfig`. -/
def authConfig (getenv : Env) : GoString × List GoString :=
  (trimSpace (getenv "GOBOXD_AUTH_TOKEN"),
    ((split 44 (getenv "GOBOXD_ALLOWED_ORIGINS")).map trimSpace).filter fun p => p ≠ [])

def validBearer (got want : GoString) : Bool :=
  if want = [] then true
  else if !hasPrefix got (str "Bearer ") then false
  else trimPrefix got (str "Bearer ") = want

def originAllowed (origin : GoString) (allowed : List GoString) : Bool :=
  if origin = [] then true
  else if allowed.length = 0 then false
  else allowed.any fun o => o = origin

/-- `AuthMiddleware`: the status and the error it answers, if it does not pass the
request on. -/
def authRefusal (getenv : Env) (r : HttpRequest) : Option (ℕ × ErrorDetail) :=
  if r.isRun then
    let (token, origins) := authConfig getenv
    if !validBearer (r.header (str "Authorization")) token then
      some (401, ⟨str "unauthorized", str "missing or invalid bearer token"⟩)
    else if !originAllowed (r.header (str "Origin")) origins then
      some (403, ⟨str "forbidden_origin", str "origin not allowed"⟩)
    else none
  else none

/-! ## The throttle -/

def clientIP (r : HttpRequest) : GoString :=
  let ip := trimSpace (r.header (str "CF-Connecting-IP"))
  if ip ≠ [] then (splitHostPort ip).getD ip
  else (splitHostPort r.remoteAddr).getD r.remoteAddr

/-- The call of `allow` that `RateLimitMiddleware` makes for a request, if it makes
one. -/
def throttled (cfg : RateLimitCfg) (r : HttpRequest) (now : ℚ) : Option AllowCall :=
  if cfg.rps ≤ 0 then none else if r.isRun then some ⟨clientIP r, now⟩ else none

/-! ## The routes -/

inductive Route where
  | healthz
  | readyz
  | info
  | openapi
  | metrics
  | dashboard
  | run
  | testcasesList
  | testcasesGet
  | pprof
  | playgroundRedirect
  | playground
deriving DecidableEq, Repr

def getRoute (segs : List Seg) (handler : Route) : Pattern Route := ⟨str "GET", segs, handler⟩

/-- `maybeMountPprof`. -/
def pprofRoutes (getenv : Env) : List (Pattern Route) :=
  if getenv "GOBOXD_PPROF" ≠ str "1" then []
  else
    getRoute [.lit (str "debug"), .lit (str "pprof"), .multi] .pprof ::
      [str "cmdline", str "profile", str "symbol", str "trace"].map fun name =>
        getRoute [.lit (str "debug"), .lit (str "pprof"), .lit name] .pprof

/-- The multiplexer of `NewRouter`. -/
def router (getenv : Env) (playgroundExists : Bool) : ServeMux Route where
  patterns :=
    [getRoute [.lit (str "healthz")] .healthz,
      getRoute [.lit (str "readyz")] .readyz,
      getRoute [.lit (str "info")] .info,
      getRoute [.lit (str "openapi.json")] .openapi,
      getRoute [.lit (str "metrics")] .metrics,
      getRoute [.lit (str "dashboard")] .dashboard,
      ⟨str "POST", [.lit (str "run")], .run⟩,
      getRoute [.lit (str "testcases")] .testcasesList,
      getRoute [.lit (str "testcases"), .wild, .wild] .testcasesGet] ++
    pprofRoutes getenv ++
    (if playgroundExists then
      [getRoute [.lit (str "playground")] .playgroundRedirect,
        getRoute [.lit (str "playground"), .multi] .playground]
    else [])

/-- `http.StripPrefix` in front of `HandlePlayground`: the path it leaves, if it
passes the request on. -/
def stripPlayground (u : Url) : Option GoString :=
  if hasPrefix u.path (str "/playground") ∧
      (u.rawPath = [] ∨ hasPrefix u.rawPath (str "/playground")) then
    some (trimPrefix u.path (str "/playground"))
  else none

/-- An answer of a handler that sets neither the request id nor a run status. -/
structure Reply where
  code : ℕ
  headers : Header
  plain : ∀ e ∈ headers, e.1 ≠ str "X-Request-Id" ∧ e.1 ≠ str "X-Run-Status"

def Reply.ops (r : Reply) : List WriterOp :=
  (r.headers.map fun e => .set e.1 e.2) ++ [.writeHeader r.code, .write]

def Reply.bare (code : ℕ) : Reply := ⟨code, [], by simp⟩

def Reply.typed (code : ℕ) (contentType : GoString) : Reply where
  code := code
  headers := [(str "Content-Type", contentType)]
  plain := by
    intro e he
    rw [List.mem_singleton.mp he]
    have hkey : str "Content-Type" ≠ str "X-Request-Id" ∧
        str "Content-Type" ≠ str "X-Run-Status" := by decide
    exact hkey

def Reply.json (code : ℕ) : Reply := .typed code (str "application/json")

/-- What the handlers other than `HandleRun` find: the probes, whether the test cases
can be listed, the disk and the embedded files, and the answer of pprof. -/
structure Site where
  ready : ReadyState
  testcasesListed : Bool
  readFile : GoString → Option GoString
  embedded : GoString → Option GoString
  playgroundDistPath : GoString
  pprof : Reply

/-- The answer to a request that does not go to `HandleRun`. -/
def Site.reply (site : Site) (r : HttpRequest) : Found Route → Option Reply
  | .handler .run _ => none
  | .handler .healthz _ | .handler .info _ | .handler .openapi _ | .handler .metrics _ =>
      some (.json 200)
  | .handler .readyz _ => some (.json (readyzStatus site.ready))
  | .handler .dashboard _ => some (.typed 200 (str "text/html; charset=utf-8"))
  | .handler .testcasesList _ => some (.json (if site.testcasesListed then 200 else 500))
  | .handler .testcasesGet values =>
      match handleTestcasesGet site.readFile (values[0]?.getD []) (values[1]?.getD []) with
      | .ok _ => some (.json 200)
      | .error _ => some (.json 400)
  | .handler .pprof _ => some site.pprof
  | .handler .playgroundRedirect _ => some (.bare 301)
  | .handler .playground _ =>
      match (stripPlayground r.url).map
          (handlePlayground site.playgroundDistPath site.readFile site.embedded) with
      | some (.file (some contentType) _) => some (.typed 200 contentType)
      | some (.file none _) => some (.bare 200)
      | some .notFound | none => some (.bare 404)
  | .redirect => some (.bare 301)
  | .notAllowed => some (.bare 405)
  | .notFound => some (.bare 404)
  | .badRequest => some (.bare 400)

/-! ## The access log -/

/-- `bodyRecorder`. -/
structure BodyRecorder where
  w : ResponseWriter
  statusCode : ℕ
deriving DecidableEq, Repr

def BodyRecorder.op (b : BodyRecorder) (o : WriterOp) : BodyRecorder where
  w := b.w.op o
  statusCode :=
    match o with
    | .writeHeader code => code
    | _ => b.statusCode

def BodyRecorder.ops (b : BodyRecorder) (os : List WriterOp) : BodyRecorder :=
  os.foldl BodyRecorder.op b

/-- `RunStatus`. -/
def BodyRecorder.runStatus (b : BodyRecorder) : GoString := b.w.header.get (str "X-Run-Status")

/-- An entry of the access log, without the times. -/
structure LogEntry where
  method : GoString
  path : GoString
  status : ℕ
  runStatus : GoString
  requestID : GoString
deriving DecidableEq, Repr

/-- `LoggingMiddleware` behind the handler. -/
def logEntry (r : HttpRequest) (requestID : GoString) (b : BodyRecorder) : LogEntry where
  method := r.method
  path := r.url.path
  status := b.statusCode
  runStatus := if r.isRun then b.runStatus else []
  requestID := requestID

/-- The id that `RequestIDMiddleware` gives a request, `random` when the client sent
none. -/
def requestIDOf (r : HttpRequest) (random : GoString) : GoString :=
  if r.header (str "X-Request-Id") = [] then random else r.header (str "X-Request-Id")

end Goboxd.Api
