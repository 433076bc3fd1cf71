import Goboxd.Api.FrontDoor
import Goboxd.Proofs.RateBound

/-!
# Who gets to `HandleRun`

The throttle and the token stand in front of the multiplexer and test the method
and the path of the URL. The multiplexer looks at neither in that form: it reads the
path as it was spelled, element by element. What makes the guards guards is that
the two readings agree on every request, whatever its spelling. A spelling of
`/run` that one of them saw and the other did not would be a way around the
token, or a request that is throttled and then not found.

From there it is a matter of what a request has behind it at each place in the
chain. The bound on how often a client gets in is the throttle's own, and what is
added is that the calls of `allow` are the requests, one for each that is a run. They
have the lock in the order of time, but the time each brings along was read before, so
they are not in the order of those. A bucket can then be filled as of an earlier time
than the clock shows. How much that lets through is what the rate adds over the time
that a call has waited for the lock.
-/

namespace Goboxd.Api

open Go Config Models Runner Server Family

/-! ## The two readings of a path -/

/-- The one route that is not for reading. -/
theorem mem_router {getenv : Env} {playgroundExists : Bool} {p : Pattern Route}
    (h : p ∈ (router getenv playgroundExists).patterns) :
    p = ⟨str "POST", [.lit (str "run")], .run⟩ ∨ p.method = str "GET" ∧ p.handler ≠ .run := by
  have hget : ∀ {segs : List Seg} {handler : Route}, handler ≠ .run →
      p = getRoute segs handler → p.method = str "GET" ∧ p.handler ≠ .run := by
    rintro segs handler hne rfl
    exact ⟨rfl, hne⟩
  rw [router, List.append_assoc, List.mem_append, List.mem_append] at h
  rcases h with h | h | h
  · simp only [List.mem_cons, List.not_mem_nil, or_false] at h
    rcases h with h | h | h | h | h | h | h | h | h
    case inr.inr.inr.inr.inr.inr.inl => exact .inl h
    all_goals exact .inr (hget (by simp) h)
  · rw [pprofRoutes] at h
    split at h
    · cases h
    · simp only [List.map_cons, List.map_nil, List.mem_cons, List.not_mem_nil, or_false] at h
      rcases h with h | h | h | h | h <;> exact .inr (hget (by simp) h)
  · split at h
    · simp only [List.mem_cons, List.not_mem_nil, or_false] at h
      rcases h with h | h <;> exact .inr (hget (by simp) h)
    · cases h

theorem run_mem_router (getenv : Env) (playgroundExists : Bool) :
    ⟨str "POST", [.lit (str "run")], .run⟩ ∈ (router getenv playgroundExists).patterns := by
  rw [router, List.append_assoc, List.mem_append]
  exact .inl (by simp)

theorem isName_run : Walk.IsName (str "run") :=
  ⟨by decide, by decide, by decide, by decide⟩

/-- A request whose path is not empty, and not the asterisk, was spelled with a
slash in front. -/
theorem HttpRequest.isAbs_spelling {r : HttpRequest} (hne : r.url.path ≠ [])
    (hstar : r.url.path ≠ str "*") : isAbs r.url.escapedPath = true := by
  obtain ⟨p, hp, hurl⟩ := r.sent
  rcases hp with hp | rfl | rfl
  · exact escapedPath_slash hp hurl
  · rw [show r.url = ⟨[], []⟩ from (Option.some.inj hurl).symm] at hne
    exact absurd rfl hne
  · rw [show r.url = ⟨str "*", str "*"⟩ from (Option.some.inj hurl).symm] at hstar
    exact absurd rfl hstar

/-- The multiplexer calls `HandleRun` for the requests that the middlewares take for
one, and for no other. -/
theorem find_run_iff (getenv : Env) (playgroundExists : Bool) (r : HttpRequest) :
    (∃ values, (router getenv playgroundExists).find r.method r.url = .handler .run values) ↔
      r.isRun = true := by
  rw [HttpRequest.isRun, Bool.and_eq_true, decide_eq_true_iff, decide_eq_true_iff]
  constructor
  · rintro ⟨values, hf⟩
    obtain ⟨p, hp, hrun, hmethod, hm⟩ := ServeMux.find_handler hf
    rcases mem_router hp with rfl | ⟨-, hne⟩
    · have hmethod : r.method = str "POST" := by
        rcases hmethod with hmethod | ⟨-, hget⟩
        · exact hmethod.symm
        · exact absurd hget (by decide)
      refine ⟨hmethod, ?_⟩
      have hsegs : segmentsOf r.url.escapedPath = [str "run"] := by
        generalize segmentsOf r.url.escapedPath = segs at hm
        match segs with
        | [] => exact hm.elim
        | [s] => rw [hm.1]
        | s :: s' :: ss => exact hm.2.elim
      refine path_of_segmentsOf isName_run.no_slash (HttpRequest.isAbs_spelling ?_ ?_) hsegs
      · intro hnil
        have hpath := unescape_escapedPath r.url
        rw [hnil] at hpath
        rw [eq_nil_of_unescape hpath] at hsegs
        cases hsegs
      · intro hstar
        rw [ServeMux.find, if_pos hstar] at hf
        cases hf
    · exact absurd hrun hne
  · rintro ⟨hmethod, hpath⟩
    have habs : isAbs r.url.escapedPath = true := by
      refine HttpRequest.isAbs_spelling ?_ ?_ <;> rw [hpath] <;> decide
    obtain ⟨q, hq, hqm, -, hf⟩ := ServeMux.find_single (run_mem_router getenv playgroundExists)
      rfl isName_run habs hpath
    rcases mem_router hq with rfl | ⟨hget, -⟩
    · exact ⟨[], by rw [hmethod]; exact hf⟩
    · exact absurd (hqm.symm.trans hget) (by decide)

section

variable {cfg : FrontConfig} {s : St FrontState Exchange}

/-! ## What a request has behind it -/

/-- The request is a run, and has passed the throttle, the token and the origin. -/
structure Exchange.Guarded (cfg : FrontConfig) (x : Exchange) : Prop where
  isRun : x.req.isRun = true
  bearer : validBearer (x.req.header (str "Authorization")) (authConfig cfg.getenv).1 = true
  origin : originAllowed (x.req.header (str "Origin")) (authConfig cfg.getenv).2 = true
  passed : x.passed.isSome = true

/-- What is known of a request from where it is, at a time. -/
def Exchange.Placed (cfg : FrontConfig) (now : ℚ) (x : Exchange) : Prop :=
  match x.pc with
  | .arriving | .throttle => x.passed = none
  | .allowing c =>
      x.passed = none ∧ x.req.isRun = true ∧ c.ip = clientIP x.req ∧ c.now ≤ now
  | .authorize => x.passed.isSome = true
  | .dispatch => x.passed.isSome = true ∧ authRefusal cfg.getenv x.req = none
  | _ => True

structure Exchange.Chained (cfg : FrontConfig) (now : ℚ) (x : Exchange) : Prop where
  placed : x.Placed cfg now
  called : x.call.isSome = true → x.Guarded cfg

theorem guarded_of_authRefusal {x : Exchange} (hrun : x.req.isRun = true)
    (ha : authRefusal cfg.getenv x.req = none) (hp : x.passed.isSome = true) :
    x.Guarded cfg := by
  rw [authRefusal, if_pos hrun] at ha
  simp only [] at ha
  split at ha
  · cases ha
  · next hbearer =>
      split at ha
      · cases ha
      · next horigin =>
          exact ⟨hrun, by simpa using hbearer, by simpa using horigin, hp⟩

/-- A request keeps its guards when nothing but its answer and its place changes. -/
theorem Exchange.Guarded.keep {x y : Exchange} (h : x.Guarded cfg) (hreq : y.req = x.req)
    (hp : y.passed.isSome = true) : y.Guarded cfg :=
  ⟨hreq ▸ h.isRun, hreq ▸ h.bearer, hreq ▸ h.origin, hp⟩

theorem throttled_eq {rl : RateLimitCfg} {r : HttpRequest} {now : ℚ} {c : AllowCall}
    (h : throttled rl r now = some c) : r.isRun = true ∧ c = ⟨clientIP r, now⟩ := by
  rw [throttled] at h
  split at h
  · cases h
  · split at h
    · next hrun => exact ⟨hrun, (Option.some.inj h).symm⟩
    · cases h

theorem Exchange.Chained.move {sh : FrontState} {x : Exchange} {r : FrontState × Exchange}
    (h : FrontMove cfg sh x r) (hx : x.Chained cfg sh.now) : r.2.Chained cfg r.1.now := by
  have hplaced := hx.placed
  unfold Exchange.Placed at hplaced
  cases h with
  | identify hpc =>
      rw [hpc] at hplaced
      exact ⟨hplaced, fun hc => (hx.called hc).keep rfl (hx.called hc).passed⟩
  | unthrottled hpc hno => exact ⟨rfl, fun hc => (hx.called hc).keep rfl rfl⟩
  | stamp hpc hc =>
      obtain ⟨hrun, rfl⟩ := throttled_eq hc
      rw [hpc] at hplaced
      exact ⟨⟨hplaced, hrun, rfl, le_refl _⟩,
        fun hc => (hx.called hc).keep rfl (hx.called hc).passed⟩
  | allow hpc hr => exact ⟨rfl, fun hc => (hx.called hc).keep rfl rfl⟩
  | pass hpc ha =>
      rw [hpc] at hplaced
      exact ⟨⟨hplaced, ha⟩, fun hc => (hx.called hc).keep rfl (hx.called hc).passed⟩
  | enter hpc hf =>
      rw [hpc] at hplaced
      have hrun : x.req.isRun = true := (find_run_iff _ _ _).mp ⟨_, hf⟩
      have hguard := guarded_of_authRefusal hrun hplaced.2 hplaced.1
      exact ⟨trivial, fun _ => hguard.keep rfl hguard.passed⟩
  | run hpc hc hr =>
      have hguard := hx.called (Option.isSome_iff_exists.mpr ⟨_, hc⟩)
      exact ⟨trivial, fun _ => hguard.keep rfl hguard.passed⟩
  | limit | refuse | route | leave | serve | panic | log =>
      exact ⟨trivial, fun hc => (hx.called hc).keep rfl (hx.called hc).passed⟩

/-- What is known of a request is known later, too. -/
theorem Exchange.Chained.later {x : Exchange} {now t : ℚ} (h : x.Chained cfg now)
    (hle : now ≤ t) : x.Chained cfg t := by
  refine ⟨?_, h.called⟩
  have hplaced := h.placed
  unfold Exchange.Placed at hplaced ⊢
  cases hpc : x.pc with
  | allowing c =>
      rw [hpc] at hplaced
      obtain ⟨hpassed, hrun, hip, hnow⟩ := hplaced
      exact ⟨hpassed, hrun, hip, le_trans hnow hle⟩
  | arriving | throttle | authorize | dispatch | running | serving | answered | logged
  | recovered =>
      rw [hpc] at hplaced
      exact hplaced

def serveCall (cfg : RateLimitCfg) (rl : RateLimiter) (c : ServedCall) :
    Bool × RateLimiter :=
  allowCall cfg rl c.call

/-- The calls of `allow` so far had the lock in the order of time, no sooner than they
were made, and have left the limiter as it is. -/
structure CallsKept (cfg : RateLimitCfg) (sh : FrontState) : Prop where
  limiter : sh.limiter = served (serveCall cfg) newRateLimiter sh.calls
  sorted : sh.calls.Pairwise fun c d => c.time ≤ d.time
  past : ∀ c ∈ sh.calls, c.call.now ≤ c.time ∧ c.time ≤ sh.now

theorem CallsKept.add {rl : RateLimitCfg} {sh : FrontState} (h : CallsKept rl sh)
    {c : AllowCall} (hc : c.now ≤ sh.now) :
    CallsKept rl
      { sh with limiter := (allowCall rl sh.limiter c).2, calls := sh.calls ++ [⟨c, sh.now⟩] } := by
  refine ⟨?_, ?_, ?_⟩
  · show (allowCall rl sh.limiter c).2 =
      served (serveCall rl) newRateLimiter (sh.calls ++ [⟨c, sh.now⟩])
    rw [served_append, ← h.limiter]
    rfl
  · refine List.pairwise_append.mpr ⟨h.sorted, List.pairwise_singleton _ _, fun d hd e he => ?_⟩
    rw [List.mem_singleton.mp he]
    exact (h.past d hd).2
  · intro d hd
    rcases List.mem_append.mp hd with hd | hd
    · exact h.past d hd
    · rw [List.mem_singleton.mp hd]
      exact ⟨hc, le_refl _⟩

end

/-! ## Two requests that spell their path their own way -/

/-- A token, and two requests a second. -/
def guardedEnv : Env
  | "GOBOXD_AUTH_TOKEN" => str "sekrit"
  | "GOBOXD_RATE_LIMIT_RPS" => str "2"
  | _ => []

def guardedConfig : FrontConfig where
  getenv := guardedEnv
  reg := []
  parseFloat := parseRps
  maxJobs := 1
  maxQueued := 1
  playgroundExists := true

/-- `POST /%72un`, with the token. -/
def oddlySpelled : HttpRequest where
  method := str "POST"
  url := ⟨str "/run", str "/%72un"⟩
  remoteAddr := str "203.0.113.9:4711"
  header key := if key = str "Authorization" then str "Bearer sekrit" else []
  body := .error (str "EOF")
  sent := ⟨str "/%72un", .inl (by decide), by decide⟩

end Goboxd.Api
