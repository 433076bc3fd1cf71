import Goboxd.Config
import Mathlib.Algebra.Order.Field.Rat
import Mathlib.Logic.Function.Basic

/-!
# The throttle of `POST /run`

A token bucket for each client. The arithmetic is exact here, over the rationals,
where the program has `float64`; times are seconds. `strconv.ParseFloat` is a
parameter for the same reason: any reading of the variable as a number.
-/

namespace Goboxd.Api

open Go Config

structure RateLimitCfg where
  rps : ℚ
  burst : Int
deriving DecidableEq

/-- The conversion `int(r)`: towards zero. What does not fit is the least `int`,
as on amd64. -/
def intOf (r : ℚ) : Int :=
  let n := Int.tdiv r.num r.den
  if -maxInt - 1 ≤ n ∧ n ≤ maxInt then n else -maxInt - 1

def loadRateLimit (getenv : Env) (parseFloat : GoString → Option ℚ) : RateLimitCfg :=
  let raw := trimSpace (getenv "GOBOXD_RATE_LIMIT_RPS")
  if raw = [] then ⟨0, 0⟩
  else
    match parseFloat raw with
    | none => ⟨0, 0⟩
    | some rps =>
        if rps ≤ 0 then ⟨0, 0⟩
        else
          match atoi (trimSpace (getenv "GOBOXD_RATE_BURST")) with
          | some b => ⟨rps, if 0 < b then b else wrap (intOf rps * 2)⟩
          | none => ⟨rps, wrap (intOf rps * 2)⟩

structure IpBucket where
  tokens : ℚ
  lastRef : ℚ
deriving DecidableEq

/-- The map `buckets`. -/
structure RateLimiter where
  buckets : GoString → Option IpBucket

def newRateLimiter : RateLimiter := ⟨fun _ => none⟩

/-- Ten minutes. -/
def bucketIdleTTL : ℚ := 600

/-- The loop that deletes the idle buckets. -/
def RateLimiter.prune (rl : RateLimiter) (now : ℚ) : RateLimiter :=
  ⟨fun ip => (rl.buckets ip).filter fun b => ¬ bucketIdleTTL < now - b.lastRef⟩

def RateLimiter.set (rl : RateLimiter) (ip : GoString) (b : IpBucket) : RateLimiter :=
  ⟨Function.update rl.buckets ip (some b)⟩

@[simp] theorem RateLimiter.set_self (rl : RateLimiter) (ip : GoString) (b : IpBucket) :
    (rl.set ip b).buckets ip = some b := by
  simp only [RateLimiter.set, Function.update_self]

theorem RateLimiter.set_ne (rl : RateLimiter) {ip ip' : GoString} (b : IpBucket)
    (h : ip' ≠ ip) : (rl.set ip b).buckets ip' = rl.buckets ip' := by
  simp only [RateLimiter.set, Function.update_of_ne h]

/-- The bucket of a client that has none. -/
def newIpBucket (cfg : RateLimitCfg) (now : ℚ) : IpBucket := ⟨cfg.burst, now⟩

def IpBucket.refill (cfg : RateLimitCfg) (b : IpBucket) (now : ℚ) : IpBucket :=
  let elapsed := now - b.lastRef
  if 0 < elapsed then
    let tokens := b.tokens + cfg.rps * elapsed
    ⟨if (cfg.burst : ℚ) < tokens then cfg.burst else tokens, now⟩
  else b

def RateLimiter.allow (cfg : RateLimitCfg) (rl : RateLimiter) (ip : GoString) (now : ℚ) :
    Bool × RateLimiter :=
  let rl := rl.prune now
  let b := ((rl.buckets ip).getD (newIpBucket cfg now)).refill cfg now
  if b.tokens < 1 then (false, rl.set ip b)
  else (true, rl.set ip { b with tokens := b.tokens - 1 })

/-- One call of `allow`. -/
structure AllowCall where
  ip : GoString
  now : ℚ
deriving DecidableEq

def allowCall (cfg : RateLimitCfg) (rl : RateLimiter) (c : AllowCall) :
    Bool × RateLimiter :=
  rl.allow cfg c.ip c.now

end Goboxd.Api
