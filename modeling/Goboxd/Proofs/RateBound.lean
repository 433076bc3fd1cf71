import Goboxd.Api.RateLimit
import Goboxd.Lib.Allowance
import Mathlib.Algebra.Order.Field.Basic
import Mathlib.Algebra.Order.Floor.Ring
import Mathlib.Data.Rat.Floor
import Mathlib.Tactic.Linarith
import Mathlib.Tactic.NormNum

/-!
# How often the throttle lets a client through

A token bucket lets a client through its burst and then at its rate, in every
window: what a client may still do at once is what its bucket would be refilled
to. The one step that could break this is the pruning. A bucket that was idle for
ten minutes is deleted, and the next call of the client finds a new one, which is
full. That is the same bucket when ten minutes refill it, and a gift when they do
not: a client that comes back every ten minutes then has its burst each time.
-/

namespace Goboxd.Api

open Go Config Server

/-- The calls of a client that are let through. -/
abbrev ofClient (ip : GoString) (c : AllowCall) : Bool := c.ip = ip

/-- In every sequence of calls, for every client and in every window, no more
calls are let through than the burst and what the rate adds. -/
def RateBounded (cfg : RateLimitCfg) : Prop :=
  ∀ calls : List AllowCall, (calls.Pairwise fun c d => c.now ≤ d.now) →
    ∀ ip s t, s ≤ t →
      (admitted (allowCall cfg) (between AllowCall.now (ofClient ip) s t)
        newRateLimiter calls : ℚ) ≤ cfg.burst + cfg.rps * (t - s)

/-! ## One call -/

variable {cfg : RateLimitCfg} {rl : RateLimiter} {ip : GoString} {now t : ℚ}

theorem prune_buckets (rl : RateLimiter) (now : ℚ) (ip : GoString) :
    (rl.prune now).buckets ip =
      (rl.buckets ip).filter fun b => ¬ bucketIdleTTL < now - b.lastRef := rfl

/-- The bucket that `allow` looks into. -/
def found (cfg : RateLimitCfg) (b : Option IpBucket) (now : ℚ) : IpBucket :=
  (b.getD (newIpBucket cfg now)).refill cfg now

/-- What `allow` leaves of it. -/
def spent (cfg : RateLimitCfg) (b : Option IpBucket) (now : ℚ) : IpBucket :=
  let b := found cfg b now
  if b.tokens < 1 then b else { b with tokens := b.tokens - 1 }

/-- Whether it finds a token there. -/
def hasToken (cfg : RateLimitCfg) (b : Option IpBucket) (now : ℚ) : Bool :=
  decide (1 ≤ (found cfg b now).tokens)

theorem allow_spent : rl.allow cfg ip now =
    (hasToken cfg ((rl.prune now).buckets ip) now,
      (rl.prune now).set ip (spent cfg ((rl.prune now).buckets ip) now)) := by
  rw [RateLimiter.allow, hasToken, spent, found]
  split
  · next hlt => rw [decide_eq_false (not_le.mpr hlt)]
  · next hge => rw [decide_eq_true (not_lt.mp hge)]

theorem allow_self : ((rl.allow cfg ip now).2).buckets ip =
    some (spent cfg ((rl.prune now).buckets ip) now) := by
  rw [allow_spent, RateLimiter.set_self]

theorem allow_other {ip' : GoString} (h : ip ≠ ip') :
    ((rl.allow cfg ip' now).2).buckets ip = (rl.prune now).buckets ip := by
  rw [allow_spent, RateLimiter.set_ne _ _ h]

/-- The tokens of a bucket and those it would have got by some time, however full. -/
def IpBucket.worth (cfg : RateLimitCfg) (b : IpBucket) (t : ℚ) : ℚ :=
  b.tokens + cfg.rps * (t - b.lastRef)

/-- A bucket is between empty and full, and was last touched in the past. -/
structure IpBucket.Wf (cfg : RateLimitCfg) (now : ℚ) (b : IpBucket) : Prop where
  nonneg : 0 ≤ b.tokens
  le_burst : b.tokens ≤ cfg.burst
  past : b.lastRef ≤ now

def RateLimiter.Wf (cfg : RateLimitCfg) (now : ℚ) (rl : RateLimiter) : Prop :=
  ∀ ip b, rl.buckets ip = some b → b.Wf cfg now

theorem burst_nonneg (hburst : 1 ≤ cfg.burst) : (0 : ℚ) ≤ cfg.burst := by
  exact_mod_cast (by omega : 0 ≤ cfg.burst)

theorem IpBucket.Wf.later {b : IpBucket} (h : b.Wf cfg now) (hle : now ≤ t) : b.Wf cfg t :=
  ⟨h.nonneg, h.le_burst, le_trans h.past hle⟩

theorem newIpBucket_wf (hburst : 1 ≤ cfg.burst) : (newIpBucket cfg now).Wf cfg now :=
  ⟨burst_nonneg hburst, le_refl _, le_refl _⟩

theorem wf_later (h : rl.Wf cfg now) (hle : now ≤ t) : rl.Wf cfg t :=
  fun ip b hb => (h ip b hb).later hle

theorem prune_wf (h : rl.Wf cfg t) : (rl.prune now).Wf cfg t := by
  intro ip b hb
  rw [prune_buckets] at hb
  exact h ip b ((Option.filter_eq_some_iff.mp hb).1)

/-! ## The bucket that is found

The time that a call brings along may be older than the last one in the bucket: it was
read before the lock was taken. The bucket is then not refilled. -/

theorem refill_nonneg {b : IpBucket} (hrps : 0 < cfg.rps) (hburst : 1 ≤ cfg.burst)
    (h : 0 ≤ b.tokens) : 0 ≤ (b.refill cfg now).tokens := by
  rw [IpBucket.refill]
  split
  · next hpos =>
      have hgain := mul_nonneg (le_of_lt hrps) (le_of_lt hpos)
      dsimp only
      split
      · exact burst_nonneg hburst
      · exact add_nonneg h hgain
  · exact h

theorem refill_le_burst {b : IpBucket} (h : b.tokens ≤ cfg.burst) :
    (b.refill cfg now).tokens ≤ cfg.burst := by
  rw [IpBucket.refill]
  split
  · dsimp only
    split
    · exact le_refl _
    · next hle => exact not_lt.mp hle
  · exact h

theorem refill_lastRef {b : IpBucket} :
    (b.refill cfg now).lastRef = now ∨ (b.refill cfg now).lastRef = b.lastRef := by
  rw [IpBucket.refill]
  split
  · exact .inl rfl
  · exact .inr rfl

theorem le_refill_lastRef {b : IpBucket} : now ≤ (b.refill cfg now).lastRef := by
  rw [IpBucket.refill]
  split
  · exact le_refl _
  · next hnot => exact sub_nonpos.mp (not_lt.mp hnot)

/-- A refill gives a bucket no more than its time was worth. -/
theorem refill_worth {b : IpBucket} : (b.refill cfg now).worth cfg t ≤ b.worth cfg t := by
  have hsplit : b.worth cfg t =
      b.tokens + cfg.rps * (now - b.lastRef) + cfg.rps * (t - now) := by
    rw [IpBucket.worth]
    ring
  rw [IpBucket.refill]
  split
  · rw [hsplit]
    refine add_le_add_left ?_ _
    dsimp only
    split
    · next hlt => exact le_of_lt hlt
    · exact le_refl _
  · exact le_refl _

theorem found_wf {b : Option IpBucket} (hrps : 0 < cfg.rps) (hburst : 1 ≤ cfg.burst)
    (h : ∀ b', b = some b' → b'.Wf cfg t) (hle : now ≤ t) : (found cfg b now).Wf cfg t := by
  have hget : (b.getD (newIpBucket cfg now)).Wf cfg t := by
    cases b with
    | none => exact (newIpBucket_wf hburst).later hle
    | some b' => exact h b' rfl
  refine ⟨refill_nonneg hrps hburst hget.nonneg, refill_le_burst hget.le_burst, ?_⟩
  rcases @refill_lastRef cfg now (b.getD (newIpBucket cfg now)) with hnow | hold
  · exact le_trans (le_of_eq hnow) hle
  · exact le_trans (le_of_eq hold) hget.past

theorem spent_wf {b : Option IpBucket} (h : (found cfg b now).Wf cfg t) :
    (spent cfg b now).Wf cfg t := by
  rw [spent]
  split
  · exact h
  · next hone =>
      have hfull := h.le_burst
      exact ⟨sub_nonneg.mpr (not_lt.mp hone), by linarith, h.past⟩

/-- An admitted call takes a token, another one takes none. -/
theorem spent_worth {b : Option IpBucket} :
    (spent cfg b now).worth cfg t + ((hasToken cfg b now).toNat : ℚ) =
      (found cfg b now).worth cfg t := by
  rw [spent, hasToken]
  split
  · next hlt => rw [decide_eq_false (not_le.mpr hlt), Bool.toNat_false, Nat.cast_zero, add_zero]
  · next hge =>
      rw [decide_eq_true (not_lt.mp hge), Bool.toNat_true, Nat.cast_one, IpBucket.worth,
        IpBucket.worth]
      ring

/-- What is found is worth no more than a full bucket at the time of the call. -/
theorem found_worth {b : Option IpBucket} (hrps : 0 < cfg.rps)
    (h : (found cfg b now).Wf cfg t) :
    (found cfg b now).worth cfg t ≤ cfg.burst + cfg.rps * (t - now) := by
  have hlast : now ≤ (found cfg b now).lastRef := le_refill_lastRef
  have hgain := mul_le_mul_of_nonneg_left (sub_le_sub_left hlast t) (le_of_lt hrps)
  exact add_le_add h.le_burst hgain

theorem allow_wf (hrps : 0 < cfg.rps) (hburst : 1 ≤ cfg.burst) (h : rl.Wf cfg t)
    (hle : now ≤ t) : (rl.allow cfg ip now).2.Wf cfg t := by
  intro ip' b hb
  by_cases heq : ip' = ip
  · rw [heq, allow_self] at hb
    cases hb
    exact spent_wf (found_wf hrps hburst (prune_wf h ip) hle)
  · rw [allow_other heq] at hb
    exact prune_wf h ip' b hb

/-! ## What a client has left, as an allowance

The cap is the burst when each call is answered at the time it brings along. A call that
has waited for the lock finds a bucket that is full at an earlier time, so the cap has
to have room for what the rate adds meanwhile. -/

/-- What a client could still do. -/
def RateLimiter.left (cfg : RateLimitCfg) (cap : ℚ) (ip : GoString) (rl : RateLimiter)
    (t : ℚ) : ℚ :=
  match rl.buckets ip with
  | some b => min cap (b.worth cfg t)
  | none => cap

variable {cap : ℚ}

theorem left_le_cap (cfg : RateLimitCfg) (cap : ℚ) (ip : GoString) (rl : RateLimiter)
    (t : ℚ) : rl.left cfg cap ip t ≤ cap := by
  rw [RateLimiter.left]
  split
  · exact min_le_left _ _
  · exact le_refl _

theorem left_nonneg (hrps : 0 < cfg.rps) (hcap : 0 ≤ cap) (h : rl.Wf cfg t) :
    0 ≤ rl.left cfg cap ip t := by
  rw [RateLimiter.left]
  split
  · next b hb =>
      have hb := h ip b hb
      have hgain := mul_nonneg (le_of_lt hrps) (sub_nonneg.mpr hb.past)
      exact le_min hcap (add_nonneg hb.nonneg hgain)
  · exact hcap

theorem left_refill (hrps : 0 < cfg.rps) (hle : now ≤ t) :
    rl.left cfg cap ip t ≤ rl.left cfg cap ip now + cfg.rps * (t - now) := by
  have hgain := mul_nonneg (le_of_lt hrps) (sub_nonneg.mpr hle)
  rw [RateLimiter.left, RateLimiter.left]
  split
  · next b hb =>
      rw [← min_add_add_right]
      refine min_le_min (by linarith) (le_of_eq ?_)
      rw [IpBucket.worth, IpBucket.worth]
      ring
  · linarith

/-- Pruning changes nothing when ten minutes fill a bucket. -/
theorem left_prune (hidle : cap ≤ 600 * cfg.rps) (hrps : 0 < cfg.rps) (h : rl.Wf cfg t)
    (hle : now ≤ t) : (rl.prune now).left cfg cap ip t = rl.left cfg cap ip t := by
  rw [RateLimiter.left, RateLimiter.left, prune_buckets]
  cases hb : rl.buckets ip with
  | none => rfl
  | some b =>
      by_cases hold : bucketIdleTTL < now - b.lastRef
      · rw [Option.filter_some, if_neg (by simp [hold])]
        have hnonneg := (h ip b hb).nonneg
        have hage : 600 < now - b.lastRef := hold
        have hrefill : cfg.rps * 600 ≤ cfg.rps * (t - b.lastRef) :=
          mul_le_mul_of_nonneg_left (by linarith) (le_of_lt hrps)
        refine (min_eq_left ?_).symm
        rw [IpBucket.worth]
        linarith
      · rw [Option.filter_some, if_pos (by simp [hold])]

theorem left_spend {ip' : GoString} (hcap : cfg.burst + cfg.rps * (t - now) ≤ cap)
    (hidle : cap ≤ 600 * cfg.rps) (hrps : 0 < cfg.rps) (hburst : 1 ≤ cfg.burst)
    (h : rl.Wf cfg t) (hle : now ≤ t) :
    (rl.allow cfg ip' now).2.left cfg cap ip t +
        ((decide (ip' = ip) && (rl.allow cfg ip' now).1).toNat : ℚ) ≤
      rl.left cfg cap ip t := by
  rw [← left_prune hidle hrps h hle]
  by_cases heq : ip' = ip
  · have hpruned : (rl.prune now).Wf cfg t := prune_wf h
    have hfound := found_wf hrps hburst (hpruned ip) hle
    have hworth := le_trans (found_worth hrps hfound) hcap
    rw [heq, decide_eq_true rfl, Bool.true_and, RateLimiter.left, allow_self, allow_spent]
    refine le_trans (add_le_add_left (min_le_right _ _) _) (le_trans (le_of_eq spent_worth) ?_)
    rw [RateLimiter.left]
    split
    · next b hb =>
        rw [hb] at hworth ⊢
        exact le_min hworth refill_worth
    · exact hworth
  · rw [decide_eq_false heq, Bool.false_and, Bool.toNat_false, Nat.cast_zero, add_zero,
      RateLimiter.left, allow_other (Ne.symm heq)]
    exact le_refl _

/-- The allowance of a client, when ten minutes fill a bucket. `time` is when a call is
answered. -/
def bucketAllowance {ι : Type} (call : ι → AllowCall) (time : ι → ℚ) (ip : GoString)
    (hcap : 0 ≤ cap) (hidle : cap ≤ 600 * cfg.rps) (hrps : 0 < cfg.rps)
    (hburst : 1 ≤ cfg.burst) :
    Allowance (fun rl c => allowCall cfg rl (call c)) time (fun c => ofClient ip (call c))
      cap cfg.rps
      (fun c => (call c).now ≤ time c ∧
        cfg.burst + cfg.rps * (time c - (call c).now) ≤ cap)
      fun t rl => rl.Wf cfg t where
  left := fun rl t => rl.left cfg cap ip t
  nonneg := left_nonneg hrps hcap
  le_cap := fun _ => left_le_cap cfg cap ip _ _
  refill := fun _ => left_refill hrps
  later := wf_later
  after := fun hc h hle => allow_wf hrps hburst (wf_later h hle) hc.1
  spend := fun hc h hle => left_spend hc.2 hidle hrps hburst (wf_later h hle) hc.1

theorem newRateLimiter_wf : newRateLimiter.Wf cfg t := fun ip b hb => by cases hb

theorem rateBounded_of_le (hcfg : (cfg.burst : ℚ) ≤ 600 * cfg.rps) (hrps : 0 < cfg.rps)
    (hburst : 1 ≤ cfg.burst) : RateBounded cfg := by
  intro calls hsorted ip s t hst
  refine (bucketAllowance id AllowCall.now ip (burst_nonneg hburst) hcfg hrps hburst).window
    (le_of_lt hrps) hst (fun u => newRateLimiter_wf) hsorted fun c _ => ⟨le_refl _, ?_⟩
  rw [id, sub_self, mul_zero, add_zero]

/-! ## A client that comes back after ten minutes -/

theorem served_wf (hrps : 0 < cfg.rps) (hburst : 1 ≤ cfg.burst) : ∀ {n : Nat}
    {rl : RateLimiter}, rl.Wf cfg now →
    (served (allowCall cfg) rl (List.replicate n ⟨ip, now⟩)).Wf cfg now := by
  intro n
  induction n with
  | zero => intro rl h; exact h
  | succ n ih =>
      intro rl h
      exact ih (allow_wf hrps hburst h (le_refl _))

/-- The second call at a time finds what the first one left. -/
theorem found_again : found cfg (((rl.allow cfg ip now).2.prune now).buckets ip) now =
    spent cfg ((rl.prune now).buckets ip) now := by
  have hlast : now ≤ (spent cfg ((rl.prune now).buckets ip) now).lastRef := by
    rw [spent]
    split
    · exact le_refill_lastRef
    · exact le_refill_lastRef
  have hyoung : now - (spent cfg ((rl.prune now).buckets ip) now).lastRef ≤ 0 :=
    sub_nonpos.mpr hlast
  have hkept : ¬ bucketIdleTTL < now - (spent cfg ((rl.prune now).buckets ip) now).lastRef := by
    rw [bucketIdleTTL]
    linarith
  rw [prune_buckets, allow_self, Option.filter_some, if_pos (decide_eq_true hkept), found,
    Option.getD_some, IpBucket.refill]
  exact if_neg (not_lt.mpr hyoung)

/-- Calls at one time are let through as long as there are tokens. -/
theorem admitted_replicate {counted : AllowCall → Bool} (hcount : counted ⟨ip, now⟩ = true) :
    ∀ {n : Nat} {rl : RateLimiter}, (n : ℚ) ≤ (found cfg ((rl.prune now).buckets ip) now).tokens →
    admitted (allowCall cfg) counted rl (List.replicate n ⟨ip, now⟩) = n := by
  intro n
  induction n with
  | zero => intro rl _; rfl
  | succ n ih =>
      intro rl hn
      rw [Nat.cast_add, Nat.cast_one] at hn
      have hpos : (0 : ℚ) ≤ n := Nat.cast_nonneg n
      have hone : 1 ≤ (found cfg ((rl.prune now).buckets ip) now).tokens := by linarith
      have hrest := @ih (rl.allow cfg ip now).2 (by
        rw [found_again, spent, if_neg (not_lt.mpr hone)]
        exact le_sub_iff_add_le.mpr hn)
      have hadmits : admits (allowCall cfg) counted rl ⟨ip, now⟩ = true := by
        rw [admits, hcount, allowCall, allow_spent, Bool.true_and]
        exact decide_eq_true hone
      rw [List.replicate_succ, admitted, hadmits, Bool.toNat_true, allowCall, hrest,
        Nat.add_comm]

theorem found_none : found cfg none now = newIpBucket cfg now := by
  rw [found, Option.getD_none, IpBucket.refill]
  exact if_neg (by simp [newIpBucket])

theorem found_idle (h : rl.Wf cfg 0) (hnow : bucketIdleTTL < now) :
    (found cfg ((rl.prune now).buckets ip) now).tokens = cfg.burst := by
  have hgone : (rl.prune now).buckets ip = none := by
    rw [prune_buckets]
    cases hb : rl.buckets ip with
    | none => rfl
    | some b =>
        have hpast := (h ip b hb).past
        have hidle : bucketIdleTTL < now - b.lastRef := by linarith
        rw [Option.filter_some, if_neg (by simp [hidle])]
  rw [hgone, found_none, newIpBucket]

theorem not_rateBounded (hcfg : 600 * cfg.rps < cfg.burst) (hrps : 0 < cfg.rps)
    (hburst : 1 ≤ cfg.burst) : ¬ RateBounded cfg := by
  intro hbound
  -- the client comes back before ten minutes' refill would be its burst
  obtain ⟨now, hidle, hnow⟩ := exists_between ((lt_div_iff₀ hrps).mpr hcfg)
  rw [lt_div_iff₀ hrps] at hnow
  have hburst_nat : ((cfg.burst.toNat : Nat) : ℚ) = cfg.burst := by
    exact_mod_cast Int.toNat_of_nonneg (by omega : 0 ≤ cfg.burst)
  have hnow0 : (0 : ℚ) ≤ now := by linarith
  have hcount : ∀ u : ℚ, 0 ≤ u → u ≤ now →
      between AllowCall.now (ofClient []) 0 now ⟨[], u⟩ = true := by
    intro u h₀ h₁
    simp [between, h₀, h₁]
  have hfull : ((cfg.burst.toNat : Nat) : ℚ) ≤
      (found cfg ((newRateLimiter.prune 0).buckets []) 0).tokens := by
    rw [hburst_nat, show (newRateLimiter.prune 0).buckets [] = none from rfl, found_none]
    exact le_refl _
  have hfirst := admitted_replicate (hcount 0 (le_refl _) hnow0) hfull
  have hwf' : (served (allowCall cfg) newRateLimiter
      (List.replicate cfg.burst.toNat ⟨[], 0⟩)).Wf cfg 0 :=
    served_wf hrps hburst newRateLimiter_wf
  have hsecond := admitted_replicate (hcount now hnow0 (le_refl _))
    (le_of_eq (hburst_nat.trans (found_idle hwf' hidle).symm))
  have hle := hbound (List.replicate cfg.burst.toNat ⟨[], 0⟩ ++
    List.replicate cfg.burst.toNat ⟨[], now⟩) (by
      rw [List.pairwise_append]
      refine ⟨?_, ?_, ?_⟩
      · exact List.pairwise_replicate.mpr (.inr (le_refl _))
      · exact List.pairwise_replicate.mpr (.inr (le_refl _))
      · intro c hc d hd
        rw [List.eq_of_mem_replicate hc, List.eq_of_mem_replicate hd]
        exact hnow0) [] 0 now hnow0
  rw [admitted_append, hfirst, hsecond, Nat.cast_add, hburst_nat] at hle
  linarith

/-- Exactly which configurations bound every client: those whose burst is no more
than ten minutes refill. -/
theorem rate_bounded_iff {getenv : Env} {parseFloat : GoString → Option ℚ}
    (hrps : 0 < (loadRateLimit getenv parseFloat).rps)
    (hburst : 1 ≤ (loadRateLimit getenv parseFloat).burst) :
    RateBounded (loadRateLimit getenv parseFloat) ↔
      ((loadRateLimit getenv parseFloat).burst : ℚ) ≤
        600 * (loadRateLimit getenv parseFloat).rps := by
  constructor
  · intro hbound
    by_contra hgt
    exact not_rateBounded (not_le.mp hgt) hrps hburst hbound
  · intro hle
    exact rateBounded_of_le hle hrps hburst

/-! ## The default burst, and one set by hand -/

theorem intOf_le {r : ℚ} (h : 0 < r) : (intOf r : ℚ) ≤ r := by
  have hnum : 0 ≤ r.num := le_of_lt (Rat.num_pos.mpr h)
  have htrunc : (Int.tdiv r.num r.den : ℚ) ≤ r := by
    rw [Int.tdiv_eq_ediv_of_nonneg hnum, ← Rat.floor_def]
    exact Rat.floor_le r
  rw [intOf]
  split
  · exact htrunc
  · next hout =>
      have hneg : ((-maxInt - 1 : Int) : ℚ) ≤ 0 := by exact_mod_cast (by decide)
      linarith

/-- Twice what `int` gives for a positive number, if that wraps to a burst. -/
theorem wrap_intOf_le {r : ℚ} (h : 0 < r) (hburst : 1 ≤ wrap (intOf r * 2)) :
    wrap (intOf r * 2) ≤ intOf r * 2 := by
  have hnum : 0 ≤ Int.tdiv r.num r.den :=
    Int.tdiv_nonneg (le_of_lt (Rat.num_pos.mpr h)) (Int.natCast_nonneg r.den)
  rw [intOf] at hburst ⊢
  split at hburst
  · next hin =>
      rw [if_pos hin, wrap, Int.bmod_def]
      split <;> omega
  · exact absurd hburst (by decide)

/-- The default is safe: two seconds refill it. -/
theorem default_rateBounded {getenv : Env} {parseFloat : GoString → Option ℚ}
    (hunset : ∀ b, atoi (trimSpace (getenv "GOBOXD_RATE_BURST")) = some b → b ≤ 0)
    (hrps : 0 < (loadRateLimit getenv parseFloat).rps)
    (hburst : 1 ≤ (loadRateLimit getenv parseFloat).burst) :
    RateBounded (loadRateLimit getenv parseFloat) := by
  refine rateBounded_of_le ?_ hrps hburst
  obtain ⟨rps, hpos, hload⟩ : ∃ rps : ℚ, 0 < rps ∧
      loadRateLimit getenv parseFloat = ⟨rps, wrap (intOf rps * 2)⟩ := by
    unfold loadRateLimit at hrps ⊢
    by_cases hraw : trimSpace (getenv "GOBOXD_RATE_LIMIT_RPS") = []
    · simp only [hraw, if_true] at hrps
      exact absurd hrps (lt_irrefl 0)
    · simp only [hraw, if_false] at hrps ⊢
      cases hparse : parseFloat (trimSpace (getenv "GOBOXD_RATE_LIMIT_RPS")) with
      | none =>
          rw [hparse] at hrps
          exact absurd hrps (lt_irrefl 0)
      | some rps =>
          simp only [hparse] at hrps ⊢
          by_cases hle : rps ≤ 0
          · rw [if_pos hle] at hrps
            exact absurd hrps (lt_irrefl 0)
          · refine ⟨rps, not_le.mp hle, ?_⟩
            rw [if_neg hle]
            split
            · next b hb => rw [if_neg (not_lt.mpr (hunset b hb))]
            · rfl
  rw [hload] at hburst ⊢
  have hwrap : ((wrap (intOf rps * 2) : Int) : ℚ) ≤ (intOf rps : ℚ) * 2 := by
    exact_mod_cast wrap_intOf_le hpos hburst
  have hle := intOf_le hpos
  show ((wrap (intOf rps * 2) : Int) : ℚ) ≤ 600 * rps
  linarith

/-- The environment with these two variables. -/
def rateEnv (rps burst : GoString) : Env
  | "GOBOXD_RATE_LIMIT_RPS" => rps
  | "GOBOXD_RATE_BURST" => burst
  | _ => []

/-- `ParseFloat` of the two numbers below. -/
def parseRps (s : GoString) : Option ℚ :=
  if s = str "2" then some 2
  else if s = str "0.0078125" then some (1 / 128)
  else none

theorem rate_bounded_iff_unset :
    RateBounded (loadRateLimit (rateEnv (str "2") []) parseRps) := by
  have hcfg : loadRateLimit (rateEnv (str "2") []) parseRps = ⟨2, 4⟩ := by
    decide +kernel
  refine (rate_bounded_iff ?_ ?_).mpr ?_
  · rw [hcfg]
    norm_num
  · rw [hcfg]
    norm_num
  · rw [hcfg]
    norm_num

/-- Five calls at once, and again 620 seconds later. -/
def returning : List AllowCall :=
  List.replicate 5 ⟨str "203.0.113.9", 0⟩ ++ List.replicate 5 ⟨str "203.0.113.9", 620⟩

theorem ten_calls_let_through :
    ¬ ∀ (getenv : Env) (parseFloat : GoString → Option ℚ),
      0 < (loadRateLimit getenv parseFloat).rps →
      1 ≤ (loadRateLimit getenv parseFloat).burst →
      RateBounded (loadRateLimit getenv parseFloat) := by
  intro h
  have hcfg : loadRateLimit (rateEnv (str "0.0078125") (str "5")) parseRps =
      ⟨1 / 128, 5⟩ := by
    decide +kernel
  have hbound := h (rateEnv (str "0.0078125") (str "5")) parseRps
  rw [hcfg] at hbound
  have hle := hbound (by norm_num) (by norm_num) returning (by decide +kernel)
    (str "203.0.113.9") 0 620 (by norm_num)
  have hten : admitted (allowCall ⟨1 / 128, 5⟩)
      (between AllowCall.now (ofClient (str "203.0.113.9")) 0 620) newRateLimiter
        returning = 10 := by
    decide +kernel
  rw [hten] at hle
  norm_num at hle

end Goboxd.Api
