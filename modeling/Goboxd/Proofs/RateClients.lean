import Goboxd.Proofs.RateBound

/-!
# What a client of the throttle can rely on

The buckets share one map, and every call deletes the idle ones of all clients. No
client notices: a bucket that somebody else's call deletes is one that the
client's own next call would have deleted, because time has only gone on since.
So the map as it looks after the pruning is the same to a client whoever else
calls, and that is what its answers are read off.

A client that waits for a token gets it, unless the bucket cannot hold one. That
happens when the burst is not set and the rate is below one: the default is twice
the rate, but the rate is rounded down before it is doubled.
-/

namespace Goboxd.Api

open Go Config Server

variable {cfg : RateLimitCfg} {rl : RateLimiter} {ip : GoString} {now : ℚ}

/-! ## The buckets of the others -/

theorem prune_prune {later : ℚ} (hle : now ≤ later) :
    ((rl.prune now).prune later).buckets ip = (rl.prune later).buckets ip := by
  rw [prune_buckets, prune_buckets, prune_buckets]
  cases rl.buckets ip with
  | none => rfl
  | some b =>
      by_cases hidle : bucketIdleTTL < now - b.lastRef
      · have hlater : bucketIdleTTL < later - b.lastRef := by linarith
        rw [Option.filter_some, if_neg (by simp [hidle]), Option.filter_some,
          if_neg (by simp [hlater])]
        rfl
      · rw [Option.filter_some, if_pos (by simp [hidle])]

/-- The answers that a client gets. -/
def clientAnswers (cfg : RateLimitCfg) (ip : GoString) :
    RateLimiter → List AllowCall → List Bool
  | _, [] => []
  | rl, c :: cs =>
      if c.ip = ip then
        (allowCall cfg rl c).1 :: clientAnswers cfg ip (allowCall cfg rl c).2 cs
      else clientAnswers cfg ip (allowCall cfg rl c).2 cs

/-- The two maps look the same to the client from a time on. -/
def AgreeFrom (ip : GoString) (t : ℚ) (rl rl' : RateLimiter) : Prop :=
  ∀ now, t ≤ now → (rl.prune now).buckets ip = (rl'.prune now).buckets ip

theorem AgreeFrom.later {rl' : RateLimiter} {t : ℚ} (h : AgreeFrom ip t rl rl')
    (hle : t ≤ now) : AgreeFrom ip now rl rl' :=
  fun u hu => h u (le_trans hle hu)

/-- Somebody else's call makes no difference. -/
theorem AgreeFrom.other {rl' : RateLimiter} {ip' : GoString} {t : ℚ}
    (h : AgreeFrom ip t rl rl') (hle : t ≤ now) (hne : ip ≠ ip') :
    AgreeFrom ip now (rl.allow cfg ip' now).2 rl' := by
  intro later hlater
  calc ((rl.allow cfg ip' now).2.prune later).buckets ip
      = ((rl.prune now).prune later).buckets ip := by
        rw [prune_buckets, prune_buckets (rl.prune now), allow_other hne]
    _ = (rl.prune later).buckets ip := prune_prune hlater
    _ = (rl'.prune later).buckets ip := h later (le_trans hle hlater)

theorem AgreeFrom.own {rl' : RateLimiter} {t : ℚ} (h : AgreeFrom ip t rl rl')
    (hle : t ≤ now) :
    AgreeFrom ip now (rl.allow cfg ip now).2 (rl'.allow cfg ip now).2 := by
  intro later _
  rw [prune_buckets, prune_buckets, allow_self, allow_self, h now hle]

/-- A client is answered as if it were the only one. -/
theorem clientAnswers_filter (cfg : RateLimitCfg) (ip : GoString) :
    ∀ {calls : List AllowCall} {rl rl' : RateLimiter} {t : ℚ}, AgreeFrom ip t rl rl' →
      (∀ c ∈ calls, t ≤ c.now) → (calls.Pairwise fun c d => c.now ≤ d.now) →
      clientAnswers cfg ip rl calls =
        clientAnswers cfg ip rl' (calls.filter (ofClient ip)) := by
  intro calls
  induction calls with
  | nil => intro rl rl' t _ _ _; rfl
  | cons c cs ih =>
      intro rl rl' t hagree hfrom hsorted
      have htc := hfrom c List.mem_cons_self
      have hcs := (List.pairwise_cons.mp hsorted).1
      have hrest := (List.pairwise_cons.mp hsorted).2
      by_cases heq : c.ip = ip
      · have hkept : ofClient ip c = true := decide_eq_true heq
        rw [List.filter_cons_of_pos hkept, clientAnswers, clientAnswers, if_pos heq,
          if_pos heq]
        have hanswer : (allowCall cfg rl c).1 = (allowCall cfg rl' c).1 := by
          rw [allowCall, allowCall, allow_spent, allow_spent, heq, hagree c.now htc]
        have htail := @ih (allowCall cfg rl c).2 (allowCall cfg rl' c).2 c.now (by
          rw [allowCall, allowCall, heq]
          exact hagree.own htc) hcs hrest
        rw [hanswer, htail]
      · have hdropped : ¬ ofClient ip c = true := by simp [heq]
        rw [List.filter_cons_of_neg hdropped, clientAnswers, if_neg heq]
        exact ih (hagree.other htc (Ne.symm heq)) hcs hrest

/-- A call leaves no bucket that was idle for too long. -/
theorem allow_fresh {ip' : GoString} {b : IpBucket}
    (h : ((rl.allow cfg ip now).2).buckets ip' = some b) :
    now - b.lastRef ≤ bucketIdleTTL := by
  have hpruned : ∀ {key : GoString} {b : IpBucket},
      (rl.prune now).buckets key = some b → now - b.lastRef ≤ bucketIdleTTL := by
    intro key b hb
    rw [prune_buckets] at hb
    exact not_lt.mp (by simpa using (Option.filter_eq_some_iff.mp hb).2)
  by_cases heq : ip' = ip
  · rw [heq, allow_self] at h
    cases h
    have hlast : ∀ x : IpBucket, now - x.lastRef ≤ bucketIdleTTL →
        now - (x.refill cfg now).lastRef ≤ bucketIdleTTL := by
      intro x hx
      rw [IpBucket.refill]
      split
      · show now - now ≤ bucketIdleTTL
        rw [sub_self]
        exact (by norm_num [bucketIdleTTL])
      · exact hx
    have hfound : now - (((rl.prune now).buckets ip).getD (newIpBucket cfg now)).lastRef ≤
        bucketIdleTTL := by
      cases hb : (rl.prune now).buckets ip with
      | none =>
          show now - now ≤ bucketIdleTTL
          rw [sub_self]
          exact (by norm_num [bucketIdleTTL])
      | some b => exact hpruned hb
    rw [spent]
    split
    · exact hlast _ hfound
    · exact hlast _ hfound
  · rw [allow_other heq] at h
    exact hpruned h

/-- Clients do not affect each other, and what is left after a call is fresh. -/
theorem clients_independent (cfg : RateLimitCfg) (ip : GoString) :
    (∀ calls calls' : List AllowCall, (calls.Pairwise fun c d => c.now ≤ d.now) →
      (calls'.Pairwise fun c d => c.now ≤ d.now) →
      calls.filter (ofClient ip) = calls'.filter (ofClient ip) →
      clientAnswers cfg ip newRateLimiter calls =
        clientAnswers cfg ip newRateLimiter calls') ∧
      ∀ (calls : List AllowCall) (c : AllowCall) (b : IpBucket),
        (served (allowCall cfg) newRateLimiter (calls ++ [c])).buckets ip = some b →
          c.now - b.lastRef ≤ bucketIdleTTL := by
  constructor
  · intro calls calls' hsorted hsorted' hsame
    have halone : ∀ cs : List AllowCall, (cs.Pairwise fun c d => c.now ≤ d.now) →
        clientAnswers cfg ip newRateLimiter cs =
          clientAnswers cfg ip newRateLimiter (cs.filter (ofClient ip)) := by
      intro cs hcs
      cases cs with
      | nil => rfl
      | cons c cs =>
          refine clientAnswers_filter cfg ip (t := c.now) (fun _ _ => rfl) ?_ hcs
          intro d hd
          rcases List.mem_cons.mp hd with rfl | hd
          · exact le_refl _
          · exact (List.pairwise_cons.mp hcs).1 d hd
    rw [halone calls hsorted, halone calls' hsorted', hsame]
  · intro calls c b hb
    rw [served_append] at hb
    exact allow_fresh hb

/-! ## Waiting for a token -/

/-- No client is locked out. Its first call is let through, and so is one that comes
a token's time after its call before: `last` is that call, and `between` are calls of
others. A client's clock does not run backwards. -/
structure NeverLocksOut (cfg : RateLimitCfg) : Prop where
  first : ∀ (calls : List AllowCall) (ip : GoString) (now : ℚ),
    (∀ c ∈ calls, c.ip ≠ ip) →
      (allowCall cfg (served (allowCall cfg) newRateLimiter calls) ⟨ip, now⟩).1 = true
  again : ∀ (before others : List AllowCall) (last : AllowCall) (now : ℚ),
    (∀ c ∈ before, c.ip = last.ip → c.now ≤ last.now) →
    (∀ c ∈ others, c.ip ≠ last.ip) → last.now + 1 / cfg.rps ≤ now →
      (allowCall cfg (served (allowCall cfg) newRateLimiter (before ++ last :: others))
        ⟨last.ip, now⟩).1 = true

/-- Every bucket owes nothing and was last touched by a call of its client. -/
def Traced (calls : List AllowCall) (rl : RateLimiter) : Prop :=
  ∀ ip b, rl.buckets ip = some b →
    0 ≤ b.tokens ∧ ∃ c ∈ calls, c.ip = ip ∧ b.lastRef = c.now

theorem Traced.allow {calls : List AllowCall} (hrps : 0 < cfg.rps)
    (hburst : 1 ≤ cfg.burst) (h : Traced calls rl) (c : AllowCall) :
    Traced (calls ++ [c]) (allowCall cfg rl c).2 := by
  have hpruned : Traced calls (rl.prune c.now) := by
    intro ip b hb
    rw [prune_buckets] at hb
    exact h ip b (Option.filter_eq_some_iff.mp hb).1
  have hgrow : ∀ {ip : GoString} {t : ℚ}, (∃ d ∈ calls, d.ip = ip ∧ t = d.now) →
      ∃ d ∈ calls ++ [c], d.ip = ip ∧ t = d.now := by
    intro ip t hd
    obtain ⟨d, hmem, hd⟩ := hd
    exact ⟨d, List.mem_append_left _ hmem, hd⟩
  intro ip b hb
  rw [allowCall] at hb
  by_cases heq : ip = c.ip
  · rw [heq, allow_self] at hb
    cases hb
    -- the bucket that the call looked into
    have hfound : 0 ≤ (((rl.prune c.now).buckets c.ip).getD
          (newIpBucket cfg c.now)).tokens ∧
        ∃ d ∈ calls ++ [c], d.ip = c.ip ∧ (((rl.prune c.now).buckets c.ip).getD
          (newIpBucket cfg c.now)).lastRef = d.now := by
      cases hb : (rl.prune c.now).buckets c.ip with
      | none =>
          refine ⟨?_, c, List.mem_append_right _ (List.mem_singleton_self c), rfl, rfl⟩
          show (0 : ℚ) ≤ cfg.burst
          exact_mod_cast (by omega : 0 ≤ cfg.burst)
      | some b =>
          obtain ⟨hnonneg, hlast⟩ := hpruned c.ip b hb
          exact ⟨hnonneg, hgrow hlast⟩
    have hlast : ∃ d ∈ calls ++ [c], d.ip = c.ip ∧
        ((((rl.prune c.now).buckets c.ip).getD (newIpBucket cfg c.now)).refill cfg
          c.now).lastRef = d.now := by
      rcases @refill_lastRef cfg c.now (((rl.prune c.now).buckets c.ip).getD
        (newIpBucket cfg c.now)) with hnow | hold
      · exact ⟨c, List.mem_append_right _ (List.mem_singleton_self c), rfl, hnow⟩
      · rw [hold]
        exact hfound.2
    have hnonneg := @refill_nonneg cfg c.now _ hrps hburst hfound.1
    rw [heq, spent]
    split
    · exact ⟨hnonneg, hlast⟩
    · next hone => exact ⟨sub_nonneg.mpr (not_lt.mp hone), hlast⟩
  · rw [allow_other heq] at hb
    obtain ⟨hnonneg, hlast⟩ := hpruned ip b hb
    exact ⟨hnonneg, hgrow hlast⟩

theorem Traced.served (hrps : 0 < cfg.rps) (hburst : 1 ≤ cfg.burst) :
    ∀ {calls seen : List AllowCall} {rl : RateLimiter}, Traced seen rl →
      Traced (seen ++ calls) (served (allowCall cfg) rl calls) := by
  intro calls
  induction calls with
  | nil =>
      intro seen rl h
      rw [List.append_nil]
      exact h
  | cons c cs ih =>
      intro seen rl h
      rw [List.append_cons, Server.served]
      exact ih (h.allow hrps hburst c)

theorem served_traced (hrps : 0 < cfg.rps) (hburst : 1 ≤ cfg.burst)
    (calls : List AllowCall) :
    Traced calls (served (allowCall cfg) newRateLimiter calls) :=
  have hnew : Traced [] newRateLimiter := fun _ _ hb => by cases hb
  Traced.served hrps hburst hnew

/-- A client whose calls were all a token's time ago finds a token. -/
theorem Traced.hasToken {calls : List AllowCall} (hrps : 0 < cfg.rps)
    (hburst : 1 ≤ cfg.burst) (h : Traced calls rl)
    (hwait : ∀ c ∈ calls, c.ip = ip → c.now + 1 / cfg.rps ≤ now) :
    (rl.allow cfg ip now).1 = true := by
  have hone : (1 : ℚ) ≤ cfg.burst := by exact_mod_cast hburst
  rw [allow_spent]
  refine decide_eq_true ?_
  cases hb : (rl.prune now).buckets ip with
  | none =>
      rw [found_none]
      exact hone
  | some b =>
      rw [prune_buckets] at hb
      obtain ⟨hnonneg, c, hc, hip, hlast⟩ := h ip b (Option.filter_eq_some_iff.mp hb).1
      have hage := hwait c hc hip
      have htoken : 0 < 1 / cfg.rps := one_div_pos.mpr hrps
      have helapsed : 1 / cfg.rps ≤ now - b.lastRef := by linarith
      have hgain : 1 ≤ cfg.rps * (now - b.lastRef) := by
        calc (1 : ℚ) = cfg.rps * (1 / cfg.rps) := (mul_one_div_cancel hrps.ne').symm
          _ ≤ cfg.rps * (now - b.lastRef) :=
              mul_le_mul_of_nonneg_left helapsed (le_of_lt hrps)
      have hpos : 0 < now - b.lastRef := by linarith
      rw [found, Option.getD_some, IpBucket.refill]
      simp only [hpos, if_true]
      split
      · exact hone
      · show (1 : ℚ) ≤ b.tokens + cfg.rps * (now - b.lastRef)
        linarith

theorem neverLocksOut_iff_burst (hrps : 0 < cfg.rps) :
    NeverLocksOut cfg ↔ 1 ≤ cfg.burst := by
  constructor
  · intro h
    have hfirst := h.first [] [] 0 (by simp)
    rw [allowCall, allow_spent] at hfirst
    have hone := of_decide_eq_true hfirst
    have htokens : (1 : ℚ) ≤ (found cfg none 0).tokens := hone
    rw [found_none] at htokens
    have hcap : (1 : ℚ) ≤ cfg.burst := htokens
    exact_mod_cast hcap
  · intro hburst
    constructor
    · intro calls ip now hnew
      refine (served_traced hrps hburst calls).hasToken hrps hburst ?_
      intro c hc heq
      exact absurd heq (hnew c hc)
    · intro before others last now hclock hothers hwait
      refine (served_traced hrps hburst _).hasToken hrps hburst ?_
      intro c hc heq
      rcases List.mem_append.mp hc with hc | hc
      · have hle := hclock c hc heq
        linarith
      · rcases List.mem_cons.mp hc with rfl | hc
        · exact hwait
        · exact absurd heq (hothers c hc)

/-- The default burst holds a token exactly for rates from one on that `int` can
double. -/
theorem one_le_default_burst {r : ℚ} (hpos : 0 < r) :
    1 ≤ wrap (intOf r * 2) ↔ 1 ≤ r ∧ r < 4611686018427387904 := by
  have hnum : 0 ≤ r.num := le_of_lt (Rat.num_pos.mpr hpos)
  have hfloor : Int.tdiv r.num r.den = ⌊r⌋ := by
    rw [Int.tdiv_eq_ediv_of_nonneg hnum, ← Rat.floor_def]
    rfl
  have hnonneg : 0 ≤ ⌊r⌋ := Int.floor_nonneg.mpr (le_of_lt hpos)
  have hone : 1 ≤ r ↔ 1 ≤ ⌊r⌋ := by
    rw [Int.le_floor, Int.cast_one]
  have hlarge : r < 4611686018427387904 ↔ ⌊r⌋ < 4611686018427387904 := by
    rw [Int.floor_lt]
    norm_num
  rw [hone, hlarge, intOf, hfloor, wrap, Int.bmod_def]
  unfold maxInt
  split
  · split <;> omega
  · omega

/-- Exactly when no client is locked out. -/
theorem never_locks_out_iff {getenv : Env} {parseFloat : GoString → Option ℚ} {rps : ℚ}
    (hset : trimSpace (getenv "GOBOXD_RATE_LIMIT_RPS") ≠ [])
    (hparse : parseFloat (trimSpace (getenv "GOBOXD_RATE_LIMIT_RPS")) = some rps)
    (hrps : 0 < rps) :
    NeverLocksOut (loadRateLimit getenv parseFloat) ↔
      (∃ b, atoi (trimSpace (getenv "GOBOXD_RATE_BURST")) = some b ∧ 0 < b) ∨
        (1 ≤ rps ∧ rps < 4611686018427387904) := by
  have hload : (loadRateLimit getenv parseFloat).rps = rps ∧
      (1 ≤ (loadRateLimit getenv parseFloat).burst ↔
        (∃ b, atoi (trimSpace (getenv "GOBOXD_RATE_BURST")) = some b ∧ 0 < b) ∨
          1 ≤ wrap (intOf rps * 2)) := by
    unfold loadRateLimit
    simp only [hset, hparse, not_le.mpr hrps, if_false]
    cases hburst : atoi (trimSpace (getenv "GOBOXD_RATE_BURST")) with
    | none => simp
    | some b =>
        refine ⟨rfl, ?_⟩
        by_cases hb : 0 < b
        · simp only [hb, if_true]
          exact ⟨fun _ => .inl ⟨b, rfl, hb⟩, fun _ => by omega⟩
        · simp only [hb, if_false]
          constructor
          · exact .inr
          · rintro (⟨b', heq, hb'⟩ | hdefault)
            · cases heq
              exact absurd hb' hb
            · exact hdefault
  rw [neverLocksOut_iff_burst (by rw [hload.1]; exact hrps), hload.2,
    one_le_default_burst hrps]

theorem never_locks_out_iff_two :
    NeverLocksOut (loadRateLimit (rateEnv (str "2") []) parseRps) :=
  (never_locks_out_iff (by decide) (show _ = some (2 : ℚ) by decide +kernel)
    (by norm_num)).mpr (.inr ⟨by norm_num, by norm_num⟩)

/-- A rate below one and no burst: the bucket is empty from the start. -/
theorem locked_out_below_one :
    ¬ ∀ (getenv : Env) (parseFloat : GoString → Option ℚ),
      0 < (loadRateLimit getenv parseFloat).rps →
        NeverLocksOut (loadRateLimit getenv parseFloat) := by
  intro h
  have hcfg : loadRateLimit (rateEnv (str "0.0078125") []) parseRps = ⟨1 / 128, 0⟩ := by
    decide +kernel
  have hfirst := (h (rateEnv (str "0.0078125") []) parseRps (by
    rw [hcfg]
    norm_num)).first [] (str "203.0.113.9") 0 (by simp)
  rw [hcfg] at hfirst
  exact absurd hfirst (by decide +kernel)

end Goboxd.Api
