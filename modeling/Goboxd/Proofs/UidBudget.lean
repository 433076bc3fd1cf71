import Goboxd.Proofs.AdmissionSafety
import Goboxd.Proofs.JailResources
import Goboxd.Proofs.PoolSearch

/-!
# The uid budget

The budget multiplies two bounds that live in different packages. The gate
admits at most `maxJobs` requests, which is a fact about the gate alone; the
service is that gate with more around it, so its runs are runs of the gate. A
request that is admitted has one template jail and at most `NumCPU` jails of
goroutines that have not left the semaphore, since a goroutine leaves it after
its jail is gone. So fewer uids than the budget are held whenever a jail asks
for one, and the uid it gets is not held.

That `Alloc` then finds one is a matter of its search. In a pool of up to `2^62`
uids no sum overflows, every uid in use is one that is held, and the search covers
them all. In a longer one `next + i` can overflow; then uids below the range are
handed out, and what `Release` ignores is never free again. But the search of such
a pool comes to more than `2^62 - 1` different uids, and a map with that many keys
has no room in memory.
-/

namespace Goboxd.Api

open Family Go Runner Uidpool

variable {cfg : ServiceConfig} {s : St HostState Call}

/-! ## The gate in the service -/

def gateView (s : St HostState Call) : St GateState Caller :=
  ⟨s.shared.gate, s.procs.map Call.caller⟩

/-- What the gate and its callers do in the service, they can do on their own. -/
theorem admission_of_service {G : St HostState Call → Act CallAct ServiceEvent → Prop}
    (hr : (service cfg).machine.Reach G s) :
    (admission (readMaxJobs cfg.getenv cfg.numCPU)
      (readMaxQueued cfg.getenv cfg.numCPU)).machine.Reach OwnRelease
      (gateView s) := by
  refine Machine.Reach.simulates gateView ?_ ?_ hr
  · intro s hs
    obtain ⟨hsh, hnil⟩ := hs
    refine ⟨?_, ?_⟩
    · show s.shared.gate = _
      rw [show s.shared = startHost cfg from hsh]
      rfl
    · show s.procs.map Call.caller = []
      rw [hnil]
      rfl
  · intro s a t _ _ hs
    have hown : ∀ (p : ℕ) (a : CallerAct),
        OwnRelease (gateView s) (.own p a) := fun p a h => by cases h
    cases a with
    | own p a =>
        obtain ⟨c, r, hc, hr, rfl⟩ := step_own.mp hs
        have hcaller : (gateView s).procs[p]? = some c.caller := by
          show (s.procs.map Call.caller)[p]? = _
          rw [List.getElem?_map, hc]
          rfl
        have hsame : r.1.gate = s.shared.gate → r.2.caller = c.caller →
            gateView ⟨r.1, s.procs.set p r.2⟩ = gateView s := by
          intro hg hcal
          obtain ⟨hp, hcp⟩ := List.getElem?_eq_some_iff.mp hc
          unfold gateView
          simp only [hg, List.map_set, hcal]
          rw [← hcp, ← List.getElem_map Call.caller, List.set_getElem_self]
          rw [List.length_map]
          exact hp
        cases callStep_move hr with
        | @gate a q hmay hq =>
            refine .inr ⟨.own p a, hown p a, step_own.mpr ⟨c.caller, q, hcaller, hq, ?_⟩⟩
            show St.mk q.1 ((s.procs.set p (c.setCaller q.2)).map Call.caller) = _
            rw [List.map_set]
            rfl
        | @cancel run hrun =>
            refine .inr ⟨.own p .ctxCancel, hown p _, step_own.mpr
              ⟨c.caller, (s.shared.gate, { c.caller with ctxDone := true }), hcaller,
                rfl, ?_⟩⟩
            show St.mk s.shared.gate ((s.procs.set p _).map Call.caller) = _
            rw [List.map_set]
            rfl
        | sandbox | run => exact .inl (hsame rfl rfl)
    | env e =>
        obtain ⟨r, hr, rfl⟩ := step_env.mp hs
        cases e with
        | call req lc =>
            cases hr
            refine .inr ⟨.env .call, fun h => (by cases h), step_env.mpr ⟨_, rfl, ?_⟩⟩
            show St.mk s.shared.gate ((s.procs ++ [_]).map Call.caller) = _
            rw [List.map_append]
            rfl
        | stop =>
            cases hr
            refine .inr ⟨.env .stop, fun h => (by cases h), step_env.mpr ⟨_, rfl, ?_⟩⟩
            show St.mk _ ((s.procs ++ []).map Call.caller) = _
            rw [List.map_append]
            rfl

/-! ## The jails of a call -/

/-- One for a jail that is not gone. -/
def Sandbox.busy (sb : Sandbox) : ℤ := if sb.jail.pc = .gone then 0 else 1

/-- One for a jail whose next operation is `Alloc`. -/
def Sandbox.asks (sb : Sandbox) : ℤ := if sb.jail.pc = .alloc then 1 else 0

theorem busy_le_one (sb : Sandbox) : Sandbox.busy sb ≤ 1 := by
  unfold Sandbox.busy
  split <;> omega

theorem asks_nonneg (sb : Sandbox) : 0 ≤ Sandbox.asks sb := by
  unfold Sandbox.asks
  split <;> omega

theorem uids_add_asks_le (sb : Sandbox) :
    ((sb.uids.length : ℤ) + Sandbox.asks sb) ≤ Sandbox.busy sb := by
  unfold Sandbox.uids Jail.uids Jail.holds Sandbox.asks Sandbox.busy
  cases sb.jail.pc <;> simp

/-- A call has at most its template jail and one jail for each goroutine in the
semaphore. -/
theorem busy_le {c : Call} (hcpu : 1 ≤ cfg.numCPU) (hw : CallWf cfg c) :
    total Sandbox.busy c.sandboxes ≤ cfg.numCPU + 1 := by
  have hsem := sem_eq_inSem hw.run
  have hle := sem_le hw.run
  have hpar := effectiveParallel_le hcpu c.req
  have hsize := hw.size
  have htests := hw.tests
  cases hsb : c.sandboxes with
  | nil =>
      rw [total_nil]
      omega
  | cons tmpl rest =>
      rw [hsb] at hsize htests
      have hone := busy_le_one tmpl
      have hrest : total Sandbox.busy rest ≤ total TestProc.inSem c.run.procs := by
        refine total_le_total (by simpa using hsize) ?_
        intro k sb p hk hp
        have hat := htests k p sb hp hk
        have hsb := busy_le_one sb
        unfold TestProc.inSem
        cases hpc : p.pc with
        | released | finished =>
            rw [hpc] at hat
            have hgone : sb.jail.pc = .gone := hat
            show Sandbox.busy sb ≤ 0
            rw [Sandbox.busy, if_pos hgone]
        | start | jailed | seeded | exec | stored => exact hsb
      rw [total_cons]
      omega

/-- One for each jail of an admitted call whose next operation is `Alloc`. -/
def Call.asks (c : Call) : ℤ :=
  if c.caller.phase = .admitted then total Sandbox.asks c.sandboxes else 0

theorem call_uids_le {c : Call} (hcpu : 1 ≤ cfg.numCPU) (hw : CallWf cfg c) :
    (c.uids.length : ℤ) + c.asks ≤ c.caller.slot * (cfg.numCPU + 1) := by
  by_cases hadm : c.caller.phase = .admitted
  · rw [Call.asks, if_pos hadm, Caller.slot, if_pos hadm, Call.uids,
      length_flatMap_eq_total, ← total_add, Int.one_mul]
    exact Int.le_trans (total_mono fun sb _ => uids_add_asks_le sb) (busy_le hcpu hw)
  · have hnone : c.uids = [] := by
      refine List.flatMap_eq_nil_iff.mpr fun sb hsb => ?_
      rcases idle_of_done hw (.inl hadm) sb hsb with rfl | hpc
      · rfl
      · rw [Sandbox.uids, Jail.uids, Jail.holds, hpc]
        rfl
    rw [Call.asks, if_neg hadm, Caller.slot, if_neg hadm, hnone, Int.zero_mul]
    rfl

theorem call_asks_nonneg (c : Call) : 0 ≤ c.asks := by
  unfold Call.asks
  split
  · exact total_nonneg asks_nonneg _
  · exact Int.le_refl 0

/-! ## The budget -/

theorem one_le_readMaxJobs (hcpu : 1 ≤ cfg.numCPU) :
    1 ≤ readMaxJobs cfg.getenv cfg.numCPU := by
  unfold readMaxJobs
  split
  · split <;> omega
  · exact hcpu

theorem one_le_minUid (getenv : String → GoString) : 1 ≤ minUid getenv := by
  unfold minUid DefaultMinUid
  split
  · split <;> omega
  · omega

/-- Where it is representable, the budget is the product, and it is the size of
the pool. -/
theorem pool_size (hcpu : 1 ≤ cfg.numCPU)
    (hrep : minUid cfg.getenv +
      readMaxJobs cfg.getenv cfg.numCPU * (cfg.numCPU + 1) ≤ maxInt) :
    (startHost cfg).pool.size =
      readMaxJobs cfg.getenv cfg.numCPU * (cfg.numCPU + 1) := by
  have hjobs := one_le_readMaxJobs hcpu
  have hmin := one_le_minUid cfg.getenv
  have hconc : ConcurrentJobs cfg.getenv cfg.numCPU =
      readMaxJobs cfg.getenv cfg.numCPU := rfl
  generalize readMaxJobs cfg.getenv cfg.numCPU = jobs at *
  have hper : cfg.numCPU + 1 ≤ jobs * (cfg.numCPU + 1) :=
    le_mul_of_one_le_left (by omega) hjobs
  have hwrap : wrap (cfg.numCPU + 1) = cfg.numCPU + 1 :=
    wrap_of_inRange ⟨by unfold maxInt; omega, by omega⟩
  have hprod : wrap (jobs * (cfg.numCPU + 1)) = jobs * (cfg.numCPU + 1) :=
    wrap_of_inRange ⟨by unfold maxInt; omega, by omega⟩
  have hdiv : jobs ≤ Int.tdiv maxInt (cfg.numCPU + 1) := by
    rw [Int.tdiv_eq_ediv_of_nonneg (by decide)]
    exact (Int.le_ediv_iff_mul_le (by omega)).mpr (by omega)
  have hbudget : UidBudget cfg.getenv cfg.numCPU = jobs * (cfg.numCPU + 1) := by
    have hj : (if jobs < 1 then 1 else jobs) = jobs := if_neg (by omega)
    have hc : (if cfg.numCPU < 1 then 1 else cfg.numCPU) = cfg.numCPU :=
      if_neg (by omega)
    unfold UidBudget
    simp only [hconc, hj, hc, hwrap, hprod]
    rw [if_neg (by omega)]
  show (New _ (UidBudget cfg.getenv cfg.numCPU)).size = _
  rw [hbudget]
  show (if jobs * (cfg.numCPU + 1) < 1 then 1 else jobs * (cfg.numCPU + 1)) = _
  rw [if_neg (by omega)]

/-- At any moment the uids that are held and the jails that ask for one are
within the product of the two bounds. -/
theorem held_add_asks_le (hcpu : 1 ≤ cfg.numCPU)
    (hr : (service cfg).machine.Reachable s) :
    ((heldUids s).length : ℤ) + total Call.asks s.procs ≤
      readMaxJobs cfg.getenv cfg.numCPU * (cfg.numCPU + 1) := by
  have hgate := admission_of_service hr
  have hslots := inFlight_eq_slots hgate
  have hjobs := (admissionSafe hgate).inFlight_le
  have hone := one_le_readMaxJobs hcpu
  rw [show (gateView s).procs = s.procs.map Call.caller from rfl, total_map] at hslots
  have hcalls : total (fun c : Call => (c.uids.length : ℤ) + c.asks) s.procs ≤
      total (fun c : Call => c.caller.slot * (cfg.numCPU + 1)) s.procs := by
    refine total_mono fun c hc => ?_
    obtain ⟨p, hp⟩ := List.mem_iff_getElem?.mp hc
    exact call_uids_le hcpu (callWf_of_reachable hr p c hp)
  rw [total_add, total_mul, ← hslots] at hcalls
  rw [heldUids, length_flatMap_eq_total]
  refine Int.le_trans hcalls (Int.mul_le_mul_of_nonneg_right ?_ (by omega))
  omega

/-- A jail that asks for a uid is one of an admitted call. -/
theorem one_le_asks (hr : (service cfg).machine.Reachable s) {t : St HostState Call}
    {a : Act CallAct ServiceEvent} (hs : (service cfg).machine.step s a = some t)
    {sb : Sandbox} {e : Option GoString} (hm : JailMoves s a sb e)
    (hpc : sb.jail.pc = .alloc) : 1 ≤ total Call.asks s.procs := by
  obtain ⟨p, i, name, c, rfl, hc, hi⟩ := hm
  obtain ⟨c', r, hc', hstep, -⟩ := step_own.mp hs
  rw [hc] at hc'
  cases hc'
  have hw := callWf_of_reachable hr p c hc
  have hmay : c.maySandbox i sb = true := by
    have hmove : CallMove cfg s.shared c (.sandbox i e name) r := callStep_move hstep
    cases hmove with
    | sandbox hi' hmay =>
        rw [hi] at hi'
        cases hi'
        exact hmay
  have hadm : c.caller.phase = .admitted := by
    by_cases hrel : c.caller.phase = .released
    · have hgone := gone_of_done hw (hw.released hrel) sb (List.mem_of_getElem? hi)
      rw [hpc] at hgone
      cases hgone
    · by_cases hadm : c.caller.phase = .admitted
      · exact hadm
      · -- only the template jail is there, and it waits for the admission
        obtain ⟨-, hfresh⟩ := hw.waiting hadm hrel
        rw [hfresh] at hi
        cases i with
        | zero =>
            rw [Call.maySandbox, Bool.and_eq_true, decide_eq_true_eq] at hmay
            exact hmay.1
        | succ k => cases hi
  have hone : 1 ≤ total Sandbox.asks c.sandboxes := by
    have hle := le_total asks_nonneg hi
    rw [Sandbox.asks, if_pos hpc] at hle
    exact hle
  have hle := le_total call_asks_nonneg hc
  rw [Call.asks, if_pos hadm] at hle
  omega

/-! ## The search -/

/-- If the step is an `Alloc`, it hands out a uid. -/
def AllocSucceeds (cfg : ServiceConfig) (s : St HostState Call)
    (a : Act CallAct ServiceEvent) : Prop :=
  ∀ t sb e, (service cfg).machine.step s a = some t → JailMoves s a sb e →
    sb.jail.pc = .alloc → ∃ uid pool, s.shared.pool.alloc = .ok (uid, pool)

/-- The map of the pool fits a 64-bit address space, in which each of its keys takes eight
bytes. -/
def FitsMemory (p : Pool) : Prop := 8 * p.inUse.length ≤ 18446744073709551616

section

variable (hcpu : 1 ≤ cfg.numCPU)
  (hrep : minUid cfg.getenv +
    readMaxJobs cfg.getenv cfg.numCPU * (cfg.numCPU + 1) ≤ maxInt)

include hcpu

theorem one_le_budget :
    1 ≤ readMaxJobs cfg.getenv cfg.numCPU * (cfg.numCPU + 1) := by
  have hjobs := one_le_readMaxJobs hcpu
  have hper : cfg.numCPU + 1 ≤ readMaxJobs cfg.getenv cfg.numCPU * (cfg.numCPU + 1) :=
    le_mul_of_one_le_left (by omega) hjobs
  omega

include hrep

/-- The pool of a reachable state has the range it was made with. -/
theorem pool_range (hr : (service cfg).machine.Reachable s) :
    s.shared.pool.min = minUid cfg.getenv ∧ s.shared.pool.size =
      readMaxJobs cfg.getenv cfg.numCPU * (cfg.numCPU + 1) := by
  obtain ⟨hmin, hsize⟩ := pool_of_reachable hr
  exact ⟨hmin, hsize.trans (pool_size hcpu hrep)⟩

/-- What is kept by every `Alloc` and does not depend on what is in use, is kept. -/
theorem pool_inv {I : Pool → Prop} (hstart : I (startHost cfg).pool)
    (halloc : ∀ p p' : Pool, ∀ uid,
      p.size = readMaxJobs cfg.getenv cfg.numCPU * (cfg.numCPU + 1) → I p →
        p.alloc = .ok (uid, p') → I p')
    (hrelease : ∀ (p : Pool) uid, I p → I (p.release uid))
    (hr : (service cfg).machine.Reachable s) : I s.shared.pool := by
  refine hr.invariant (I := fun s => I s.shared.pool) ?_ ?_
  · intro s hs
    rw [show s.shared = startHost cfg from hs.1]
    exact hstart
  · intro s a t hreach hI _ hs
    cases a with
    | own p a =>
        obtain ⟨c, r, hc, hr, rfl⟩ := step_own.mp hs
        show I r.1.pool
        cases callStep_move hr with
        | gate | cancel | run => exact hI
        | @sandbox i e name sb sb' pool disk hi hmay hstep =>
            have heff := jailStep_effect (sandboxStep_some hstep).1
            generalize hpair : (pool, sb'.jail) = q at heff
            show I pool
            rw [show pool = q.1 from congrArg Prod.fst hpair]
            cases heff with
            | alloc _ ha => exact halloc _ _ _ (pool_range hcpu hrep hreach).2 hI ha
            | release => exact hrelease _ _ hI
            | keep => exact hI
    | env e =>
        obtain ⟨r, he, rfl⟩ := step_env.mp hs
        cases e <;> cases he <;> exact hI

/-- The search starts within a range of either side of its bottom. -/
theorem next_bounds (hr : (service cfg).machine.Reachable s) :
    -s.shared.pool.size < s.shared.pool.next ∧
      s.shared.pool.next < s.shared.pool.size := by
  have hone := one_le_budget hcpu
  refine pool_inv (I := fun p => -p.size < p.next ∧ p.next < p.size) hcpu hrep ?_ ?_ ?_ hr
  · show -(startHost cfg).pool.size < 0 ∧ 0 < (startHost cfg).pool.size
    rw [pool_size hcpu hrep]
    omega
  · intro p p' uid hsize _ ha
    obtain ⟨k, -, -, -, -, rfl⟩ := Pool.alloc_spec ha
    have hpos : 0 < p.size := by omega
    exact ⟨Int.lt_tmod_of_pos _ hpos, Int.tmod_lt_of_pos _ hpos⟩
  · intro p uid hI
    obtain ⟨-, hsize, hnext⟩ := p.release_min_size uid
    rw [hsize, hnext]
    exact hI

section

variable (hsmall : readMaxJobs cfg.getenv cfg.numCPU * (cfg.numCPU + 1) ≤
  4611686018427387904)

include hsmall

theorem ranged_of_small (hr : (service cfg).machine.Reachable s) : s.shared.pool.Ranged := by
  have hone := one_le_budget hcpu
  have hmin := one_le_minUid cfg.getenv
  refine pool_inv hcpu hrep ?_ ?_ (fun p uid hI => hI.release uid) hr
  · refine ⟨?_, ?_, Int.le_refl 0, ?_⟩
    · show 0 ≤ minUid cfg.getenv
      omega
    · rw [pool_size hcpu hrep]
      exact hrep
    · rw [pool_size hcpu hrep]
      show (0 : ℤ) < _
      omega
  · intro p p' uid hsize hI ha
    exact (Pool.alloc_ranged hI (Pool.clear_of_le hI (hsize ▸ hsmall)) ha).2

theorem allocsInPool_of_small (hr : (service cfg).machine.Reachable s)
    (a : Act CallAct ServiceEvent) : AllocsInPool s a := by
  intro sb e hm hpc uid hfirst
  have hranged := ranged_of_small hcpu hrep hsmall hr
  obtain ⟨pool, ha⟩ := hfirst.alloc
  have hclear := Pool.clear_of_le hranged ((pool_range hcpu hrep hr).2 ▸ hsmall)
  have hin := (Pool.alloc_ranged hranged hclear ha).1
  obtain ⟨hmin, htop, hnext, hlt⟩ := hranged
  unfold InPool
  rw [wrap_of_inRange ⟨by unfold maxInt; omega, htop⟩]
  exact hin

/-- Without overflows, the uids in use are those that are held. -/
theorem allocSucceeds_of_small (hr : (service cfg).machine.Reachable s)
    (a : Act CallAct ServiceEvent) : AllocSucceeds cfg s a := by
  intro t sb e hs hm hpc
  have hranged := ranged_of_small hcpu hrep hsmall hr
  have hsize := (pool_range hcpu hrep hr).2
  refine Pool.alloc_of_room hranged (Pool.clear_of_le hranged (hsize ▸ hsmall)) ?_
  have hperm := (uids_exact (G := fun _ _ => True)
    (fun _ _ hr _ => allocsInPool_of_small hcpu hrep hsmall hr _) hr).exact fun _ h => h
  have hheld := held_add_asks_le hcpu hr
  have hone := one_le_asks hr hs hm hpc
  rw [hperm.length_eq, hsize]
  show ((heldUids s).length : ℤ) < _
  omega

end

/-- Where sums can overflow, the pool is too long for all of it to be in use. -/
theorem allocSucceeds_of_large
    (hlarge : 4611686018427387904 < readMaxJobs cfg.getenv cfg.numCPU * (cfg.numCPU + 1))
    (hmem : FitsMemory s.shared.pool) (hr : (service cfg).machine.Reachable s)
    (a : Act CallAct ServiceEvent) : AllocSucceeds cfg s a := by
  intro t sb e _ _ _
  obtain ⟨hlo, hhi⟩ := next_bounds hcpu hrep hr
  obtain ⟨hmin, hsize⟩ := pool_range hcpu hrep hr
  have hone := one_le_minUid cfg.getenv
  cases ha : s.shared.pool.alloc with
  | ok r => exact ⟨r.1, r.2, rfl⟩
  | error msg =>
      have hfull := Pool.size_le_of_error (by omega) (by omega) hlo hhi ha
      unfold FitsMemory at hmem
      omega

end

/-- The uid budget suffices. Where the range is representable, never more uids
are held than the gate and the semaphores admit, `Alloc` never hands out one that
is held, and it always hands one out: with a budget of up to `2^62` in any case,
and with a larger one as long as the map of the pool fits the memory. -/
theorem uid_budget_suffices (hcpu : 1 ≤ cfg.numCPU)
    (hrep : minUid cfg.getenv +
      readMaxJobs cfg.getenv cfg.numCPU * (cfg.numCPU + 1) ≤ maxInt)
    (hr : (service cfg).machine.Reachable s) :
    ((heldUids s).length : ℤ) ≤
        readMaxJobs cfg.getenv cfg.numCPU * (cfg.numCPU + 1) ∧
      (∀ uid pool, s.shared.pool.alloc = .ok (uid, pool) → uid ∉ heldUids s) ∧
      (readMaxJobs cfg.getenv cfg.numCPU * (cfg.numCPU + 1) ≤ 4611686018427387904 ∨
          FitsMemory s.shared.pool →
        ∀ a, AllocSucceeds cfg s a) := by
  refine ⟨?_, ?_, ?_⟩
  · have hheld := held_add_asks_le hcpu hr
    have hasks := total_nonneg call_asks_nonneg s.procs
    omega
  · intro uid pool ha hmem
    exact (Pool.alloc_ok ha).2.1 ((uids_balanced hr).mem_of_held hmem)
  · intro hroom a
    by_cases hsmall : readMaxJobs cfg.getenv cfg.numCPU * (cfg.numCPU + 1) ≤
        4611686018427387904
    · exact allocSucceeds_of_small hcpu hrep hsmall hr a
    · exact allocSucceeds_of_large hcpu hrep (by omega) (hroom.resolve_left hsmall) hr a

theorem uid_budget_suffices_one_job :
    ∃ s, (service (oneCPU "1")).machine.exec ⟨startHost (oneCPU "1"), []⟩
        [newCall, .own 0 (.gate .enter), tmplStep 0 none []] = some s ∧
      heldUids s = [10000] ∧ ((heldUids s).length : ℤ) ≤ 1 * (1 + 1) ∧
      (∀ uid pool, s.shared.pool.alloc = .ok (uid, pool) → uid ∉ heldUids s) ∧
      ∀ a, AllocSucceeds (oneCPU "1") s a := by
  have hinit : (service (oneCPU "1")).machine.init ⟨startHost (oneCPU "1"), []⟩ :=
    ⟨rfl, rfl⟩
  have hr := Machine.reachable_of_exec
    [newCall, .own 0 (.gate .enter), tmplStep 0 none []] hinit rfl
  have h := uid_budget_suffices (by decide) (by decide) hr
  exact ⟨_, rfl, rfl, h.1, h.2.1, h.2.2 (.inl (by decide))⟩

end Goboxd.Api
