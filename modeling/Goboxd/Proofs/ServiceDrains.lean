import Goboxd.Lib.Drain
import Goboxd.Proofs.UidBudget

/-!
# The service drains

Whatever has been asked of the service, it comes to an end with it: its own operations can
only be so many before every call has returned, and until then there is always one to make.
What clients do, a disconnect or another request, is not among them.

That the operations run out is a measure of what a call still has to do, each place of a
jail, of a goroutine and of `ExecuteRun` with its own weight. Only the gate is different: a
`release` sends all the waiters back to look again, and who finds the slot taken waits anew.
So an admitted call has to weigh more than what its `release` gives to the others, and it
gives that once.

That there is always an operation is two arguments about who waits for whom. A waiter at a
full gate waits for an admitted call, and there is one. An admitted call waits for its own
jail, for its goroutines or for the semaphore, and who is in the semaphore has a next step.
This needs the jail that `newJail` gave up on to say why, and it does.
-/

namespace Goboxd.Runner

open Family Go Models Config Uidpool

/-! ## What is left to do -/

/-- The operations a jail still makes, at most. -/
def JailPc.left : JailPc → ℤ
  | .alloc => 14
  | .mkdirTemp => 13
  | .chownDir => 12
  | .cgMkdir => 11
  | .cgEnable => 10
  | .cgRemove => 9
  | .mkdirApp => 8
  | .chownApp => 7
  | .writeSource => 6
  | .chownSource => 5
  | .live => 4
  | .tdRelease => 3
  | .tdCgroup | .chownRelease => 2
  | .tdRemove | .chownRemove | .releaseUid => 1
  | .gone => 0

def TestPc.left : TestPc → ℤ
  | .start => 6
  | .jailed _ => 5
  | .seeded _ => 4
  | .exec .. => 3
  | .stored => 2
  | .released => 1
  | .finished => 0

/-- A test that is still to come costs at most two operations of the loop, those of its
goroutine and those of its jail. -/
def perTest : ℤ := 24

/-- What `ExecuteRun` of `n` tests has left to do. -/
def RunPc.left (n : ℕ) : RunPc → ℤ
  | .newJail => perTest * n + 4
  | .build _ => perTest * n + 3
  | .loop _ i | .spawn i => perTest * (n - i : ℕ) + 2
  | .test _ i _ | .acquire i _ => perTest * (n - i : ℕ) + 1
  | .exec _ i _ _ => perTest * (n - i : ℕ)
  | .wait => 1
  | .returned .. => 0

theorem JailPc.left_nonneg (pc : JailPc) : 0 ≤ pc.left := by
  cases pc <;> decide

theorem TestPc.left_nonneg (pc : TestPc) : 0 ≤ pc.left := by
  cases pc <;> simp only [TestPc.left] <;> decide

theorem RunPc.left_nonneg (n : ℕ) (pc : RunPc) : 0 ≤ pc.left n := by
  cases pc <;> simp only [RunPc.left, perTest] <;> omega

theorem RunPc.left_le_newJail (n : ℕ) (pc : RunPc) : pc.left n ≤ RunPc.newJail.left n := by
  cases pc <;> simp only [RunPc.left, perTest] <;> omega

theorem jailStep_lowers {cgActive : Bool} {pool : Pool} {j : Jail} {e : Option GoString}
    {r : Pool × Jail} (h : jailStep cgActive pool j e = some r) :
    r.2.pc.left < j.pc.left := by
  unfold jailStep at h
  cases hpc : j.pc <;> rw [hpc] at h <;> simp only [] at h
  case gone => cases h
  case alloc | mkdirTemp | cgMkdir | cgEnable | mkdirApp | chownApp | writeSource
      | chownSource =>
    split at h <;> cases h <;> simp [Jail.fail, JailPc.left]
  case chownDir =>
    split at h
    · cases h
      cases cgActive <;> simp [JailPc.left]
    · cases h
      simp [JailPc.left]
  case releaseUid | chownRelease | chownRemove | cgRemove | live | tdRelease | tdCgroup
      | tdRemove =>
    cases h
    simp [JailPc.left]

theorem testStep_lowers {req : RunRequest} {lc : LanguageConfig} {sh : RunState}
    {p : TestProc} {a : TestAct} {r : RunState × TestProc} (h : TestMove req lc sh p a r) :
    r.2.pc.left < p.pc.left := by
  cases h with
  | noJail hp | jailed hp | noSeed hp | seeded hp | begin hp | finish hp | release hp
  | done hp =>
      rw [hp]
      simp only [TestProc.setPc, TestPc.left]
      decide

section

variable {numCPU : Int} {req : RunRequest} {lc : LanguageConfig} {s : St RunState TestProc}

theorem startTests_left (sh : RunState) (tmpl : JailFields) (build : BuildResult) :
    (sh.startTests numCPU req tmpl build).pc.left req.tests.length =
      perTest * req.tests.length + 2 := by
  unfold RunState.startTests
  split <;> rfl

theorem finishBuild_left (sh : RunState) (tmpl : JailFields) (build : BuildResult)
    (err : Option GoString) :
    (sh.finishBuild numCPU req tmpl build err).pc.left req.tests.length ≤
      perTest * req.tests.length + 2 := by
  unfold RunState.finishBuild
  split
  · exact Int.le_trans (Int.le_refl 0) (by unfold perTest; omega)
  · split
    · exact Int.le_trans (Int.le_refl 0) (by unfold perTest; omega)
    · rw [startTests_left]

/-- What a step of `ExecuteRun` uses up is more than the goroutine it starts and the jail of
that have to do. -/
theorem runStep_lowers {e : RunEvent} {r : RunState × List TestProc}
    (hr : (executeRun numCPU req lc).machine.Reachable s) (hcancel : e ≠ .cancel)
    (h : RunMove numCPU req lc s.shared e r) :
    r.1.pc.left req.tests.length + 20 * (r.2.length : ℤ) <
        s.shared.pc.left req.tests.length ∧
      ∀ p ∈ r.2, p.pc = .start := by
  have hphase := phaseWf_of_reachable hr
  have hprogress := progressWf_of_reachable hr
  unfold PhaseWf at hphase
  unfold ProgressWf at hprogress
  cases h with
  | cancel => exact absurd rfl hcancel
  | jailFails hp =>
      rw [hp]
      refine ⟨?_, List.forall_mem_nil _⟩
      simp only [RunState.setPc, RunPc.left, List.length_nil, perTest]
      omega
  | compiled hp hb =>
      rw [hp]
      refine ⟨?_, List.forall_mem_nil _⟩
      simp only [RunState.setPc, RunPc.left, List.length_nil]
      omega
  | interpreted hp hb =>
      rw [hp, startTests_left]
      refine ⟨?_, List.forall_mem_nil _⟩
      simp only [RunPc.left, List.length_nil]
      omega
  | build hp hafter =>
      rw [hp, List.length_nil]
      refine ⟨?_, List.forall_mem_nil _⟩
      refine Int.lt_of_le_of_lt (Int.add_le_add_right (finishBuild_left ..) _) ?_
      simp only [RunPc.left]
      omega
  | loopEnds hp hend | spawnEnds hp hend | wait hp hwg =>
      rw [hp]
      refine ⟨?_, List.forall_mem_nil _⟩
      simp only [RunState.setPc, RunPc.left, List.length_nil, perTest]
      omega
  | loopNext hp htc | spawnNext hp htc | begin hp =>
      rw [hp]
      refine ⟨?_, List.forall_mem_nil _⟩
      simp only [RunState.setPc, RunState.addWg, RunPc.left, List.length_nil]
      omega
  | finish hp hafter =>
      simp only [hp] at hprogress
      obtain ⟨hlt, -⟩ := List.getElem?_eq_some_iff.mp hprogress.2.2
      rw [hp]
      refine ⟨?_, List.forall_mem_nil _⟩
      simp only [RunState.append, RunPc.left, List.length_nil, perTest]
      omega
  | acquire hp hsem =>
      simp only [hp] at hphase
      obtain ⟨hlt, -⟩ := List.getElem?_eq_some_iff.mp hphase.2.2.2
      rw [hp]
      refine ⟨?_, fun p hmem => by rw [List.mem_singleton.mp hmem]⟩
      simp only [RunState.addSem, RunState.setPc, RunPc.left, List.length_cons,
        List.length_nil, perTest]
      omega

end

/-! ## Why a jail was given up -/

/-- `newJail` is on its way to answer an error. -/
def JailPc.givesUp : JailPc → Bool
  | .releaseUid | .chownRelease | .chownRemove | .tdRelease | .tdCgroup | .tdRemove
  | .gone => true
  | _ => false

/-- A jail that `newJail` gives up on has the error to answer. -/
def Jail.Explained (j : Jail) : Prop := j.pc.givesUp = true → j.err ≠ none

theorem explained_step {cgActive : Bool} {pool : Pool} {j : Jail} {e : Option GoString}
    {r : Pool × Jail} (h : jailStep cgActive pool j e = some r) (hlive : j.pc ≠ .live)
    (hj : j.Explained) : r.2.Explained := by
  unfold Jail.Explained at hj ⊢
  unfold jailStep at h
  cases hpc : j.pc <;> rw [hpc] at h hj <;> simp only [] at h
  case live => exact absurd hpc hlive
  case gone => cases h
  case alloc | mkdirTemp | cgMkdir | cgEnable | mkdirApp | chownApp | writeSource
      | chownSource =>
    split at h <;> cases h <;> simp [Jail.fail, JailPc.givesUp]
  case chownDir =>
    split at h
    · cases h
      cases cgActive <;> simp [JailPc.givesUp]
    · cases h
      simp
  case cgRemove =>
    cases h
    simp [JailPc.givesUp]
  case releaseUid | chownRelease | chownRemove | tdRelease | tdCgroup | tdRemove =>
    cases h
    exact fun _ => hj rfl

/-- There is an operation left as long as the jail is not gone. -/
theorem jailStep_goes (cgActive : Bool) (pool : Pool) {j : Jail} (e : Option GoString)
    (h : j.pc ≠ .gone) : ∃ r, jailStep cgActive pool j e = some r := by
  cases hs : jailStep cgActive pool j e with
  | some r => exact ⟨r, rfl⟩
  | none =>
      exfalso
      unfold jailStep at hs
      cases hpc : j.pc <;> rw [hpc] at hs <;> simp only [] at hs
      case gone => exact h hpc
      case alloc | mkdirTemp | chownDir | cgMkdir | cgEnable | mkdirApp | chownApp
          | writeSource | chownSource =>
        split at hs <;> cases hs
      case releaseUid | chownRelease | chownRemove | cgRemove | live | tdRelease
          | tdCgroup | tdRemove =>
        cases hs

end Goboxd.Runner

namespace Goboxd.Api

open Family Go Runner Models Config Uidpool

variable {cfg : ServiceConfig} {h : HostState} {c : Call} {s : St HostState Call}

/-! ## What a call has left to do -/

def Call.left (c : Call) : ℤ :=
  total (fun sb : Sandbox => sb.jail.pc.left) c.sandboxes +
    total (fun p : TestProc => p.pc.left) c.run.procs +
    c.run.shared.pc.left c.req.tests.length

theorem call_left_nonneg (c : Call) : 0 ≤ c.left := by
  have hjails := total_nonneg (fun sb : Sandbox => sb.jail.pc.left_nonneg) c.sandboxes
  have htests := total_nonneg (fun p : TestProc => p.pc.left_nonneg) c.run.procs
  have hrun := c.run.shared.pc.left_nonneg c.req.tests.length
  unfold Call.left
  omega

theorem left_sandbox {i : ℕ} {sb sb' : Sandbox} (hi : c.sandboxes[i]? = some sb)
    (hlow : sb'.jail.pc.left < sb.jail.pc.left) : (c.setSandbox i sb').left < c.left := by
  have hset : total (fun sb : Sandbox => sb.jail.pc.left) (c.sandboxes.set i sb') = _ :=
    total_set _ hi
  unfold Call.left Call.setSandbox
  simp only []
  rw [hset]
  omega

theorem left_run_own {k : ℕ} {a : TestAct}
    {run : St RunState TestProc} (hrun : (c.machine cfg).step c.run (.own k a) = some run) :
    (c.setRun run []).left < c.left := by
  obtain ⟨p, r, hk, hr, rfl⟩ := step_own.mp hrun
  have hmove : TestMove c.req c.lc c.run.shared p a r := testStep_move hr
  have hlow := testStep_lowers hmove
  have hset : total (fun p : TestProc => p.pc.left) (c.run.procs.set k r.2) = _ :=
    total_set _ hk
  have hpc := (samePlace_of_move hmove).pc
  unfold Call.left Call.setRun
  simp only [List.append_nil, hpc]
  rw [hset]
  omega

theorem total_start {ps : List TestProc} (h : ∀ p ∈ ps, p.pc = .start) :
    total (fun p : TestProc => p.pc.left) ps = 6 * ps.length := by
  induction ps with
  | nil => rfl
  | cons p ps ih =>
      rw [total_cons, ih fun q hq => h q (List.mem_cons_of_mem p hq),
        h p List.mem_cons_self, List.length_cons]
      simp only [TestPc.left]
      omega

theorem left_run_env (hw : CallWf cfg c) {e : RunEvent} {run : St RunState TestProc}
    (hmay : c.mayRun cfg (.env e) = true)
    (hrun : (c.machine cfg).step c.run (.env e) = some run) :
    (c.setRun run (spawned (.env e))).left < c.left := by
  obtain ⟨r, hr, rfl⟩ := step_env.mp hrun
  have hmove : RunMove cfg.numCPU c.req c.lc c.run.shared e r := runEvent_move hr
  have hcancel : e ≠ .cancel := by
    rintro rfl
    cases hmay
  obtain ⟨hlow, hstart⟩ := runStep_lowers hw.run hcancel hmove
  have htests := total_start hstart
  have hjails : total (fun sb : Sandbox => sb.jail.pc.left) (spawned (.env e)) =
      14 * r.2.length := by
    cases hmove with
    | acquire => rfl
    | cancel | jailFails | compiled | interpreted | build | loopEnds | loopNext
    | spawnEnds | spawnNext | begin | finish | wait => rfl
  unfold Call.left Call.setRun
  simp only [total_append]
  rw [htests, hjails]
  omega

/-! ## What is left of a request at the gate -/

/-- With `n` calls around: what is left to do at the gate, an admitted call's `release`
counted with the second look that the others take after it. -/
def Phase.left (n : ℤ) (closed : List Chan) : Phase → ℤ
  | .entering => 2 * n + 6
  | .selecting b => if b ∈ closed then 2 * n + 5 else 2 * n + 3
  | .woken _ => 2 * n + 4
  | .cancelling _ => 1
  | .admitted => 2 * n + 1
  | .failed _ | .released => 0

theorem phase_left_nonneg {n : ℤ} (hn : 0 ≤ n) (closed : List Chan) (ph : Phase) :
    0 ≤ ph.left n closed := by
  cases ph <;> simp only [Phase.left]
  case selecting => split <;> omega
  all_goals omega

/-- Closing a channel gives its waiters another look. -/
theorem phase_left_closed (n : ℤ) {g : GateState} (ph : Phase) {b : Chan} :
    ph.left n g.closed ≤ ph.left n (closeChan g b).closed ∧
      ph.left n (closeChan g b).closed ≤ ph.left n g.closed + 2 := by
  cases ph <;> simp only [Phase.left]
  case selecting d =>
    by_cases hd : d ∈ g.closed
    · rw [if_pos hd, if_pos (mem_closeChan.mpr (.inr hd))]
      omega
    · rw [if_neg hd]
      split <;> omega
  all_goals omega

theorem phase_left_release (n : ℤ) (g : GateState) (ph : Phase) :
    ph.left n g.closed ≤ ph.left n (release g).closed ∧
      ph.left n (release g).closed ≤ ph.left n g.closed + 2 := by
  unfold release
  simp only []
  split
  · exact phase_left_closed n (g := { g with
      gate := { g.gate with inFlight := g.gate.inFlight - 1 } }) ph
  · exact ⟨Int.le_refl _, Int.le_add_of_nonneg_right (by decide)⟩

/-- A step at the gate uses something up, all by itself or with what it gives to the
others. -/
theorem gate_lowers {n : ℤ} (hn : 0 ≤ n) {g : GateState} (hwf : ChansWf g) {caller : Caller}
    {a : CallerAct} {r : GateState × Caller} (hm : CallerMove g caller a r)
    (ha : a ≠ .ctxCancel) :
    (r.1.closed = g.closed ∧ r.2.phase.left n r.1.closed < caller.phase.left n g.closed) ∨
      ((∀ ph : Phase, ph.left n g.closed ≤ ph.left n r.1.closed ∧
          ph.left n r.1.closed ≤ ph.left n g.closed + 2) ∧
        r.2.phase.left n r.1.closed + 2 * n < caller.phase.left n g.closed) := by
  have hopen : g.gate.broadcast ∉ g.closed := hwf.open_
  cases hm with
  | enter hc =>
      rw [hc]
      unfold acquireEnter
      simp only []
      (repeat' split) <;> refine .inl ⟨rfl, ?_⟩ <;>
        simp only [Verdict.phase, Phase.left, if_neg hopen] <;> omega
  | takeBroadcast hc hb =>
      rw [hc]
      refine .inl ⟨rfl, ?_⟩
      simp only [Phase.left, if_pos hb]
      omega
  | recheck hc =>
      rw [hc]
      unfold acquireRecheck leaveQueue
      (repeat' split) <;> refine .inl ⟨rfl, ?_⟩ <;>
        simp only [Verdict.phase, Phase.left, if_neg hopen] <;> omega
  | takeDone hc hd =>
      rw [hc]
      refine .inl ⟨rfl, ?_⟩
      simp only [Phase.left]
      split <;> omega
  | cancel hc =>
      rw [hc]
      exact .inl ⟨rfl, by simp only [Phase.left]; omega⟩
  | release hc =>
      rw [hc]
      refine .inr ⟨phase_left_release n g, ?_⟩
      simp only [Phase.left]
      omega
  | ctxCancel => exact absurd rfl ha

/-! ## What the service has left to do -/

def callLeft (n : ℤ) (closed : List Chan) (c : Call) : ℤ :=
  c.caller.phase.left n closed + c.left

def serviceLeft (s : St HostState Call) : ℤ :=
  total (callLeft s.procs.length s.shared.gate.closed) s.procs

theorem callLeft_nonneg {n : ℤ} (hn : 0 ≤ n) (closed : List Chan) (c : Call) :
    0 ≤ callLeft n closed c := by
  have hgate := phase_left_nonneg hn closed c.caller.phase
  have hcall := call_left_nonneg c
  unfold callLeft
  omega

theorem serviceLeft_nonneg (s : St HostState Call) : 0 ≤ serviceLeft s :=
  total_nonneg (callLeft_nonneg (Int.natCast_nonneg _) _) _

/-- What a call does for itself: everything but that its client goes away. -/
def CallAct.isWork : CallAct → Bool
  | .cancel => false
  | _ => true

/-- The operations of the service. Requests, disconnects and the signal to stop come from
outside. -/
def OwnWork : Act CallAct ServiceEvent → Prop
  | .own _ a => a.isWork = true
  | .env _ => False

theorem callStep_lowers {n : ℤ} (hn : 0 ≤ n) (hwf : ChansWf h.gate) (hw : CallWf cfg c)
    {a : CallAct} {r : HostState × Call} (hm : CallMove cfg h c a r) (ha : a.isWork = true) :
    (r.1.gate.closed = h.gate.closed ∧
        callLeft n r.1.gate.closed r.2 < callLeft n h.gate.closed c) ∨
      ((∀ d : Call, callLeft n h.gate.closed d ≤ callLeft n r.1.gate.closed d ∧
          callLeft n r.1.gate.closed d ≤ callLeft n h.gate.closed d + 2) ∧
        callLeft n r.1.gate.closed r.2 + 2 * n < callLeft n h.gate.closed c) := by
  cases hm with
  | @gate a q hmay hq =>
      have hctx : a ≠ .ctxCancel := by
        rintro rfl
        cases hmay
      have hleft : (c.setCaller q.2).left = c.left := rfl
      unfold callLeft
      rw [hleft]
      refine (gate_lowers hn hwf (callerStep_move hq) hctx).imp ?_ ?_
      · rintro ⟨hcl, hlow⟩
        exact ⟨hcl, Int.add_lt_add_right hlow _⟩
      · rintro ⟨hall, hlow⟩
        refine ⟨fun d => ?_, ?_⟩
        · have hd := hall d.caller.phase
          simp only []
          omega
        · show q.2.phase.left n q.1.closed + c.left + 2 * n < _
          omega
  | cancel => cases ha
  | sandbox hi hmay hr =>
      have hlow := left_sandbox hi (jailStep_lowers (sandboxStep_some hr).1)
      exact .inl ⟨rfl, Int.add_lt_add_left hlow _⟩
  | @run a tree run disk hmay hrun hdisk =>
      have hlow : (c.setRun run (spawned a)).left < c.left := by
        cases a with
        | own k a => exact left_run_own hrun
        | env e => exact left_run_env hw hmay hrun
      exact .inl ⟨rfl, Int.add_lt_add_left hlow _⟩

theorem serviceLeft_lowers (hr : (service cfg).machine.Reachable s) {t : St HostState Call}
    {a : Act CallAct ServiceEvent} (ha : OwnWork a)
    (hs : (service cfg).machine.step s a = some t) : serviceLeft t < serviceLeft s := by
  cases a with
  | env e => exact ha.elim
  | own p a =>
      obtain ⟨c, r, hc, hstep, rfl⟩ := step_own.mp hs
      have hwf := chansWf (admission_of_service hr).reachable
      have hset : total (callLeft s.procs.length r.1.gate.closed) (s.procs.set p r.2) = _ :=
        total_set _ hc
      have hlow := callStep_lowers (n := s.procs.length) (Int.natCast_nonneg _) hwf
        (callWf_of_reachable hr p c hc) (callStep_move hstep) ha
      unfold serviceLeft
      rw [List.length_set, hset]
      rcases hlow with ⟨hcl, hlow⟩ | ⟨hall, hlow⟩
      · rw [hcl] at hlow ⊢
        omega
      · have hmono : total _ s.procs ≤ total _ s.procs := total_mono fun d _ => (hall d).2
        have hadd := total_add (callLeft s.procs.length s.shared.gate.closed)
          (fun _ => 2) s.procs
        have htwo : total (fun _ : Call => (2 : ℤ)) s.procs = 2 * s.procs.length := by
          induction s.procs with
          | nil => rfl
          | cons d ds ih =>
              rw [total_cons, ih, List.length_cons]
              omega
        have hself := (hall c).1
        omega

/-! ## A call that waits for `newJail` gets an answer -/

/-- The jails whose `newJail` has not been answered, when given up, say why. -/
structure AnswersReady (c : Call) : Prop where
  template : c.run.shared.pc = .newJail → ∀ sb, c.sandboxes[0]? = some sb →
    sb.jail.Explained
  tests : ∀ (k : ℕ) p sb, c.run.procs[k]? = some p → p.pc = .start →
    c.sandboxes[k + 1]? = some sb → sb.jail.Explained

theorem answersReady_sandbox {i : ℕ} {e : Option GoString} {name : GoString}
    {sb sb' : Sandbox} {pool : Pool} {disk : Disk} (hready : AnswersReady c)
    (hi : c.sandboxes[i]? = some sb) (hmay : c.maySandbox i sb = true)
    (hr : sandboxStep cfg.cgActive cfg.umask (resolveSourceName c.req c.lc)
      c.req.source h.pool h.disk sb e name = some (pool, disk, sb')) :
    AnswersReady (c.setSandbox i sb') := by
  have hstep := (sandboxStep_some hr).1
  refine ⟨fun hpc x hx => ?_, fun k p x hp hstart hx => ?_⟩
  · rcases getElem?_set_cases hx with ⟨rfl, rfl⟩ | ⟨-, hx⟩
    · refine explained_step hstep (fun hlive => ?_) (hready.template hpc sb hi)
      -- the template is torn down after the return only
      have hpc' : c.run.shared.pc = .newJail := hpc
      simp [Call.maySandbox, Call.returned, RunPc.isReturned, hlive, hpc'] at hmay
    · exact hready.template hpc x hx
  · rcases getElem?_set_cases hx with ⟨rfl, rfl⟩ | ⟨-, hx⟩
    · refine explained_step hstep (fun hlive => ?_) (hready.tests k p sb hp hstart hi)
      have hp' : c.run.procs[k]? = some p := hp
      simp [Call.maySandbox, TestPc.atDefers, hlive, hp', hstart] at hmay
    · exact hready.tests k p x hp hstart hx

theorem answersReady_own {k : ℕ} {a : TestAct} {run : St RunState TestProc}
    (hready : AnswersReady c)
    (hrun : (c.machine cfg).step c.run (.own k a) = some run) :
    AnswersReady (c.setRun run []) := by
  obtain ⟨p, r, hk, hr, rfl⟩ := step_own.mp hrun
  have hmove : TestMove c.req c.lc c.run.shared p a r := testStep_move hr
  unfold Call.setRun
  rw [List.append_nil]
  refine ⟨fun hpc => hready.template ((samePlace_of_move hmove).pc ▸ hpc),
    fun q p' sb hp' hstart => ?_⟩
  rcases getElem?_set_cases hp' with ⟨-, rfl⟩ | ⟨-, hp'⟩
  · cases hmove <;> cases hstart
  · exact hready.tests q p' sb hp' hstart

theorem answersReady_env {e : RunEvent} {run : St RunState TestProc} (hw : CallWf cfg c)
    (hready : AnswersReady c)
    (hrun : (c.machine cfg).step c.run (.env e) = some run) :
    AnswersReady (c.setRun run (spawned (.env e))) := by
  obtain ⟨r, hr, rfl⟩ := step_env.mp hrun
  have hmove : RunMove cfg.numCPU c.req c.lc c.run.shared e r := runEvent_move hr
  have hlen := List.length_pos_of_ne_nil (sandboxes_ne_nil hw)
  have hfresh : ∀ sb ∈ spawned (.env e), sb = .fresh := by
    intro sb hsb
    cases hmove with
    | acquire => exact List.mem_singleton.mp hsb
    | _ => cases hsb
  refine ⟨fun hpc sb hsb => ?_, fun q p sb hp hstart hsb => ?_⟩
  · simp only [Call.setRun, List.getElem?_append_left hlen] at hsb
    have hpc' : r.1.pc = .newJail := hpc
    by_cases hcancel : e = .cancel
    · subst hcancel
      cases hmove
      exact hready.template hpc' sb hsb
    · -- no step leads back to the start
      obtain ⟨hlow, -⟩ := runStep_lowers hw.run hcancel hmove
      have hmax := c.run.shared.pc.left_le_newJail c.req.tests.length
      rw [hpc'] at hlow
      omega
  · have hsb' : (c.sandboxes ++ spawned (.env e))[q + 1]? = some sb := hsb
    rcases getElem?_append_cases hsb' with hsb | ⟨k, -, hk⟩
    · rcases getElem?_append_cases hp with hp | ⟨k, rfl, hk⟩
      · exact hready.tests q p sb hp hstart hsb
      · obtain ⟨hlt, -⟩ := List.getElem?_eq_some_iff.mp hsb
        rw [hw.size] at hlt
        omega
    · rw [hfresh sb (List.mem_of_getElem? hk)]
      exact fun hgives => (by cases hgives)

theorem answersReady_of_reachable (hr : (service cfg).machine.Reachable s) :
    Each (fun _ _ c => AnswersReady c) s := by
  refine Family.each ?_ ?_ ?_ ?_ hr
  · intro s p a c r hr hready _ hc hs
    have hw := callWf_of_reachable hr p c hc
    have hc' := hready p c hc
    cases callStep_move hs with
    | gate => exact ⟨hc'.template, hc'.tests⟩
    | cancel hrun =>
        have hready := answersReady_env hw hc' hrun
        exact ⟨hready.template, hready.tests⟩
    | sandbox hi hmay hr => exact answersReady_sandbox hc' hi hmay hr
    | @run a tree run disk hmay hrun hdisk =>
        cases a with
        | own k a => exact answersReady_own hc' hrun
        | env e => exact answersReady_env hw hc' hrun
  · exact fun s p a c r q d _ hready _ _ _ _ hd => hready q d hd
  · exact fun s e r q d _ hready _ _ hd => hready q d hd
  · intro s e r k d _ _ he hk
    cases e with
    | call req lc =>
        cases he
        cases k with
        | zero =>
            cases hk
            refine ⟨fun _ sb hsb hgives => ?_, fun k p sb hp => by cases hp⟩
            cases hsb
            cases hgives
        | succ k => cases hk
    | stop =>
        cases he
        cases hk

/-! ## There is always something to do -/

/-- The call can make an operation of its own. -/
def Call.Goes (cfg : ServiceConfig) (h : HostState) (c : Call) : Prop :=
  ∃ a, a.isWork = true ∧ (callStep cfg h c a).isSome = true

theorem goes_sandbox {i : ℕ} {sb : Sandbox} (hi : c.sandboxes[i]? = some sb)
    (hmay : c.maySandbox i sb = true) (hgone : sb.jail.pc ≠ .gone) : c.Goes cfg h := by
  obtain ⟨q, hq⟩ := jailStep_goes cfg.cgActive h.pool (some []) hgone
  have hdisk : diskStep cfg.umask (resolveSourceName c.req c.lc) c.req.source h.disk sb
      (some []) [] = some (h.disk, sb.name) := by
    unfold diskStep
    cases sb.jail.pc <;> rfl
  refine ⟨.sandbox i (some []) [], rfl, ?_⟩
  rw [callStep, hi, Option.bind_some, if_pos hmay, sandboxStep, hq, Option.bind_some, hdisk]
  rfl

theorem goes_run {a : Family.Act TestAct RunEvent} (hmay : c.mayRun cfg a = true)
    {run : St RunState TestProc} (hrun : (c.machine cfg).step c.run a = some run)
    (hdisk : (c.diskAfter cfg h.disk noTree a).isSome = true) : c.Goes cfg h := by
  refine ⟨.run a noTree, rfl, ?_⟩
  rw [callStep, if_pos hmay, hrun, Option.bind_some, Option.isSome_map]
  exact hdisk

theorem goes_env {e : RunEvent} (hmay : c.mayRun cfg (.env e) = true)
    (hr : (runEvent cfg.numCPU c.req c.lc c.run.shared e).isSome = true) :
    c.Goes cfg h := by
  obtain ⟨r, hr⟩ := Option.isSome_iff_exists.mp hr
  refine goes_run hmay (step_env.mpr ⟨r, hr, rfl⟩) ?_
  cases e <;> rfl

theorem goes_own {k : ℕ} {p : TestProc} {a : TestAct} (hk : c.run.procs[k]? = some p)
    (hmay : c.mayRun cfg (.own k a) = true)
    (hr : (testStep c.req c.lc c.run.shared p a).isSome = true)
    (hdisk : (c.diskAfter cfg h.disk noTree (.own k a)).isSome = true) : c.Goes cfg h := by
  obtain ⟨r, hr⟩ := Option.isSome_iff_exists.mp hr
  exact goes_run hmay (step_own.mpr ⟨p, r, hk, hr, rfl⟩) hdisk

/-- The answer to a `newJail` whose jail is ready. -/
theorem answer_of_jail {i : ℕ} {sb : Sandbox} (hi : c.sandboxes[i]? = some sb)
    (hpc : sb.jail.pc = .live ∨ sb.jail.pc = .gone) (hwhy : sb.jail.Explained) :
    ∃ answer, c.answers cfg i answer = true := by
  rcases hpc with hlive | hgone
  · refine ⟨.ok ⟨cfg.tempDir ++ Go.str "/" ++ sb.name, sb.jail.uid,
      if sb.jail.cg then some ⟨[], false⟩ else none, c.lc.seccomp⟩, ?_⟩
    rw [Call.answers, hi, Option.any_some, Sandbox.answers, Sandbox.isJail,
      decide_eq_true_eq]
    refine ⟨hlive, rfl, rfl, ?_, rfl⟩
    cases sb.jail.cg <;> rfl
  · obtain ⟨err, herr⟩ := Option.ne_none_iff_exists'.mp
      (hwhy (by rw [hgone]; rfl))
    refine ⟨.error err, ?_⟩
    rw [Call.answers, hi, Option.any_some, Sandbox.answers, decide_eq_true_eq]
    exact ⟨hgone, herr⟩

theorem goes_newJail (hw : CallWf cfg c) (hready : AnswersReady c)
    (hadm : c.caller.phase = .admitted) (hpc : c.run.shared.pc = .newJail) :
    c.Goes cfg h := by
  obtain ⟨sb, hsb⟩ := exists_template hw
  by_cases hlive : sb.jail.pc = .live ∨ sb.jail.pc = .gone
  · obtain ⟨answer, hans⟩ := answer_of_jail hsb hlive (hready.template hpc sb hsb)
    have hmay : c.mayRun cfg (.env (.newJail answer)) = true := by
      rw [Call.mayRun, hadm, hans]
      rfl
    refine goes_env hmay ?_
    cases answer with
    | error err => simp [runEvent, hpc]
    | ok tmpl =>
        simp only [runEvent, hpc]
        split <;> rfl
  · obtain ⟨hlive, hgone⟩ := not_or.mp hlive
    refine goes_sandbox hsb ?_ hgone
    simp [Call.maySandbox, hadm, hlive]

/-- A goroutine that is not finished waits for its own jail at most. -/
theorem goes_test (hw : CallWf cfg c) (hready : AnswersReady c) {k : ℕ} {p : TestProc}
    (hk : c.run.procs[k]? = some p) (hp : p.pc ≠ .finished) : c.Goes cfg h := by
  obtain ⟨sb, hsb⟩ := exists_sandbox hw hk
  cases hpc : p.pc with
  | start =>
      by_cases hlive : sb.jail.pc = .live ∨ sb.jail.pc = .gone
      · obtain ⟨answer, hans⟩ := answer_of_jail hsb hlive (hready.tests k p sb hk hpc hsb)
        refine goes_own (a := .newJail answer) hk hans ?_ rfl
        cases answer <;> simp [testStep, hpc]
      · obtain ⟨hlive, hgone⟩ := not_or.mp hlive
        exact goes_sandbox hsb (by simp [Call.maySandbox, hlive]) hgone
  | jailed j =>
      exact goes_own (a := .seed (some [])) hk rfl (by simp [testStep, hpc]) rfl
  | seeded j => exact goes_own (a := .begin) hk rfl (by simp [testStep, hpc]) rfl
  | exec j ctxErr =>
      refine goes_own (a := .finish { printing [] with ctxBefore := ctxErr }) hk rfl ?_ rfl
      simp [testStep, hpc, RunState.derivedErr, printing]
  | stored =>
      by_cases hgone : sb.jail.pc = .gone
      · refine goes_own (a := .release) hk ?_ (by simp [testStep, hpc]) rfl
        rw [Call.mayRun, hsb, Option.any_some, decide_eq_true_eq]
        exact hgone
      · refine goes_sandbox hsb ?_ hgone
        simp [Call.maySandbox, hk, hpc, TestPc.atDefers]
  | released => exact goes_own (a := .done) hk rfl (by simp [testStep, hpc]) rfl
  | finished => exact absurd hpc hp

/-- Who is in the semaphore is not finished. -/
theorem exists_inSem (hw : CallWf cfg c) (hsem : 0 < c.run.shared.sem) :
    ∃ (k : ℕ) (p : TestProc), c.run.procs[k]? = some p ∧ p.pc ≠ .finished := by
  by_contra hall
  have hzero : total TestProc.inSem c.run.procs = 0 := by
    refine total_zero fun p hp => ?_
    obtain ⟨k, hk⟩ := List.mem_iff_getElem?.mp hp
    by_contra hne
    refine hall ⟨k, p, hk, fun hfin => hne ?_⟩
    rw [TestProc.inSem, hfin]
  have hcount := sem_eq_inSem hw.run
  omega

theorem exists_pending (hw : CallWf cfg c) (hpc : c.run.shared.pc = .wait)
    (hwg : c.run.shared.wg ≠ 0) :
    ∃ (k : ℕ) (p : TestProc), c.run.procs[k]? = some p ∧ p.pc ≠ .finished := by
  by_contra hall
  have hzero : total TestProc.pending c.run.procs = 0 := by
    refine total_zero fun p hp => ?_
    obtain ⟨k, hk⟩ := List.mem_iff_getElem?.mp hp
    by_contra hne
    refine hall ⟨k, p, hk, fun hfin => hne ?_⟩
    rw [TestProc.pending, hfin]
  have hcount := unstarted_eq_pending hw.run
  simp only [hzero, RunState.unstarted, hpc, RunPc.announced] at hcount
  exact hwg (by omega)

/-- An admitted call has an operation to make, whatever the others do. -/
theorem goes_of_admitted (hw : CallWf cfg c) (hready : AnswersReady c)
    (hadm : c.caller.phase = .admitted) : c.Goes cfg h := by
  cases hpc : c.run.shared.pc with
  | newJail => exact goes_newJail hw hready hadm hpc
  | build tmpl =>
      refine goes_env (e := .build ⟨(printing []).exec, none⟩ 0) rfl ?_
      simp [runEvent, hpc, RunState.derivedErr]
  | loop | spawn =>
      refine goes_env (e := .next) rfl ?_
      simp only [runEvent, hpc]
      split
      · rfl
      · split <;> rfl
  | test => exact goes_env (e := .begin) rfl (by simp [runEvent, hpc])
  | exec tmpl i tc ctxErr =>
      refine goes_env (e := .finish { printing [] with ctxBefore := ctxErr }) rfl ?_
      simp [runEvent, hpc, RunState.derivedErr, printing]
  | acquire i tc =>
      by_cases hsem : c.run.shared.sem < effectiveParallel cfg.numCPU c.req
      · exact goes_env (e := .acquire) rfl (by simp [runEvent, hpc, hsem])
      · have hone := one_le_effectiveParallel cfg.numCPU c.req
        obtain ⟨k, p, hk, hp⟩ := exists_inSem hw (by omega)
        exact goes_test hw hready hk hp
  | wait =>
      by_cases hwg : c.run.shared.wg = 0
      · exact goes_env (e := .wait) rfl (by simp [runEvent, hpc, hwg])
      · obtain ⟨k, p, hk, hp⟩ := exists_pending hw hpc hwg
        exact goes_test hw hready hk hp
  | returned build tests err =>
      obtain ⟨sb, hsb⟩ := exists_template hw
      have hret : c.returned = true := by rw [Call.returned, hpc]; rfl
      by_cases hgone : sb.jail.pc = .gone
      · have hdone : c.done = true := by
          rw [Call.done, hret, Call.templateGone, hsb, Option.any_some, hgone]
          rfl
        refine ⟨.gate .release, rfl, ?_⟩
        rw [callStep, if_pos (show c.mayGate .release = true from hdone)]
        simp [callerStep, hadm]
      · exact goes_sandbox hsb (by simp [Call.maySandbox, hadm, hret]) hgone

/-! ## Who waits at the gate is waited for by nobody -/

/-- The call has returned, or was never let in. -/
def Phase.isOver : Phase → Bool
  | .failed _ | .released => true
  | _ => false

/-- Nothing is under way any more, and nothing is held. -/
structure AtRest (s : St HostState Call) : Prop where
  ended : ∀ c ∈ s.procs, c.caller.phase.isOver = true
  inFlight : s.shared.gate.gate.inFlight = 0
  queued : s.shared.gate.gate.queued = 0
  uids : heldUids s = []

theorem goes_gate {a : CallerAct} (hwork : (CallAct.gate a).isWork = true)
    (hmay : c.mayGate a = true) (hr : (callerStep h.gate c.caller a).isSome = true) :
    c.Goes cfg h := by
  refine ⟨.gate a, hwork, ?_⟩
  rw [callStep, if_pos hmay, Option.isSome_map]
  exact hr

/-- Somebody holds the slot that a waiter waits for. -/
theorem exists_admitted (hcpu : 1 ≤ cfg.numCPU) (hr : (service cfg).machine.Reachable s)
    (hfull : s.shared.gate.gate.maxJobs ≤ s.shared.gate.gate.inFlight) :
    ∃ (q : ℕ) (d : Call), s.procs[q]? = some d ∧ d.caller.phase = .admitted := by
  have hgate := admission_of_service hr
  have hjobs : s.shared.gate.gate.maxJobs = readMaxJobs cfg.getenv cfg.numCPU :=
    (countersWf hgate.reachable).jobs
  have hone : 1 ≤ readMaxJobs cfg.getenv cfg.numCPU := one_le_readMaxJobs hcpu
  have hslots : s.shared.gate.gate.inFlight = total Caller.slot (s.procs.map Call.caller) :=
    inFlight_eq_slots hgate
  by_contra hall
  have hzero : total Caller.slot (s.procs.map Call.caller) = 0 := by
    refine total_zero fun caller hcaller => ?_
    obtain ⟨d, hd, rfl⟩ := List.mem_map.mp hcaller
    obtain ⟨q, hq⟩ := List.mem_iff_getElem?.mp hd
    exact if_neg fun hadm => hall ⟨q, d, hq, hadm⟩
  omega

theorem goes_of_not_over (hcpu : 1 ≤ cfg.numCPU) (hr : (service cfg).machine.Reachable s)
    {p : ℕ} (hc : s.procs[p]? = some c) (hover : c.caller.phase.isOver ≠ true) :
    ∃ (q : ℕ) (d : Call), s.procs[q]? = some d ∧ d.Goes cfg s.shared := by
  have hadmitted : ∀ (q : ℕ) (d : Call), s.procs[q]? = some d →
      d.caller.phase = .admitted → d.Goes cfg s.shared := fun q d hd hadm =>
    goes_of_admitted (callWf_of_reachable hr q d hd) (answersReady_of_reachable hr q d hd) hadm
  have hcaller : (gateView s).procs[p]? = some c.caller := by
    show (s.procs.map Call.caller)[p]? = _
    rw [List.getElem?_map, hc]
    rfl
  cases hph : c.caller.phase with
  | entering =>
      exact ⟨p, c, hc, goes_gate (a := .enter) rfl rfl (by simp [callerStep, hph])⟩
  | woken b =>
      exact ⟨p, c, hc, goes_gate (a := .recheck) rfl rfl (by simp [callerStep, hph])⟩
  | cancelling b =>
      exact ⟨p, c, hc, goes_gate (a := .cancel) rfl rfl (by simp [callerStep, hph])⟩
  | selecting b =>
      have hcovered := held_covered (admission_of_service hr).reachable p c.caller hcaller b
        (by rw [hph]; rfl)
      rcases hcovered with hclosed | ⟨-, hfull, -⟩
      · refine ⟨p, c, hc, goes_gate (a := .takeBroadcast) rfl rfl ?_⟩
        have hclosed' : b ∈ s.shared.gate.closed := hclosed
        simp [callerStep, hph, hclosed']
      · obtain ⟨q, d, hd, hadm⟩ := exists_admitted hcpu hr hfull
        exact ⟨q, d, hd, hadmitted q d hd hadm⟩
  | admitted => exact ⟨p, c, hc, hadmitted p c hc hph⟩
  | failed e | released =>
      rw [hph] at hover
      exact absurd rfl hover

theorem atRest_of_over (hr : (service cfg).machine.Reachable s)
    (hover : ∀ c ∈ s.procs, c.caller.phase.isOver = true) : AtRest s := by
  have hgate := admission_of_service hr
  have hslots : s.shared.gate.gate.inFlight = total Caller.slot (s.procs.map Call.caller) :=
    inFlight_eq_slots hgate
  have hqueued : s.shared.gate.gate.queued = total Caller.waits (s.procs.map Call.caller) :=
    queued_eq_waiters hgate.reachable
  refine ⟨hover, ?_, ?_, ?_⟩
  · rw [hslots]
    refine total_zero fun caller hcaller => ?_
    obtain ⟨c, hc, rfl⟩ := List.mem_map.mp hcaller
    refine if_neg fun hadm => ?_
    have := hover c hc
    rw [hadm] at this
    cases this
  · rw [hqueued]
    refine total_zero fun caller hcaller => ?_
    obtain ⟨c, hc, rfl⟩ := List.mem_map.mp hcaller
    have hph := hover c hc
    unfold Caller.waits
    cases hcp : c.caller.phase <;> rw [hcp] at hph <;> first | rfl | cases hph
  · refine List.flatMap_eq_nil_iff.mpr fun c hc => List.flatMap_eq_nil_iff.mpr fun sb hsb => ?_
    obtain ⟨p, hp⟩ := List.mem_iff_getElem?.mp hc
    have hw := callWf_of_reachable hr p c hp
    have hph := hover c hc
    have hidle : Sandbox.idle sb := by
      refine idle_of_done hw (.inl fun hadm => ?_) sb hsb
      rw [hadm] at hph
      cases hph
    rcases hidle with rfl | hgone
    · rfl
    · rw [Sandbox.uids, Jail.uids, Jail.holds, hgone]
      rfl

theorem service_draining (hcpu : 1 ≤ cfg.numCPU) :
    (service cfg).machine.Drains (service cfg).machine.Reachable AtRest OwnWork
      serviceLeft where
  keeps := fun s a t hs ht => .next hs trivial ht
  nonneg := fun s _ => serviceLeft_nonneg s
  lowers := fun s a t hs ha ht => serviceLeft_lowers hs ha ht
  goesOn := by
    intro s hs hrest
    by_cases hover : ∀ c ∈ s.procs, c.caller.phase.isOver = true
    · exact absurd (atRest_of_over hs hover) hrest
    · simp only [not_forall] at hover
      obtain ⟨c, hc, hover⟩ := hover
      obtain ⟨p, hp⟩ := List.mem_iff_getElem?.mp hc
      obtain ⟨q, d, hd, a, ha, hstep⟩ := goes_of_not_over hcpu hs hp hover
      obtain ⟨r, hr⟩ := Option.isSome_iff_exists.mp hstep
      exact ⟨.own q a, _, ha, step_own.mpr ⟨d, r, hd, hr, rfl⟩⟩

/-- From any state the service can be in, its own operations come to an end, in whatever
order they are made and whatever the system answers. As long as a call is under way there
is one to make; and when there is none, every call has returned, the gate is empty and no
uid is held. -/
theorem service_drains (hcpu : 1 ≤ cfg.numCPU) (hr : (service cfg).machine.Reachable s) :
    (∃ n : ℕ, ∀ as t, (∀ a ∈ as, OwnWork a) →
      (service cfg).machine.exec s as = some t → as.length ≤ n) ∧
    (∀ as t, (∀ a ∈ as, OwnWork a) → (service cfg).machine.exec s as = some t →
      AtRest t ∨ ∃ a u, OwnWork a ∧ (service cfg).machine.step t a = some u) ∧
    ∃ as t, (∀ a ∈ as, OwnWork a) ∧ (service cfg).machine.exec s as = some t ∧
      AtRest t := by
  have hdrains : (service cfg).machine.Drains _ AtRest OwnWork serviceLeft :=
    service_draining hcpu
  refine ⟨⟨(serviceLeft s).toNat, fun as t hwork he => ?_⟩, fun as t hwork he => ?_,
    hdrains.rests hr⟩
  · have hlen := hdrains.length_le hr hwork he
    omega
  · obtain ⟨ht, -⟩ := hdrains.exec hr hwork he
    by_cases hrest : AtRest t
    · exact .inl hrest
    · exact .inr (hdrains.goesOn t ht hrest)

/-- One request is admitted. -/
def admittedRun : List (Act CallAct ServiceEvent) := [newCall, .own 0 (.gate .enter)]

theorem service_drains_admitted :
    ∃ s, (service (oneCPU "1")).machine.exec ⟨startHost (oneCPU "1"), []⟩ admittedRun =
        some s ∧
      s.shared.gate.gate.inFlight = 1 ∧
      ∃ as t, (∀ a ∈ as, OwnWork a) ∧
        (service (oneCPU "1")).machine.exec s as = some t ∧ AtRest t := by
  have hinit : (service (oneCPU "1")).machine.init ⟨startHost (oneCPU "1"), []⟩ :=
    ⟨rfl, rfl⟩
  have hr := Machine.reachable_of_exec admittedRun hinit rfl
  exact ⟨_, rfl, by decide, (service_drains (by decide) hr).2.2⟩

end Goboxd.Api
