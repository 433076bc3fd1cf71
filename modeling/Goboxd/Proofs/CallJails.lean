import Goboxd.Api.Service
import Goboxd.Proofs.RunResults

/-!
# Where the jails of a call are

The gate, `ExecuteRun` and the jails are three machines, and the order of the
source's calls and deferred calls ties their places together. A request that is
not admitted has made nothing. While `ExecuteRun` is under way its template jail
is live. A goroutine that works on its test has a live jail, and one that has
left the semaphore has none any more. When the gate gets its slot back, every
jail of the call is gone.

That last fact needs the wait group: the call returns after all goroutines are
finished, so none of their jails is left. And the semaphore counts the
goroutines that have not left it, which bounds the jails of a call.
-/

namespace Goboxd.Runner

open Family

/-! ## Two more facts about `ExecuteRun` -/

section

variable {numCPU : Int} {req : Models.RunRequest} {lc : Config.LanguageConfig}
  {s : St RunState TestProc}

/-- One for a goroutine that has not left the semaphore. -/
def TestProc.inSem (p : TestProc) : ℤ :=
  match p.pc with
  | .released | .finished => 0
  | _ => 1

theorem startTests_sem (sh : RunState) (tmpl : JailFields)
    (build : Models.BuildResult) :
    (sh.startTests numCPU req tmpl build).sem = sh.sem := by
  unfold RunState.startTests
  split <;> rfl

theorem finishBuild_sem (sh : RunState) (tmpl : JailFields)
    (build : Models.BuildResult) (err : Option GoString) :
    (sh.finishBuild numCPU req tmpl build err).sem = sh.sem := by
  unfold RunState.finishBuild
  split
  · rfl
  · split
    · rfl
    · exact startTests_sem sh tmpl build

theorem sem_eq_inSem (h : (executeRun numCPU req lc).machine.Reachable s) :
    s.shared.sem = total TestProc.inSem s.procs := by
  refine Family.accounting (q := RunState.sem) ?_ ?_ ?_ h
  · intro sh hsh
    obtain ⟨cancelled, rfl⟩ := hsh
    rfl
  · intro s q a p r _ _ hr
    cases testStep_move hr with
    | release hp =>
        simp only [RunState.addSem, TestProc.setPc, TestProc.inSem, hp]
        omega
    | noJail hp | jailed hp | noSeed hp | seeded hp | begin hp | finish hp
    | done hp =>
        simp [RunState.store, RunState.addWg, TestProc.setPc, TestProc.inSem, hp]
  · intro s e r _ hr
    cases runEvent_move hr with
    | cancel | jailFails | compiled | loopEnds | loopNext | spawnEnds | spawnNext
    | begin | finish | wait =>
        simp [RunState.cancel, RunState.setPc, RunState.addWg, RunState.append]
    | interpreted => simp [startTests_sem]
    | build => simp [finishBuild_sem]
    | acquire => simp [RunState.addSem, RunState.setPc, TestProc.inSem]

theorem one_le_effectiveParallel (numCPU : Int) (req : Models.RunRequest) :
    1 ≤ effectiveParallel numCPU req := by
  unfold effectiveParallel
  (repeat' split) <;> omega

theorem effectiveParallel_le {numCPU : Int} (hcpu : 1 ≤ numCPU)
    (req : Models.RunRequest) : effectiveParallel numCPU req ≤ numCPU := by
  unfold effectiveParallel
  (repeat' split) <;> omega

theorem sem_le (h : (executeRun numCPU req lc).machine.Reachable s) :
    s.shared.sem ≤ effectiveParallel numCPU req := by
  refine Family.sharedInv (I := fun sh => sh.sem ≤ effectiveParallel numCPU req)
    ?_ ?_ ?_ h
  · intro sh hsh
    obtain ⟨cancelled, rfl⟩ := hsh
    have := one_le_effectiveParallel numCPU req
    show (0 : ℤ) ≤ _
    omega
  · intro s q a p r _ hle _ hr
    cases testStep_move hr with
    | release => simp only [RunState.addSem]; omega
    | noJail | jailed | noSeed | seeded | begin | finish | done => exact hle
  · intro s e r _ hle hr
    cases runEvent_move hr with
    | cancel | jailFails | compiled | loopEnds | loopNext | spawnEnds | spawnNext
    | begin | finish | wait => exact hle
    | interpreted => rw [startTests_sem]; exact hle
    | build => rw [finishBuild_sem]; exact hle
    | acquire _ hsem => simp only [RunState.addSem, RunState.setPc]; omega

/-- When the call has its results, all its goroutines are finished. -/
theorem finished_of_returned (h : (executeRun numCPU req lc).machine.Reachable s) :
    s.shared.pc.isReturned = true →
      ∀ (q : ℕ) p, s.procs[q]? = some p → p.pc = .finished := by
  refine h.invariant
    (I := fun s => s.shared.pc.isReturned = true →
      ∀ (q : ℕ) p, s.procs[q]? = some p → p.pc = .finished) ?_ ?_
  · intro s hs _ q p hq
    rw [hs.2] at hq
    cases hq
  · intro s a t hr ih _ hs
    cases a with
    | own q a =>
        obtain ⟨p, r, hq, hstep, rfl⟩ := step_own.mp hs
        have hmove := testStep_move hstep
        intro hret
        rw [show r.1.pc = s.shared.pc from (samePlace_of_move hmove).pc] at hret
        -- a finished goroutine takes no step
        have hp := ih hret q p hq
        cases hmove <;> simp_all
    | env e =>
        obtain ⟨r, hstep, rfl⟩ := step_env.mp hs
        have hphase := phaseWf_of_reachable hr
        have hmove : RunMove numCPU req lc s.shared e r := runEvent_move hstep
        intro hret
        unfold PhaseWf at hphase
        cases hmove with
        | cancel => rw [List.append_nil]; exact ih hret
        | wait hp hwg =>
            rw [List.append_nil]
            exact fun q p hq => finished_of_wg hr hp hwg hq
        | jailFails hp | compiled hp | interpreted hp | build hp | loopEnds hp
        | loopNext hp | begin hp | finish hp =>
            simp only [hp] at hphase
            intro q p hq
            rw [hphase] at hq
            cases hq
        | spawnEnds | spawnNext | acquire => cases hret

end

/-! ## The place of a jail -/

/-- Where the jail of a goroutine may be. -/
def TestPc.JailAt : TestPc → JailPc → Prop
  | .start, _ | .stored, _ => True
  | .jailed _, pc | .seeded _, pc | .exec .., pc => pc = .live
  | .released, pc | .finished, pc => pc = .gone

/-- Where the template jail may be. -/
def RunPc.TemplateAt : RunPc → JailPc → Prop
  | .newJail, _ | .returned .., _ => True
  | _, pc => pc = .live

theorem templateAt_live (pc : RunPc) : pc.TemplateAt .live := by
  cases pc <;> trivial

/-- Apart from the answer of `newJail` and a cancellation, a step of the call
itself is taken with a live template jail. -/
theorem live_of_move {numCPU : Int} {req : Models.RunRequest}
    {lc : Config.LanguageConfig} {sh : RunState} {e : RunEvent}
    {r : RunState × List TestProc} (h : RunMove numCPU req lc sh e r)
    (hcancel : e ≠ .cancel) (hnew : ∀ answer, e ≠ .newJail answer) {pc : JailPc}
    (hat : sh.pc.TemplateAt pc) : pc = .live := by
  cases h with
  | cancel => exact absurd rfl hcancel
  | jailFails | compiled | interpreted => exact absurd rfl (hnew _)
  | build hp | loopEnds hp | loopNext hp | spawnEnds hp | spawnNext hp | begin hp
  | finish hp | acquire hp | wait hp =>
      rw [hp] at hat
      exact hat

end Goboxd.Runner

namespace Goboxd.Api

open Family Runner

variable {cfg : ServiceConfig} {h : HostState} {c : Call}

/-- What ties the parts of a call together. -/
structure CallWf (cfg : ServiceConfig) (c : Call) : Prop where
  run : (c.machine cfg).Reachable c.run
  size : c.sandboxes.length = c.run.procs.length + 1
  template : ∀ sb, c.sandboxes[0]? = some sb →
    c.run.shared.pc.TemplateAt sb.jail.pc
  tests : ∀ (k : ℕ) p sb, c.run.procs[k]? = some p →
    c.sandboxes[k + 1]? = some sb → p.pc.JailAt sb.jail.pc
  waiting : c.caller.phase ≠ .admitted → c.caller.phase ≠ .released →
    c.run.shared.pc = .newJail ∧ c.sandboxes = [.fresh]
  released : c.caller.phase = .released → c.done = true

theorem callWf_start (cfg : ServiceConfig) (req : Models.RunRequest)
    (lc : Config.LanguageConfig) : CallWf cfg (Call.start req lc) where
  run := .start ⟨⟨false, rfl⟩, rfl⟩
  size := rfl
  template := fun _ _ => trivial
  tests := fun _ _ _ hp => by cases hp
  waiting := fun _ _ => ⟨rfl, rfl⟩
  released := fun hph => by cases hph

/-! ## What a step of the gate does to the phase -/

theorem phase_of_gate {g : GateState} {caller : Caller} {a : CallerAct}
    {r : GateState × Caller} (hr : callerStep g caller a = some r)
    (ha : a ≠ .ctxCancel) :
    (a = .release ∧ caller.phase = .admitted ∧ r.2.phase = .released) ∨
      (caller.phase ≠ .admitted ∧ caller.phase ≠ .released ∧
        r.2.phase ≠ .released) := by
  have hv : ∀ v : Verdict, v.phase ≠ .released := by
    intro v
    cases v <;> simp [Verdict.phase]
  cases callerStep_move hr with
  | release hc => exact .inl ⟨rfl, hc, rfl⟩
  | ctxCancel => exact absurd rfl ha
  | enter hc | recheck hc => exact .inr ⟨by simp [hc], by simp [hc], hv _⟩
  | takeBroadcast hc | takeDone hc | cancel hc =>
      exact .inr ⟨by simp [hc], by simp [hc], by simp⟩

theorem callWf_gate {a : CallerAct} {r : GateState × Caller} (hw : CallWf cfg c)
    (hmay : c.mayGate a = true) (hr : callerStep h.gate c.caller a = some r) :
    CallWf cfg (c.setCaller r.2) := by
  have ha : a ≠ .ctxCancel := by
    rintro rfl
    cases hmay
  have hphase := phase_of_gate hr ha
  refine ⟨hw.run, hw.size, hw.template, hw.tests, fun hadm hrel => ?_,
    fun hrel => ?_⟩
  · rcases hphase with ⟨-, -, hr⟩ | ⟨hadm', hrel', -⟩
    · exact absurd hr hrel
    · exact hw.waiting hadm' hrel'
  · rcases hphase with ⟨rfl, -, -⟩ | ⟨-, -, hrel'⟩
    · exact hmay
    · exact absurd hrel hrel'

theorem callWf_cancel {run : St RunState TestProc} (hw : CallWf cfg c)
    (hrun : (c.machine cfg).step c.run (.env .cancel) = some run) :
    CallWf cfg ((c.setCaller { c.caller with ctxDone := true }).setRun run []) := by
  have hreach := Machine.Reach.next hw.run trivial hrun
  obtain ⟨r, hr, rfl⟩ := step_env.mp hrun
  cases hr
  simp only [List.append_nil] at hreach
  refine ⟨?_, ?_, ?_, ?_, ?_, ?_⟩ <;>
    simp only [Call.setRun, Call.setCaller, List.append_nil]
  · exact hreach
  · exact hw.size
  · exact hw.template
  · exact hw.tests
  · exact hw.waiting
  · exact hw.released

/-! ## A step of a jail -/

theorem pc_ne_gone_of_step {cgActive : Bool} {umask : Mode}
    {srcName source name : GoString} {pool : Uidpool.Pool} {disk : Disk}
    {sb : Sandbox} {e : Option GoString} {r : Uidpool.Pool × Disk × Sandbox}
    (hr : sandboxStep cgActive umask srcName source pool disk sb e name = some r) :
    sb.jail.pc ≠ .gone := by
  have hj := (sandboxStep_some hr).1
  intro hpc
  unfold jailStep at hj
  rw [hpc] at hj
  cases hj

theorem done_setSandbox {k : ℕ} {sb : Sandbox} :
    (c.setSandbox (k + 1) sb).done = c.done := by
  unfold Call.done Call.returned Call.templateGone Call.setSandbox
  rw [List.getElem?_set_ne (by omega)]

theorem callWf_sandbox {i : ℕ} {e : Option GoString} {name : GoString}
    {sb sb' : Sandbox} {pool : Uidpool.Pool} {disk : Disk} (hw : CallWf cfg c)
    (hi : c.sandboxes[i]? = some sb) (hmay : c.maySandbox i sb = true)
    (hr : sandboxStep cfg.cgActive cfg.umask (resolveSourceName c.req c.lc)
      c.req.source h.pool h.disk sb e name = some (pool, disk, sb')) :
    CallWf cfg (c.setSandbox i sb') := by
  have hgone := pc_ne_gone_of_step hr
  refine ⟨hw.run, ?_, fun x hx => ?_, fun k p x hp hx => ?_, fun hadm hrel => ?_,
    fun hrel => ?_⟩
  · show (c.sandboxes.set i sb').length = _
    rw [List.length_set]
    exact hw.size
  · show c.run.shared.pc.TemplateAt x.jail.pc
    rcases getElem?_set_cases hx with ⟨rfl, rfl⟩ | ⟨-, hx⟩
    · have hat := hw.template sb hi
      -- a live template moves on when the call has returned
      rw [Call.maySandbox, Bool.and_eq_true, Bool.or_eq_true] at hmay
      rcases hmay.2 with hlive | hret
      · rw [decide_eq_true_eq] at hlive
        cases hpc : c.run.shared.pc with
        | newJail | returned => trivial
        | build | loop | test | exec | spawn | acquire | wait =>
            rw [hpc] at hat
            exact absurd hat hlive
      · unfold Call.returned RunPc.isReturned at hret
        split at hret
        · next hpc => rw [hpc]; trivial
        · cases hret
    · exact hw.template x hx
  · rcases getElem?_set_cases hx with ⟨rfl, rfl⟩ | ⟨-, hx⟩
    · have hat := hw.tests k p sb hp hi
      rw [Call.maySandbox, Bool.or_eq_true, decide_eq_true_eq] at hmay
      have hp' : c.run.procs[k]? = some p := hp
      rw [hp', Option.any_some] at hmay
      cases hpc : p.pc with
      | start | stored => trivial
      | jailed | seeded | exec =>
          rw [hpc] at hat hmay
          rcases hmay with hlive | hdef
          · exact absurd hat hlive
          · cases hdef
      | released | finished =>
          rw [hpc] at hat
          exact absurd hat hgone
    · exact hw.tests k p x hp hx
  · obtain ⟨-, hfresh⟩ := hw.waiting hadm hrel
    rw [hfresh] at hi
    cases i with
    | zero =>
        rw [Call.maySandbox, Bool.and_eq_true, decide_eq_true_eq] at hmay
        exact absurd hmay.1 hadm
    | succ k => cases hi
  · cases i with
    | zero =>
        rw [Call.maySandbox, Bool.and_eq_true, decide_eq_true_eq] at hmay
        rw [show c.caller.phase = .released from hrel] at hmay
        cases hmay.1
    | succ k =>
        rw [done_setSandbox]
        exact hw.released hrel

/-! ## A step of `ExecuteRun` -/

theorem answers_ok {i : ℕ} {j : JailFields} {sb : Sandbox}
    (hi : c.sandboxes[i]? = some sb) (ha : c.answers cfg i (.ok j) = true) :
    sb.jail.pc = .live := by
  rw [Call.answers, hi, Option.any_some, Sandbox.answers, Sandbox.isJail,
    decide_eq_true_eq] at ha
  exact ha.1

theorem done_setRun {run : St RunState TestProc} {more : List Sandbox}
    (hne : c.sandboxes ≠ []) (hpc : run.shared.pc = c.run.shared.pc) :
    (c.setRun run more).done = c.done := by
  have hlen := List.length_pos_of_ne_nil hne
  unfold Call.done Call.returned Call.templateGone Call.setRun
  simp only []
  rw [hpc, List.getElem?_append_left hlen]

theorem sandboxes_ne_nil (hw : CallWf cfg c) : c.sandboxes ≠ [] := by
  intro hnil
  have hsize := hw.size
  rw [hnil, List.length_nil] at hsize
  omega

theorem exists_template (hw : CallWf cfg c) : ∃ sb, c.sandboxes[0]? = some sb :=
  ⟨_, List.getElem?_eq_getElem (List.length_pos_of_ne_nil (sandboxes_ne_nil hw))⟩

theorem exists_sandbox (hw : CallWf cfg c) {k : ℕ} {p : TestProc}
    (hk : c.run.procs[k]? = some p) : ∃ sb, c.sandboxes[k + 1]? = some sb := by
  obtain ⟨hlt, -⟩ := List.getElem?_eq_some_iff.mp hk
  exact ⟨_, List.getElem?_eq_getElem (by rw [hw.size]; omega)⟩

theorem callWf_run_own {k : ℕ} {a : TestAct} {run : St RunState TestProc}
    (hw : CallWf cfg c) (hmay : c.mayRun cfg (.own k a) = true)
    (hrun : (c.machine cfg).step c.run (.own k a) = some run) :
    CallWf cfg (c.setRun run []) := by
  have hreach := Machine.Reach.next hw.run trivial hrun
  obtain ⟨p, r, hk, hr, rfl⟩ := step_own.mp hrun
  have hmove : TestMove c.req c.lc c.run.shared p a r := testStep_move hr
  have hsame := samePlace_of_move hmove
  refine ⟨hreach, ?_, fun sb hsb => ?_, fun q p' sb hp' hsb => ?_,
    fun hadm hrel => ?_, fun hrel => ?_⟩
  · show (c.sandboxes ++ []).length = (c.run.procs.set k r.2).length + 1
    rw [List.append_nil, List.length_set]
    exact hw.size
  · show r.1.pc.TemplateAt sb.jail.pc
    rw [hsame.pc]
    simp only [Call.setRun, List.append_nil] at hsb
    exact hw.template sb hsb
  · simp only [Call.setRun, List.append_nil] at hsb
    rcases getElem?_set_cases hp' with ⟨rfl, rfl⟩ | ⟨-, hp'⟩
    · have hat := hw.tests q p sb hk hsb
      cases hmove with
      | noJail | noSeed | finish => trivial
      | jailed => exact answers_ok hsb hmay
      | seeded hp | begin hp =>
          rw [hp] at hat
          exact hat
      | release =>
          rw [Call.mayRun, hsb, Option.any_some, decide_eq_true_eq] at hmay
          exact hmay
      | done hp =>
          rw [hp] at hat
          exact hat
    · exact hw.tests q p' sb hp' hsb
  · -- nothing is admitted, so there is no goroutine
    obtain ⟨-, hfresh⟩ := hw.waiting hadm hrel
    have hsize := hw.size
    rw [hfresh, List.length_singleton] at hsize
    obtain ⟨hlt, -⟩ := List.getElem?_eq_some_iff.mp hk
    omega
  · rw [done_setRun (sandboxes_ne_nil hw) hsame.pc]
    exact hw.released hrel

theorem callWf_run_env {e : RunEvent} {run : St RunState TestProc}
    (hw : CallWf cfg c) (hmay : c.mayRun cfg (.env e) = true)
    (hrun : (c.machine cfg).step c.run (.env e) = some run) :
    CallWf cfg (c.setRun run (spawned (.env e))) := by
  have hreach := Machine.Reach.next hw.run trivial hrun
  obtain ⟨r, hr, rfl⟩ := step_env.mp hrun
  have hmove : RunMove cfg.numCPU c.req c.lc c.run.shared e r := runEvent_move hr
  have hcancel : e ≠ .cancel := by
    rintro rfl
    cases hmay
  have hlen := List.length_pos_of_ne_nil (sandboxes_ne_nil hw)
  -- the step starts as many goroutines as it makes room for jails
  have hnew : (spawned (.env e)).length = r.2.length ∧
      ∀ (k : ℕ) p, r.2[k]? = some p → p.pc = .start := by
    cases hmove with
    | acquire =>
        refine ⟨rfl, fun k p hk => ?_⟩
        cases k with
        | zero => cases hk; rfl
        | succ k => cases hk
    | cancel | jailFails | compiled | interpreted | build | loopEnds | loopNext
    | spawnEnds | spawnNext | begin | finish | wait =>
        exact ⟨rfl, fun k p hk => by cases hk⟩
  refine ⟨hreach, ?_, fun sb hsb => ?_, fun q p sb hp hsb => ?_,
    fun hadm hrel => ?_, fun hrel => ?_⟩
  · show (c.sandboxes ++ spawned (.env e)).length = (c.run.procs ++ r.2).length + 1
    rw [List.length_append, List.length_append, hnew.1, hw.size]
    omega
  · show r.1.pc.TemplateAt sb.jail.pc
    simp only [Call.setRun, List.getElem?_append_left hlen] at hsb
    by_cases hans : ∃ answer, e = .newJail answer
    · obtain ⟨answer, rfl⟩ := hans
      rw [Call.mayRun, Bool.and_eq_true] at hmay
      cases hmove with
      | jailFails => trivial
      | compiled | interpreted =>
          rw [answers_ok hsb hmay.2]
          exact templateAt_live _
    · have hlive := live_of_move hmove hcancel (fun answer he => hans ⟨answer, he⟩)
        (hw.template sb hsb)
      rw [hlive]
      exact templateAt_live _
  · rcases getElem?_append_cases hp with hp | ⟨k, rfl, hk⟩
    · obtain ⟨hlt, -⟩ := List.getElem?_eq_some_iff.mp hp
      have hsb' : c.sandboxes[q + 1]? = some sb := by
        rw [← hsb]
        exact (List.getElem?_append_left (by rw [hw.size]; omega)).symm
      exact hw.tests q p sb hp hsb'
    · rw [hnew.2 k p hk]
      trivial
  · -- nothing is admitted, so `newJail` has not answered
    obtain ⟨hpc, -⟩ := hw.waiting hadm hrel
    cases hmove with
    | cancel => exact absurd rfl hcancel
    | jailFails | compiled | interpreted =>
        rw [Call.mayRun, Bool.and_eq_true, decide_eq_true_eq] at hmay
        exact absurd hmay.1 hadm
    | build hp | loopEnds hp | loopNext hp | spawnEnds hp | spawnNext hp
    | begin hp | finish hp | acquire hp | wait hp =>
        rw [hpc] at hp
        cases hp
  · -- the call has returned, and takes no more steps
    have hdone := hw.released hrel
    rw [Call.done, Bool.and_eq_true, Call.returned] at hdone
    cases hmove with
    | cancel => exact absurd rfl hcancel
    | jailFails hp | compiled hp | interpreted hp | build hp | loopEnds hp
    | loopNext hp | spawnEnds hp | spawnNext hp | begin hp | finish hp | acquire hp
    | wait hp =>
        rw [hp] at hdone
        cases hdone.1

theorem callWf_step {a : CallAct} {r : HostState × Call} (hw : CallWf cfg c)
    (hmove : CallMove cfg h c a r) : CallWf cfg r.2 := by
  cases hmove with
  | gate hmay hr => exact callWf_gate hw hmay hr
  | cancel hrun => exact callWf_cancel hw hrun
  | sandbox hi hmay hr => exact callWf_sandbox hw hi hmay hr
  | @run a tree run disk hmay hrun hdisk =>
      cases a with
      | own k a => exact callWf_run_own hw hmay hrun
      | env e => exact callWf_run_env hw hmay hrun

/-- In every state the service can reach, the parts of every call fit. -/
theorem callWf_of_reachable {s : St HostState Call}
    (hr : (service cfg).machine.Reachable s) : Each (fun _ _ c => CallWf cfg c) s := by
  refine Family.each ?_ ?_ ?_ ?_ hr
  · exact fun s p a c r _ hw _ hc hs => callWf_step (hw p c hc) (callStep_move hs)
  · exact fun s p a c r q d _ hw _ _ _ _ hd => hw q d hd
  · exact fun s e r q d _ hw _ _ hd => hw q d hd
  · intro s e r k d _ _ he hk
    cases e with
    | call req lc =>
        cases he
        cases k with
        | zero => cases hk; exact callWf_start cfg req lc
        | succ k => cases hk
    | stop =>
        cases he
        cases hk

/-! ## Where nothing is left -/

/-- The jail has not been started, or nothing of it is in use any more. -/
def Sandbox.idle (sb : Sandbox) : Prop := sb = .fresh ∨ sb.jail.pc = .gone

/-- A call that is over has no jail any more. -/
theorem gone_of_done (hw : CallWf cfg c) (hdone : c.done = true) :
    ∀ sb ∈ c.sandboxes, sb.jail.pc = .gone := by
  intro sb hsb
  rw [Call.done, Bool.and_eq_true] at hdone
  obtain ⟨hret, hgone⟩ := hdone
  obtain ⟨i, hi⟩ := List.mem_iff_getElem?.mp hsb
  cases i with
  | zero =>
      rw [Call.templateGone, hi, Option.any_some, decide_eq_true_eq] at hgone
      exact hgone
  | succ k =>
      obtain ⟨hlt, -⟩ := List.getElem?_eq_some_iff.mp hi
      rw [hw.size] at hlt
      have hk : c.run.procs[k]? = some c.run.procs[k] :=
        List.getElem?_eq_getElem (by omega)
      have hat := hw.tests k _ sb hk hi
      rw [finished_of_returned hw.run hret k _ hk] at hat
      exact hat

/-- A call that is not under way has no jail in use. -/
theorem idle_of_done (hw : CallWf cfg c)
    (hd : c.caller.phase ≠ .admitted ∨ c.done = true) :
    ∀ sb ∈ c.sandboxes, Sandbox.idle sb := by
  intro sb hsb
  by_cases hdone : c.done = true
  · exact .inr (gone_of_done hw hdone sb hsb)
  · have hadm := hd.resolve_right hdone
    have hrel : c.caller.phase ≠ .released := fun hrel => hdone (hw.released hrel)
    rw [(hw.waiting hadm hrel).2, List.mem_singleton] at hsb
    exact .inl hsb

end Goboxd.Api
