import Goboxd.Proofs.CpuAuthority
import Goboxd.Proofs.OutputVerdict

/-!
# When a reached cpu limit shows in the verdict

The cpu time of a result is measured after `Wait`; the verdict is made of other
facts. A tick of the poller may have seen the usage at the limit and killed. The
kernel may have ended the program at its own limit, which shows in the wait
status. Only for an exit with 137 is the measured time itself compared with the
limit, and only when the wall deadline has not passed.

So a program that crosses the limit between two ticks and then ends in any other
way is judged by its output or its exit code, next to a measured time that is
over the limit.
-/

namespace Goboxd.Runner

open Go Models Config Api

/-- A reading of one of the poller's ticks, before the parent looks at the flag,
was at the limit. -/
def SeenAtLimit (cg : Cgroupv2.Jail) (before : Cgroupv2.Dir) (lim : ExecLimits)
    (ticks : List Cgroupv2.Dir) : Prop :=
  ∃ d ∈ ticks, cpuExceeded cg d (cpuLimitUS lim.cpuLimit)
    (cpuBaseline (some cg) before).1 (cpuBaseline (some cg) before).2 = true

/-- What the poller has stored after these ticks. -/
def cpuKillAfter (cg : Cgroupv2.Jail) (before : Cgroupv2.Dir) (lim : ExecLimits)
    (ticks : List Cgroupv2.Dir) : Bool :=
  ticks.any fun d => cpuExceeded cg d (cpuLimitUS lim.cpuLimit)
    (cpuBaseline (some cg) before).1 (cpuBaseline (some cg) before).2

/-- The program ended by SIGXCPU, which nsjail may have turned into an exit code. -/
def EndedBySIGXCPU (ps : Option WaitStatus) : Prop :=
  ps = some (.exited 152) ∨ ps = some (.signaled 24)

/-- `Wait` reports an exit with 137 that no signal of nsjail's own explains. -/
def Exited137 (wait : Option GoString) (ps : Option WaitStatus) : Prop :=
  (ps = none ∨ ∃ code, code ≠ 152 ∧ ps = some (.exited code)) ∧
    ∃ err, wait = some err ∧ contains err (str "exit status 137") = true

/-- What gives a reached limit away: a tick, SIGXCPU, or an exit with 137 before
the wall deadline. -/
def LimitShows (cg : Cgroupv2.Jail) (before : Cgroupv2.Dir) (lim : ExecLimits)
    (ticks : List Cgroupv2.Dir) (r : ExecRun) (ctxErr : Option CtxErr) : Prop :=
  SeenAtLimit cg before lim ticks ∨ (r.wait ≠ none ∧ EndedBySIGXCPU r.ps) ∨
    (ctxErr ≠ some .deadlineExceeded ∧ Exited137 r.wait r.ps)

/-! ## Reading the wait status -/

theorem cpuKillAfter_iff {cg : Cgroupv2.Jail} {before : Cgroupv2.Dir}
    {lim : ExecLimits} {ticks : List Cgroupv2.Dir} :
    cpuKillAfter cg before lim ticks = true ↔ SeenAtLimit cg before lim ticks := by
  rw [cpuKillAfter, List.any_eq_true]
  rfl

theorem signalKillReason_cpu_iff {ps : Option WaitStatus} :
    signalKillReason ps = .cpuTimeExceeded ↔ EndedBySIGXCPU ps := by
  unfold EndedBySIGXCPU signalKillReason
  cases ps with
  | none => simp
  | some st =>
      cases st with
      | exited code =>
          show (if code = 152 then _ else _) = _ ↔ _
          split
          · next h => simp [h]
          · next h => simp [h]
      | signaled sig =>
          simp only [Option.elim, signalReasonFromStatus, SIGKILL, SIGSEGV, SIGABRT,
            SIGXCPU]
          by_cases h : sig = 24
          · simp [h]
          · simp only [h, if_false]
            (repeat' split) <;> simp [h]

theorem signalKillReason_unset_iff {ps : Option WaitStatus} :
    signalKillReason ps = .unset ↔
      ps = none ∨ ∃ code, code ≠ 152 ∧ ps = some (.exited code) := by
  unfold signalKillReason
  cases ps with
  | none => simp
  | some st =>
      cases st with
      | exited code =>
          show (if code = 152 then _ else _) = _ ↔ _
          split
          · next h => simp [h]
          · next h => simp [h]
      | signaled sig =>
          simp only [Option.elim, signalReasonFromStatus]
          (repeat' split) <;> simp

/-! ## The verdict of an exec that reached the limit -/

/-- Of an exec that reached its limit and was neither cancelled nor killed for
its memory, the status is the cpu limit's when the poller killed, or the end of
the program shows it. -/
theorem computeTestStatus_reached_iff {ctxErr : Option CtxErr}
    {err : Option GoString} {stdout expected : GoString}
    {ps : Option WaitStatus} {cpu : CpuOutcome} (hctx : ctxErr ≠ some .canceled)
    (hpos : 0 < cpu.limitUS) (hreached : cpu.limitUS ≤ cpu.timeUS) :
    computeTestStatus ctxErr err stdout expected ps false cpu = .cpuTimeExceeded ↔
      cpu.killed = true ∨ (err ≠ none ∧ EndedBySIGXCPU ps) ∨
        (ctxErr ≠ some .deadlineExceeded ∧ Exited137 err ps) := by
  unfold computeTestStatus
  rw [if_neg hctx, if_neg Bool.false_ne_true, ← signalKillReason_cpu_iff]
  by_cases hcpu : cpu.killed = true ∨
      (err ≠ none ∧ signalKillReason ps = .cpuTimeExceeded)
  · rw [if_pos hcpu]
    exact ⟨fun _ => hcpu.imp_right .inl, fun _ => rfl⟩
  · rw [if_neg hcpu]
    rw [not_or] at hcpu
    by_cases hdead : ctxErr = some .deadlineExceeded
    · rw [if_pos hdead]
      simp [hcpu, hdead]
    · rw [if_neg hdead]
      cases err with
      | none =>
          have hcompare : compareOutput stdout expected ≠ .cpuTimeExceeded := by
            unfold compareOutput
            (repeat' split) <;> exact ResultStatus.noConfusion
          simp [hcpu, hcompare, Exited137]
      | some err =>
          have hps : ¬ signalKillReason ps = .cpuTimeExceeded := fun h =>
            hcpu.2 ⟨by simp, h⟩
          show errorStatus err ps cpu = _ ↔ _
          unfold errorStatus
          by_cases hunset : signalKillReason ps = .unset
          · rw [if_neg (not_not.mpr hunset)]
            by_cases h137 : contains err (str "exit status 137") = true
            · rw [if_pos h137, if_pos ⟨hpos, hreached⟩]
              refine ⟨fun _ => .inr (.inr ⟨hdead, ?_, err, rfl, h137⟩), fun _ => rfl⟩
              exact signalKillReason_unset_iff.mp hunset
            · rw [if_neg h137]
              simp [hcpu, hps, Exited137, h137]
          · rw [if_pos hunset]
            have hne : ¬ Exited137 (some err) ps := fun h =>
              hunset (signalKillReason_unset_iff.mpr h.1)
            simp [hcpu, hps, hne]

theorem execFinish_cpuTimeUS_inRange (w : ExecWorld) (j : JailFields)
    (outputCap : Int) (r : ExecRun) :
    InRange (execFinish w j outputCap r).cpuTimeUS := by
  have hzero : InRange 0 := ⟨by decide, by decide⟩
  show InRange (cpuTimeUS _ _ _ _ _ _)
  unfold cpuTimeUS
  simp only []
  (repeat' split) <;> first | exact wrap_inRange _ | exact hzero

/-- When a reached cpu limit is the verdict. Of every test on the cgroup path,
with every sequence of ticks and every end of the program: if the client is not
gone, no OOM kill was detected and the measured time is at least the limit, the
status is `cpu_time_exceeded` exactly when a tick saw the usage at the limit,
or the program ended by SIGXCPU, or with 137 before the wall deadline. -/
theorem cpu_verdict_iff {w : TestWorld} {tc : TestCase} {lc : LanguageConfig}
    {j : JailFields} {req : RunRequest} {args : List GoString}
    {cg : Cgroupv2.Jail} {ticks : List Cgroupv2.Dir} {lim : ExecLimits}
    (hlim : stageLimits lc.runLimits req.run = lim) (hpos : 0 < lim.cpuLimit)
    (hbefore : w.ctxBefore = none)
    (hstart : execStart w.exec j (runCmdArgs req lc) lim = .ok args)
    (_hcg : j.cg = some cg)
    (hpoll : (w.exec.run args tc.stdin).isCPUKill =
      cpuKillAfter cg w.exec.dirBefore lim ticks)
    (hctx : w.ctxAfter ≠ some .canceled)
    (hoom : (testOutcome w tc lc j req).oomKilled = false)
    (hreached : lim.cpuLimit * 1000000 ≤ (testOutcome w tc lc j req).cpuTimeUS) :
    (runSingleTest w tc lc j req).status = .cpuTimeExceeded ↔
      LimitShows cg w.exec.dirBefore lim ticks (w.exec.run args tc.stdin)
        w.ctxAfter := by
  subst hlim
  have hout : testOutcome w tc lc j req =
      execFinish w.exec j (outputCap req) (w.exec.run args tc.stdin) :=
    execJail_of_start tc.stdin (outputCap req) hstart
  have hrange := execFinish_cpuTimeUS_inRange w.exec j (outputCap req)
    (w.exec.run args tc.stdin)
  rw [← hout] at hrange
  have hlimit : cpuLimitUS (stageLimits lc.runLimits req.run).cpuLimit =
      (stageLimits lc.runLimits req.run).cpuLimit * 1000000 := by
    refine wrap_of_inRange ⟨?_, hreached.trans hrange.2⟩
    unfold maxInt
    omega
  have hkilled : (testOutcome w tc lc j req).cpuKilled =
      (w.exec.run args tc.stdin).isCPUKill := by
    rw [hout]
    rfl
  have hlimitPos : 0 < cpuLimitUS (stageLimits lc.runLimits req.run).cpuLimit := by
    omega
  rw [runSingleTest_status hbefore hstart, hoom,
    computeTestStatus_reached_iff hctx hlimitPos (hlimit ▸ hreached)]
  rw [LimitShows, ← cpuKillAfter_iff, ← hpoll, hkilled]

/-! ## A program on four cores, with a limit of one second -/

def oneSecond : RunRequest :=
  { pyRequest [] with run := some ⟨some ⟨none, none, none, some 1⟩, []⟩ }

def oneSecondLimits : ExecLimits := ⟨9, 1, 1048576, 100⟩

def usageDir (us : Int) : Cgroupv2.Dir := ⟨some [], .ok (cpuStat us), none⟩

/-- A test that used 1.07 s of cpu time by its end, with one tick before it. -/
def burst (atTick : Int) (wait : Option GoString) (ps : WaitStatus) : TestWorld :=
  { printing [] with
    exec :=
      { startedWith (.ok (cpuStat 0)) with
        run := fun _ _ =>
          { stdout := []
            stderr := []
            isOOMKill := false
            isCPUKill :=
              cpuKillAfter ⟨cpuManager.base ++ str "/goboxd-jail-7", true⟩ (usageDir 0)
                oneSecondLimits [usageDir atTick]
            wait := wait
            ps := some ps
            dirAfter := usageDir 1070000
            rusageAfter := ⟨⟨0, 0⟩, ⟨0, 0⟩, 0⟩ } } }

theorem cpu_verdict_ticked :
    (runSingleTest (burst 1010000 (some (str "signal: killed")) (.signaled SIGKILL))
      ⟨[], []⟩ (newLanguageConfig pyLang) cgroupJail oneSecond).status =
        .cpuTimeExceeded := by
  obtain ⟨args, hstart⟩ : ∃ args,
      execStart (burst 1010000 (some (str "signal: killed")) (.signaled SIGKILL)).exec
        cgroupJail (runCmdArgs oneSecond (newLanguageConfig pyLang)) oneSecondLimits =
          .ok args := ⟨_, rfl⟩
  have hseen : SeenAtLimit ⟨cpuManager.base ++ str "/goboxd-jail-7", true⟩ (usageDir 0)
      oneSecondLimits [usageDir 1010000] := ⟨_, List.mem_cons_self, by decide⟩
  exact (cpu_verdict_iff rfl (by decide) rfl hstart rfl rfl (by decide) rfl
    (by decide)).mpr (.inl hseen)

/-- The tick finds 0.95 s; the program ends by itself before the next one. -/
theorem reached_limit_accepted :
    validateRun (fun _ => []) pyRegistry (.ok oneSecond) =
        .ok (oneSecond, newLanguageConfig pyLang) ∧
      (testOutcome (burst 950000 none (.exited 0)) ⟨[], []⟩ (newLanguageConfig pyLang)
        cgroupJail oneSecond).oomKilled = false ∧
      (testOutcome (burst 950000 none (.exited 0)) ⟨[], []⟩ (newLanguageConfig pyLang)
        cgroupJail oneSecond).cpuTimeUS = 1070000 ∧
      (runSingleTest (burst 950000 none (.exited 0)) ⟨[], []⟩
        (newLanguageConfig pyLang) cgroupJail oneSecond).status = .accepted := by
  refine ⟨rfl, rfl, by decide, by decide⟩

end Goboxd.Runner
