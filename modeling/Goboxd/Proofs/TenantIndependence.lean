import Goboxd.Proofs.CpuVerdict
import Mathlib.Logic.Function.Basic

/-!
# What a verdict owes to other tenants

Two of the numbers that a test's result is made of come from the jail's own cgroup
when there is one, and from the totals that the kernel keeps for all children of the
process when there is none: the peak memory, and the cpu time. In those totals are
the programs of every other request, earlier ones for the peak, concurrent ones for
the cpu time.

The peak is reported. The cpu time is compared with the limit, but only for an exit
with 137 before the wall deadline that no detected kill explains, and others can only
add to it. So a verdict owes something to the other tenants exactly when its cpu time
is not the cgroup's, it is asked for, and the program's own use is below the limit.
-/

namespace Goboxd.Runner

open Go Models Config

/-! ## Own use, and that of the others -/

/-- Cpu times in microseconds, and the largest resident set in kilobytes. -/
structure ResourceUse where
  utimeUS : ℕ
  stimeUS : ℕ
  maxrssKB : ℕ
deriving DecidableEq, Repr

def ResourceUse.none : ResourceUse := ⟨0, 0, 0⟩

def ResourceUse.cpuUS (u : ResourceUse) : ℤ := u.utimeUS + u.stimeUS

/-- The kernel adds up the times of all children, and keeps the largest peak. -/
def ResourceUse.add (u v : ResourceUse) : ResourceUse :=
  ⟨u.utimeUS + v.utimeUS, u.stimeUS + v.stimeUS, max u.maxrssKB v.maxrssKB⟩

def timevalOf (us : ℕ) : Timeval := ⟨us / 1000000, us % 1000000⟩

/-- What `Getrusage(RUSAGE_CHILDREN)` fills in. -/
def ResourceUse.rusage (u : ResourceUse) : Rusage :=
  ⟨timevalOf u.utimeUS, timevalOf u.stimeUS, u.maxrssKB⟩

/-- What the programs of other requests, and earlier ones, leave behind: the cgroup
files of their jails at the three moments at which a test reads its own, what they
had used when the test's exec started, and what they use while it runs. -/
structure Tenants where
  filesBefore : GoString → Cgroupv2.Dir
  filesAfter : GoString → Cgroupv2.Dir
  filesPeak : GoString → Cgroupv2.Dir
  before : ResourceUse
  during : ResourceUse

/-- An `int64` holds the total of the cpu times. -/
def Tenants.Fits (t : Tenants) (use : ResourceUse) : Prop :=
  (t.before.add (t.during.add use)).cpuUS ≤ maxInt

/-- A read under the jail's path, in a hierarchy that has its files there and those
of the others elsewhere. -/
def readLeaf (cg : Option Cgroupv2.Jail) (files : GoString → Cgroupv2.Dir)
    (own : Cgroupv2.Dir) : Cgroupv2.Dir :=
  Function.update files (cg.elim [] Cgroupv2.Jail.path) own (cg.elim [] Cgroupv2.Jail.path)

/-- The world of a test among other tenants. `w` says what the test's own process
does and what is in its own leaf; `use` is what it uses. -/
def TestWorld.among (w : TestWorld) (use : ResourceUse) (cg : Option Cgroupv2.Jail)
    (t : Tenants) : TestWorld :=
  { w with
    exec := { w.exec with
      dirBefore := readLeaf cg t.filesBefore w.exec.dirBefore
      rusageBefore := t.before.rusage
      run := fun args stdin => { w.exec.run args stdin with
        dirAfter := readLeaf cg t.filesAfter (w.exec.run args stdin).dirAfter
        rusageAfter := (t.before.add (t.during.add use)).rusage } }
    peakDir := readLeaf cg t.filesPeak w.peakDir
    rusage := some (t.before.add (t.during.add use)).rusage }

theorem readLeaf_eq (cg : Option Cgroupv2.Jail) (files : GoString → Cgroupv2.Dir)
    (own : Cgroupv2.Dir) : readLeaf cg files own = own :=
  Function.update_self _ _ _

/-! ## The measured cpu time -/

/-- The cpu time of the exec is the difference of two readings of the jail's own
cgroup. -/
def OwnCpu (cg : Option Cgroupv2.Jail) (before after : Cgroupv2.Dir) : Prop :=
  ∃ j b f, cg = some j ∧ j.CPUActive = true ∧ j.CPUUsageUS before = .ok b ∧
    j.CPUUsageUS after = .ok f ∧ b ≤ f

theorem timevalUS_timevalOf {us : ℕ} (h : (us : ℤ) ≤ maxInt) :
    timevalUS (timevalOf us) = us := by
  have hsum : (timevalOf us).sec * 1000000 + (timevalOf us).usec = us := by
    show ((us / 1000000 : ℤ)) * 1000000 + (us % 1000000 : ℤ) = us
    omega
  rw [timevalUS, hsum]
  exact wrap_of_inRange ⟨by unfold maxInt; omega, h⟩

theorem rusage_cpu {u : ResourceUse} (h : u.cpuUS ≤ maxInt) :
    wrap (timevalUS u.rusage.utime + timevalUS u.rusage.stime) = u.cpuUS := by
  unfold ResourceUse.cpuUS at h
  show wrap (timevalUS (timevalOf u.utimeUS) + timevalUS (timevalOf u.stimeUS)) = _
  rw [timevalUS_timevalOf (by omega), timevalUS_timevalOf (by omega)]
  exact wrap_of_inRange ⟨by unfold maxInt; omega, h⟩

theorem add_cpuUS (u v : ResourceUse) : (u.add v).cpuUS = u.cpuUS + v.cpuUS := by
  show ((u.utimeUS + v.utimeUS : ℕ) : ℤ) + ((u.stimeUS + v.stimeUS : ℕ) : ℤ) =
    u.utimeUS + u.stimeUS + (v.utimeUS + v.stimeUS)
  omega

theorem cpuUS_nonneg (u : ResourceUse) : 0 ≤ u.cpuUS := by
  unfold ResourceUse.cpuUS
  omega

/-- What `execJail` measures among other tenants. -/
def measuredUS (cg : Option Cgroupv2.Jail) (before after : Cgroupv2.Dir)
    (use : ResourceUse) (t : Tenants) : ℤ :=
  cpuTimeUS cg after (cpuBaseline cg before).1 (cpuBaseline cg before).2 t.before.rusage
    (t.before.add (t.during.add use)).rusage

/-- In its own cgroup a program's cpu time is its own. -/
theorem measuredUS_own {cg : Option Cgroupv2.Jail} {before after : Cgroupv2.Dir}
    (h : OwnCpu cg before after) (use : ResourceUse) (t t' : Tenants) :
    measuredUS cg before after use t = measuredUS cg before after use t' := by
  obtain ⟨j, b, f, rfl, hactive, hb, hf, hle⟩ := h
  unfold measuredUS cpuTimeUS cpuBaseline
  simp only [hactive, hb, hf, ge_iff_le, hle, if_true, Bool.and_true]

/-- Without it, what the others use while it runs is added. -/
theorem measuredUS_all {cg : Option Cgroupv2.Jail} {before after : Cgroupv2.Dir}
    (h : ¬ OwnCpu cg before after) {use : ResourceUse} {t : Tenants} (hfits : t.Fits use) :
    measuredUS cg before after use t = t.during.cpuUS + use.cpuUS := by
  have hbefore := cpuUS_nonneg t.before
  have hduring := cpuUS_nonneg t.during
  have huse := cpuUS_nonneg use
  have htotal := add_cpuUS t.before (t.during.add use)
  rw [add_cpuUS t.during] at htotal
  unfold Tenants.Fits at hfits
  have hrusage : (if wrap (timevalUS (t.before.add (t.during.add use)).rusage.utime +
        timevalUS (t.before.add (t.during.add use)).rusage.stime) ≥
          wrap (timevalUS t.before.rusage.utime + timevalUS t.before.rusage.stime) then
        wrap (wrap (timevalUS (t.before.add (t.during.add use)).rusage.utime +
            timevalUS (t.before.add (t.during.add use)).rusage.stime) -
          wrap (timevalUS t.before.rusage.utime + timevalUS t.before.rusage.stime))
      else 0) = t.during.cpuUS + use.cpuUS := by
    rw [rusage_cpu hfits, rusage_cpu (by omega), if_pos (by omega), htotal]
    rw [wrap_of_inRange ⟨by unfold maxInt; omega, by omega⟩]
    omega
  unfold measuredUS cpuTimeUS
  simp only [hrusage]
  cases cg with
  | none => rfl
  | some j =>
      dsimp only
      by_cases hok : (j.CPUActive && (cpuBaseline (some j) before).2) = true
      · rw [if_pos hok]
        obtain ⟨hactive, hbase⟩ := (Bool.and_eq_true _ _).mp hok
        obtain ⟨_, hj, -, b, hb⟩ := cpuBaseline_ok.mp hbase
        cases hj
        have hb1 : (cpuBaseline (some j) before).1 = b := by
          unfold cpuBaseline
          simp only [hactive, hb, if_true]
        rw [hb1]
        cases hf : j.CPUUsageUS after with
        | error err => rfl
        | ok f =>
            have hlt : ¬ f ≥ b := fun hle => h ⟨j, b, f, rfl, hactive, hb, hf, hle⟩
            dsimp only
            rw [if_neg hlt]
      · rw [if_neg hok]

/-! ## The verdict -/

variable {w : TestWorld} {tc : TestCase} {lc : LanguageConfig} {j : JailFields}
  {req : RunRequest} {use : ResourceUse}

/-- The status asks how much cpu time was used: nothing else explains the exit. -/
structure AsksCpuTime (w : TestWorld) (tc : TestCase) (lc : LanguageConfig)
    (j : JailFields) (req : RunRequest) (args : List GoString) : Prop where
  ctx : w.ctxAfter = none
  oom : (execFinish w.exec j (outputCap req) (w.exec.run args tc.stdin)).oomKilled = false
  cpu : (w.exec.run args tc.stdin).isCPUKill = false
  limit : 0 < cpuLimitUS (stageLimits lc.runLimits req.run).cpuLimit
  exit : Exited137 (w.exec.run args tc.stdin).wait (w.exec.run args tc.stdin).ps

/-- The status that `runSingleTest` makes of a measured time. -/
def verdictAt (w : TestWorld) (tc : TestCase) (lc : LanguageConfig) (j : JailFields)
    (req : RunRequest) (args : List GoString) (timeUS : ℤ) : ResultStatus :=
  computeTestStatus w.ctxAfter (w.exec.run args tc.stdin).wait
    (readCapped (w.exec.run args tc.stdin).stdout (outputCap req)) tc.expectedStdout
    (w.exec.run args tc.stdin).ps
    (execFinish w.exec j (outputCap req) (w.exec.run args tc.stdin)).oomKilled
    { limitUS := cpuLimitUS (stageLimits lc.runLimits req.run).cpuLimit
      timeUS := timeUS
      killed := (w.exec.run args tc.stdin).isCPUKill }

theorem verdictAt_of_asks {args : List GoString} (h : AsksCpuTime w tc lc j req args)
    (timeUS : ℤ) : verdictAt w tc lc j req args timeUS =
      if cpuLimitUS (stageLimits lc.runLimits req.run).cpuLimit ≤ timeUS then
        .cpuTimeExceeded
      else .timeExceeded := by
  obtain ⟨hps, err, hwait, h137⟩ := h.exit
  have hreason := signalKillReason_unset_iff.mpr hps
  have hlimit := h.limit
  unfold verdictAt computeTestStatus
  rw [h.ctx, h.oom, h.cpu, hwait, hreason]
  show errorStatus err _ _ = _
  unfold errorStatus
  rw [hreason, if_neg (not_not.mpr rfl), if_pos h137]
  by_cases hle : cpuLimitUS (stageLimits lc.runLimits req.run).cpuLimit ≤ timeUS
  · rw [if_pos hle, if_pos ⟨hlimit, hle⟩]
  · rw [if_neg hle, if_neg fun hand => hle hand.2]

theorem verdictAt_of_not_asks {args : List GoString}
    (h : ¬ AsksCpuTime w tc lc j req args) (timeUS timeUS' : ℤ) :
    verdictAt w tc lc j req args timeUS = verdictAt w tc lc j req args timeUS' := by
  unfold verdictAt computeTestStatus
  dsimp only
  by_cases hcancel : w.ctxAfter = some .canceled
  · rw [if_pos hcancel, if_pos hcancel]
  · rw [if_neg hcancel, if_neg hcancel]
    by_cases hoom : (execFinish w.exec j (outputCap req)
        (w.exec.run args tc.stdin)).oomKilled = true
    · rw [if_pos hoom, if_pos hoom]
    · rw [if_neg hoom, if_neg hoom]
      by_cases hkilled : (w.exec.run args tc.stdin).isCPUKill = true ∨
          ((w.exec.run args tc.stdin).wait ≠ none ∧
            signalKillReason (w.exec.run args tc.stdin).ps = .cpuTimeExceeded)
      · rw [if_pos hkilled, if_pos hkilled]
      · rw [if_neg hkilled, if_neg hkilled]
        by_cases hdead : w.ctxAfter = some .deadlineExceeded
        · rw [if_pos hdead, if_pos hdead]
        · rw [if_neg hdead, if_neg hdead]
          have hctx : w.ctxAfter = none := by
            cases hc : w.ctxAfter with
            | none => rfl
            | some e =>
                cases e with
                | canceled => exact absurd hc hcancel
                | deadlineExceeded => exact absurd hc hdead
          cases hwait : (w.exec.run args tc.stdin).wait with
          | none => rfl
          | some err =>
              show errorStatus err _ _ = errorStatus err _ _
              unfold errorStatus
              by_cases hreason : signalKillReason (w.exec.run args tc.stdin).ps = .unset
              · rw [if_neg (not_not.mpr hreason), if_neg (not_not.mpr hreason)]
                by_cases h137 : contains err (str "exit status 137") = true
                · -- only a limit that is not positive is left
                  have hlimit : ¬ 0 <
                      cpuLimitUS (stageLimits lc.runLimits req.run).cpuLimit := by
                    intro hpos
                    refine h ⟨hctx, by simpa using hoom, ?_, hpos,
                      signalKillReason_unset_iff.mp hreason, err, hwait, h137⟩
                    exact Bool.eq_false_iff.mpr (not_or.mp hkilled).1
                  rw [if_pos h137, if_pos h137, if_neg fun hand => hlimit hand.1,
                    if_neg fun hand => hlimit hand.1]
                · rw [if_neg h137, if_neg h137]
              · rw [if_pos hreason, if_pos hreason]

theorem status_among (hbefore : w.ctxBefore = none) {args : List GoString}
    (hstart : execStart w.exec j (runCmdArgs req lc)
      (stageLimits lc.runLimits req.run) = .ok args) (t : Tenants) :
    (runSingleTest (w.among use j.cg t) tc lc j req).status =
      verdictAt w tc lc j req args (measuredUS j.cg w.exec.dirBefore
        (w.exec.run args tc.stdin).dirAfter use t) := by
  have hstart' : execStart (w.among use j.cg t).exec j (runCmdArgs req lc)
      (stageLimits lc.runLimits req.run) = .ok args := hstart
  have hout : testOutcome (w.among use j.cg t) tc lc j req =
      execFinish (w.among use j.cg t).exec j (outputCap req)
        ((w.among use j.cg t).exec.run args tc.stdin) :=
    execJail_of_start tc.stdin (outputCap req) hstart'
  rw [runSingleTest_status (w := w.among use j.cg t) hbefore hstart', hout]
  unfold verdictAt measuredUS execFinish TestWorld.among
  simp only [readLeaf_eq]

/-- A test whose exec did not start asks nobody. -/
theorem status_among_early (h : w.ctxBefore ≠ none ∨ ∃ o, execStart w.exec j
      (runCmdArgs req lc) (stageLimits lc.runLimits req.run) = .error o) (t t' : Tenants) :
    (runSingleTest (w.among use j.cg t) tc lc j req).status =
      (runSingleTest (w.among use j.cg t') tc lc j req).status := by
  by_cases hbefore : w.ctxBefore = none
  · obtain ⟨o, ho⟩ := h.resolve_left (not_not.mpr hbefore)
    have hout : ∀ t : Tenants, testOutcome (w.among use j.cg t) tc lc j req = o := by
      intro t
      have ho' : execStart (w.among use j.cg t).exec j (runCmdArgs req lc)
        (stageLimits lc.runLimits req.run) = .error o := ho
      rw [testOutcome, execJail, ho']
    have hctx : ∀ t : Tenants, ¬ (w.among use j.cg t).ctxBefore ≠ none := fun t =>
      not_not.mpr hbefore
    rw [runSingleTest, runSingleTest, if_neg (hctx t), if_neg (hctx t'), hout, hout]
    dsimp only
    split <;> rfl
  · have hctx : ∀ t : Tenants, (w.among use j.cg t).ctxBefore ≠ none := fun _ => hbefore
    rw [runSingleTest, runSingleTest, if_pos (hctx t), if_pos (hctx t')]
    rfl

/-! ## Who is independent -/

/-- The status is the same whatever the other tenants do. -/
def StatusIndependent (w : TestWorld) (use : ResourceUse) (tc : TestCase)
    (lc : LanguageConfig) (j : JailFields) (req : RunRequest) : Prop :=
  ∀ t t' : Tenants, t.Fits use → t'.Fits use →
    (runSingleTest (w.among use j.cg t) tc lc j req).status =
      (runSingleTest (w.among use j.cg t') tc lc j req).status

/-- And so is the reported peak. -/
def PeakIndependent (w : TestWorld) (use : ResourceUse) (tc : TestCase)
    (lc : LanguageConfig) (j : JailFields) (req : RunRequest) : Prop :=
  ∀ t t' : Tenants, t.Fits use → t'.Fits use →
    (runSingleTest (w.among use j.cg t) tc lc j req).memoryPeakKB =
      (runSingleTest (w.among use j.cg t') tc lc j req).memoryPeakKB

/-- Tenants that have no jails and used nothing before. -/
def Tenants.using (during : ResourceUse) : Tenants where
  filesBefore := fun _ => ⟨none, .error [], none⟩
  filesAfter := fun _ => ⟨none, .error [], none⟩
  filesPeak := fun _ => ⟨none, .error [], none⟩
  before := .none
  during := during

@[simp] theorem using_during (during : ResourceUse) :
    (Tenants.using during).during = during := rfl

theorem using_fits {during : ResourceUse} (h : during.cpuUS + use.cpuUS ≤ maxInt) :
    (Tenants.using during).Fits use := by
  unfold Tenants.Fits Tenants.using
  rw [add_cpuUS, add_cpuUS]
  show 0 + (during.cpuUS + use.cpuUS) ≤ maxInt
  omega

theorem statusIndependent_iff (huse : use.cpuUS ≤ maxInt) :
    StatusIndependent w use tc lc j req ↔
      ∀ args, w.ctxBefore = none → execStart w.exec j (runCmdArgs req lc)
          (stageLimits lc.runLimits req.run) = .ok args →
        AsksCpuTime w tc lc j req args →
          OwnCpu j.cg w.exec.dirBefore (w.exec.run args tc.stdin).dirAfter ∨
            cpuLimitUS (stageLimits lc.runLimits req.run).cpuLimit ≤ use.cpuUS := by
  constructor
  · intro hsame args hbefore hstart hasks
    by_contra hnone
    obtain ⟨hown, hlt⟩ := not_or.mp hnone
    -- somebody else uses up what is left of the limit
    have hmax : cpuLimitUS (stageLimits lc.runLimits req.run).cpuLimit ≤ maxInt :=
      (wrap_inRange ((stageLimits lc.runLimits req.run).cpuLimit * 1000000)).2
    have hmore : ResourceUse.cpuUS
        ⟨(cpuLimitUS (stageLimits lc.runLimits req.run).cpuLimit - use.cpuUS).toNat, 0, 0⟩ =
          cpuLimitUS (stageLimits lc.runLimits req.run).cpuLimit - use.cpuUS := by
      show (((cpuLimitUS (stageLimits lc.runLimits req.run).cpuLimit -
        use.cpuUS).toNat : ℤ) + ((0 : ℕ) : ℤ)) = _
      omega
    have hnothing : ResourceUse.none.cpuUS = 0 := rfl
    have hzero : (Tenants.using .none).Fits use := using_fits (by omega)
    have hfits : (Tenants.using ⟨(cpuLimitUS
        (stageLimits lc.runLimits req.run).cpuLimit - use.cpuUS).toNat, 0, 0⟩).Fits use :=
      using_fits (by omega)
    have hverdicts := hsame _ _ hzero hfits
    rw [status_among hbefore hstart, status_among hbefore hstart, verdictAt_of_asks hasks,
      verdictAt_of_asks hasks, measuredUS_all hown hzero, measuredUS_all hown hfits,
      using_during, using_during, hmore, hnothing, if_neg (by omega), if_pos (by omega)]
      at hverdicts
    cases hverdicts
  · intro h t t' hfits hfits'
    by_cases hbefore : w.ctxBefore = none
    · cases hstart : execStart w.exec j (runCmdArgs req lc)
          (stageLimits lc.runLimits req.run) with
      | error o => exact status_among_early (.inr ⟨o, hstart⟩) t t'
      | ok args =>
          rw [status_among hbefore hstart, status_among hbefore hstart]
          by_cases hasks : AsksCpuTime w tc lc j req args
          · by_cases hown : OwnCpu j.cg w.exec.dirBefore
                (w.exec.run args tc.stdin).dirAfter
            · rw [measuredUS_own hown use t t']
            · have hle := (h args hbefore hstart hasks).resolve_left hown
              have hduring := cpuUS_nonneg t.during
              have hduring' := cpuUS_nonneg t'.during
              rw [verdictAt_of_asks hasks, verdictAt_of_asks hasks,
                measuredUS_all hown hfits, measuredUS_all hown hfits',
                if_pos (by omega), if_pos (by omega)]
          · exact verdictAt_of_not_asks hasks _ _
    · exact status_among_early (.inl hbefore) t t'

theorem peak_among (hbefore : w.ctxBefore = none)
    (hinfra : (testOutcome w tc lc j req).infra = false) (t : Tenants) :
    (runSingleTest (w.among use j.cg t) tc lc j req).memoryPeakKB =
      if j.cg.isSome then Cgroupv2.PeakKB w.peakDir
      else (t.before.add (t.during.add use)).maxrssKB := by
  have hctx : ¬ (w.among use j.cg t).ctxBefore ≠ none := not_not.mpr hbefore
  have hsame : (testOutcome (w.among use j.cg t) tc lc j req).infra = false := by
    rw [← hinfra]
    unfold testOutcome execJail
    rw [show execStart (w.among use j.cg t).exec j (runCmdArgs req lc)
        (stageLimits lc.runLimits req.run) = execStart w.exec j (runCmdArgs req lc)
          (stageLimits lc.runLimits req.run) from rfl]
    split <;> rfl
  rw [runSingleTest, if_neg hctx]
  simp only [hsame, Bool.false_eq_true, if_false]
  by_cases hcg : j.cg.isSome = true
  · rw [if_pos hcg, if_pos hcg]
    show Cgroupv2.PeakKB (readLeaf j.cg t.filesPeak w.peakDir) = _
    rw [readLeaf_eq]
  · rw [if_neg hcg, if_neg hcg]
    show (if ((t.before.add (t.during.add use)).maxrssKB : ℤ) > 0 then _ else 0) = _
    split
    · rfl
    · omega

theorem peakIndependent_iff (huse : use.cpuUS ≤ maxInt) :
    PeakIndependent w use tc lc j req ↔
      w.ctxBefore = none → (testOutcome w tc lc j req).infra = false → j.cg ≠ none := by
  have hsome : j.cg.isSome = true ↔ j.cg ≠ none := Option.isSome_iff_ne_none
  constructor
  · intro hsame hbefore hinfra hnone
    have hfits : ∀ peak : ℕ, (Tenants.using ⟨0, 0, peak⟩).Fits use := fun peak =>
      using_fits (by show (0 : ℤ) + use.cpuUS ≤ maxInt; omega)
    have hpeak := hsame _ _ (hfits 0) (hfits (use.maxrssKB + 1))
    have hcg : ¬ j.cg.isSome = true := fun h => hsome.mp h hnone
    rw [peak_among hbefore hinfra, peak_among hbefore hinfra, if_neg hcg, if_neg hcg] at hpeak
    have hmax : max 0 (max 0 use.maxrssKB) = max 0 (max (use.maxrssKB + 1) use.maxrssKB) := by
      exact_mod_cast hpeak
    omega
  · intro h t t' _ _
    by_cases hbefore : w.ctxBefore = none
    · cases hinfra : (testOutcome w tc lc j req).infra with
      | false =>
          have hcg := hsome.mpr (h hbefore hinfra)
          rw [peak_among hbefore hinfra, peak_among hbefore hinfra, if_pos hcg, if_pos hcg]
      | true =>
          have hzero : ∀ t : Tenants,
              (runSingleTest (w.among use j.cg t) tc lc j req).memoryPeakKB = 0 := by
            intro t
            have hctx : ¬ (w.among use j.cg t).ctxBefore ≠ none := not_not.mpr hbefore
            have hsame : (testOutcome (w.among use j.cg t) tc lc j req).infra = true := by
              rw [← hinfra]
              unfold testOutcome execJail
              rw [show execStart (w.among use j.cg t).exec j (runCmdArgs req lc)
                  (stageLimits lc.runLimits req.run) = execStart w.exec j
                    (runCmdArgs req lc) (stageLimits lc.runLimits req.run) from rfl]
              split <;> rfl
            rw [runSingleTest, if_neg hctx]
            simp only [hsame, if_true]
            rfl
          rw [hzero, hzero]
    · have hctx : ∀ t : Tenants, (w.among use j.cg t).ctxBefore ≠ none := fun _ => hbefore
      rw [runSingleTest, runSingleTest, if_pos (hctx t), if_pos (hctx t')]
      rfl

/-- What a result owes to the other tenants. The status is independent of them unless
the exec is asked for its cpu time, that is not a difference of two readings of the
jail's own cgroup, and the program's own use is below the limit. The peak is
independent of them exactly when the jail has a cgroup, or nothing was run. -/
theorem tenant_independent_iff (huse : use.cpuUS ≤ maxInt) :
    (StatusIndependent w use tc lc j req ↔
      ∀ args, w.ctxBefore = none → execStart w.exec j (runCmdArgs req lc)
          (stageLimits lc.runLimits req.run) = .ok args →
        AsksCpuTime w tc lc j req args →
          OwnCpu j.cg w.exec.dirBefore (w.exec.run args tc.stdin).dirAfter ∨
            cpuLimitUS (stageLimits lc.runLimits req.run).cpuLimit ≤ use.cpuUS) ∧
      (PeakIndependent w use tc lc j req ↔
        w.ctxBefore = none → (testOutcome w tc lc j req).infra = false → j.cg ≠ none) :=
  ⟨statusIndependent_iff huse, peakIndependent_iff huse⟩

/-! ## A test that is killed after 0.2 s of cpu time, with a limit of one second -/

def killedEarly : TestWorld := burst 0 (some (str "exit status 137")) (.exited 137)

def smallUse : ResourceUse := ⟨200000, 0, 10240⟩

theorem tenant_independent_iff_cgroup :
    PeakIndependent killedEarly smallUse ⟨[], []⟩ (newLanguageConfig pyLang) cgroupJail
      oneSecond :=
  (tenant_independent_iff (by decide)).2.mpr fun _ _ => by decide

/-- Where there is no cgroup, another tenant that uses 0.9 s and 500 MB while it runs
makes it a kill at the cpu limit, with that tenant's peak. -/
theorem other_tenant_seen :
    ¬ ∀ (w : TestWorld) (use : ResourceUse) (tc : TestCase) (lc : LanguageConfig)
      (j : JailFields) (req : RunRequest), use.cpuUS ≤ maxInt →
      StatusIndependent w use tc lc j req ∧ PeakIndependent w use tc lc j req := by
  intro h
  have hstatus := (h killedEarly smallUse ⟨[], []⟩ (newLanguageConfig pyLang)
    { cgroupJail with cg := none } oneSecond (by decide)).1 (.using .none)
      (.using ⟨900000, 0, 512000⟩) (using_fits (by decide)) (using_fits (by decide))
  exact absurd hstatus (by decide)

end Goboxd.Runner
