import Goboxd.Runner.Exec

/-!
# Which authority enforces a cpu limit

Two mechanisms can enforce the cpu limit of an exec: the kernel's rlimit, told
to nsjail on its command line, and the poller, which kills at the limit in the
jail's cgroup. `nsjailArgs` picks the rlimit from the jail's `cpuActive`, and
the poller arms itself from the baseline that `cpuBaseline` could or could not
read. The two predicates are about the same jail but not about the same thing,
so the choice is exclusive only while the baseline read succeeds.
-/

namespace Goboxd.Runner

open Go Config

/-- Some reading of `cpu.stat` makes a tick of the poller kill. -/
def PollerCanKill (cg : Option Cgroupv2.Jail) (cpuLimit : Int)
    (before : Cgroupv2.Dir) : Prop :=
  ∃ j, cg = some j ∧ ∃ now,
    cpuExceeded j now (cpuLimitUS cpuLimit) (cpuBaseline cg before).1
      (cpuBaseline cg before).2 = true

/-- Exactly one authority is armed: a finite rlimit and a poller that never
kills, or no rlimit and a poller that can. -/
def OneAuthority (cg : Option Cgroupv2.Jail) (cpuLimit : Int)
    (before : Cgroupv2.Dir) (argv : List GoString) : Prop :=
  (optionValues (str "--rlimit_cpu") argv = [itoa cpuLimit] ∧
      ¬ PollerCanKill cg cpuLimit before) ∨
    (optionValues (str "--rlimit_cpu") argv = [str "inf"] ∧
      PollerCanKill cg cpuLimit before)

/-- The cpu controller is enabled for the jail's children: the manager has it,
and making the jail's directory and enabling all its controllers succeeded. -/
structure CpuDelegated (m : Cgroupv2.Manager) (fs : Cgroupv2.CgroupFs)
    (id : GoString) : Prop where
  manager : m.CPUActive = true
  mkdir : fs.mkdir (m.base ++ str "/" ++ id) = none
  enabled : fs.subtreeControl (m.base ++ str "/" ++ id) m.subtree = none

/-! ## The jail's controller -/

theorem newJailCg_cpuActive {m : Cgroupv2.Manager} {fs : Cgroupv2.CgroupFs}
    {id : GoString} {j : Cgroupv2.Jail} (h : newJailCg m fs id = some j) :
    j.CPUActive = true ↔ CpuDelegated m fs id := by
  unfold newJailCg at h
  split at h
  · split at h
    · next cg hnew =>
        cases h
        unfold Cgroupv2.Manager.NewJail at hnew
        simp only [] at hnew
        split at hnew
        · cases hnew
        · next hmk =>
            split at hnew
            · next hen =>
                cases hnew
                exact ⟨fun hc => ⟨hc, hmk, hen⟩, fun hd => hd.manager⟩
            · next err hen =>
                -- the fallback without `+cpu`
                have hno : ¬ CpuDelegated m fs id := by
                  intro hd
                  rw [hd.enabled] at hen
                  cases hen
                split at hnew
                · split at hnew
                  · cases hnew
                  · cases hnew
                    exact ⟨(fun hc => by cases hc), fun hd => absurd hd hno⟩
                · cases hnew
    · cases h
  · cases h

theorem exists_newJailCg {m : Cgroupv2.Manager} {fs : Cgroupv2.CgroupFs}
    {id : GoString} (h : CpuDelegated m fs id) :
    newJailCg m fs id = some ⟨m.base ++ str "/" ++ id, true⟩ := by
  have hactive : m.active = true := (Bool.and_eq_true _ _ ▸ h.manager).1
  rw [newJailCg, if_pos hactive, Cgroupv2.Manager.NewJail]
  simp only [h.mkdir, h.enabled, h.manager]

/-! ## When the poller can kill -/

theorem wrap_add_sub (b l : Int) (h : InRange l) : wrap (wrap (b + l) - b) = l := by
  obtain ⟨hlo, hhi⟩ := h
  unfold maxInt at hlo hhi
  unfold wrap
  rw [Int.bmod_def, Int.bmod_def]
  split <;> split <;> omega

def cpuStat (us : Int) : GoString := str "usage_usec" ++ 0x20 :: itoa us

theorem CPUUsageUS_cpuStat (j : Cgroupv2.Jail) {us : Int} (h : InRange us) :
    j.CPUUsageUS ⟨none, .ok (cpuStat us), none⟩ = .ok us := by
  have hline : 10 ∉ cpuStat us := by
    have hname : 10 ∉ str "usage_usec" := by decide
    simp [cpuStat, hname, newline_not_mem_itoa]
  have hfields : fields (cpuStat us) = [str "usage_usec", itoa us] :=
    fields_pair (by decide) (itoa_ne_nil us) (by decide) (itoa_solid us)
  simp only [Cgroupv2.Jail.CPUUsageUS, split_self hline, Cgroupv2.usageOfLines,
    hfields, if_true, atoi_itoa h]

theorem cpuBaseline_ok {cg : Option Cgroupv2.Jail} {d : Cgroupv2.Dir} :
    (cpuBaseline cg d).2 = true ↔
      ∃ j, cg = some j ∧ j.CPUActive = true ∧ ∃ us, j.CPUUsageUS d = .ok us := by
  unfold cpuBaseline
  cases cg with
  | none => simp
  | some j =>
      cases hr : j.CPUUsageUS d with
      | error err => cases hc : j.CPUActive <;> simp [hc, hr]
      | ok us => cases hc : j.CPUActive <;> simp [hc, hr]

theorem pollerCanKill_iff {cg : Option Cgroupv2.Jail} {cpuLimit : Int}
    {d : Cgroupv2.Dir} :
    PollerCanKill cg cpuLimit d ↔
      (cpuBaseline cg d).2 = true ∧ 0 < cpuLimitUS cpuLimit := by
  constructor
  · rintro ⟨j, -, now, hkill⟩
    unfold cpuExceeded at hkill
    split at hkill
    · cases hkill
    · next harmed =>
        rw [not_or, Bool.not_eq_false] at harmed
        exact ⟨harmed.2, Int.not_le.mp harmed.1⟩
  · rintro ⟨hok, hpos⟩
    obtain ⟨j, hj, -⟩ := cpuBaseline_ok.mp hok
    have hlimit : InRange (cpuLimitUS cpuLimit) := wrap_inRange _
    -- the reading at which the difference is exactly the limit
    have hread := CPUUsageUS_cpuStat j
      (wrap_inRange ((cpuBaseline cg d).1 + cpuLimitUS cpuLimit))
    refine ⟨j, hj, ⟨none, .ok (cpuStat
      (wrap ((cpuBaseline cg d).1 + cpuLimitUS cpuLimit))), none⟩, ?_⟩
    rw [cpuExceeded, if_neg (by simp [hok, hpos]), hread]
    simp only []
    rw [wrap_add_sub _ _ hlimit]
    simp

/-! ## The two together -/

theorem itoa_ne_inf (n : Int) : itoa n ≠ str "inf" := by
  intro h
  have hdigit : ∀ d < 10, (105 : UInt8) ≠ UInt8.ofNat (48 + d) := by decide
  have hmem : (105 : UInt8) ∈ itoa n := by
    rw [h]
    decide
  rcases mem_itoa hmem with heq | ⟨d, hd, heq⟩
  · exact absurd heq (by decide)
  · exact hdigit d hd heq

/-- When exactly one cpu authority is armed. In every exec with a positive cpu
limit that is started in a jail made by `newJail`, it is so unless the cpu
controller is enabled for the jail and the poller has no baseline, or a limit
that overflows. -/
theorem cpu_authority_iff {m : Cgroupv2.Manager} {fs : Cgroupv2.CgroupFs}
    {id : GoString} {w : ExecWorld} {j : JailFields} {cmdArgs argv : List GoString}
    {lim : ExecLimits} (hcg : j.cg = newJailCg m fs id)
    (hstart : execStart w j cmdArgs lim = .ok argv) (hpos : 0 < lim.cpuLimit) :
    OneAuthority j.cg lim.cpuLimit w.dirBefore argv ↔
      (CpuDelegated m fs id →
        (∃ cg us, j.cg = some cg ∧ cg.CPUUsageUS w.dirBefore = .ok us) ∧
          0 < cpuLimitUS lim.cpuLimit) := by
  obtain ⟨args, hargs, rfl⟩ := execStart_args hstart
  rw [OneAuthority, nsjailArgs_rlimit_cpu hargs, pollerCanKill_iff, cpuBaseline_ok]
  by_cases hd : CpuDelegated m fs id
  · have hr : rlimitCpu lim.cpuLimit (some ⟨m.base ++ str "/" ++ id, true⟩) =
        str "inf" := by
      simp [rlimitCpu, Cgroupv2.Jail.CPUActive]
    rw [hcg, exists_newJailCg hd, hr]
    constructor
    · rintro (⟨heq, -⟩ | ⟨-, ⟨cg, h, -, us, hus⟩, hl⟩) -
      · exact absurd (List.cons.inj heq).1 (Ne.symm (itoa_ne_inf _))
      · exact ⟨⟨cg, us, h, hus⟩, hl⟩
    · intro h
      obtain ⟨⟨cg, us, hj, hus⟩, hl⟩ := h hd
      cases hj
      exact .inr ⟨rfl, ⟨_, rfl, rfl, us, hus⟩, hl⟩
  · have hinactive : ∀ cg, j.cg = some cg → cg.CPUActive ≠ true := by
      intro cg h hc
      exact hd ((newJailCg_cpuActive (hcg ▸ h)).mp hc)
    have hall : (j.cg.all fun cg => !cg.CPUActive) = true := by
      cases hj : j.cg with
      | none => rfl
      | some cg => simpa using hinactive cg hj
    have hr : rlimitCpu lim.cpuLimit j.cg = itoa lim.cpuLimit := by
      rw [rlimitCpu, if_pos ⟨hpos, hall⟩]
    refine ⟨fun _ h => absurd h hd, fun _ => .inl ⟨by rw [hr], ?_⟩⟩
    rintro ⟨⟨cg, h, hc, -⟩, -⟩
    exact hinactive cg h hc

/-! ## A jail with the controller, and a read that fails -/

def cpuManager : Cgroupv2.Manager := ⟨str "/sys/fs/cgroup/goboxd", true, true⟩

def writableCgroup : Cgroupv2.CgroupFs := ⟨fun _ => none, fun _ _ => none⟩

def cgroupJail : JailFields where
  dir := str "/tmp/goboxd-jail-7"
  uid := 10000
  cg := newJailCg cpuManager writableCgroup (str "goboxd-jail-7")
  seccomp := []

def elevenSeconds : ExecLimits := ⟨9, 11, 1048576, 100⟩

def startedWith (before : Except GoString GoString) : ExecWorld where
  host :=
    { getenv := fun _ => []
      policyPath := .ok (str "/tmp/goboxd-seccomp-1.policy")
      combinedWith := fun _ => .ok []
      maskedHostsPath := .ok (str "/tmp/goboxd-hosts-1.masked")
      maskedResolvPath := .ok (str "/tmp/goboxd-resolv-1.masked")
      maskedNsswitchPath := .ok (str "/tmp/goboxd-nsswitch-1.masked")
      isDir := fun _ => false
      ccache := false }
  mkdirApp := none
  stdoutPipe := none
  stderrPipe := none
  dirBefore := ⟨some [], before, none⟩
  rusageBefore := ⟨⟨0, 0⟩, ⟨0, 0⟩, 0⟩
  start := fun _ => none
  run := fun _ _ =>
    { stdout := []
      stderr := []
      isOOMKill := false
      isCPUKill := false
      wait := none
      ps := some (.exited 0)
      dirAfter := ⟨some [], before, none⟩
      rusageAfter := ⟨⟨0, 0⟩, ⟨0, 0⟩, 0⟩ }

theorem cgroupJail_cg : cgroupJail.cg =
    newJailCg cpuManager writableCgroup (str "goboxd-jail-7") := rfl

theorem cpu_authority_poller :
    ∃ argv, execStart (startedWith (.ok (cpuStat 1500))) cgroupJail [str "./solution"]
        elevenSeconds = .ok argv ∧
      OneAuthority cgroupJail.cg elevenSeconds.cpuLimit
        (startedWith (.ok (cpuStat 1500))).dirBefore argv := by
  have hiff := fun argv (h : execStart (startedWith (.ok (cpuStat 1500)))
      cgroupJail [str "./solution"] elevenSeconds = .ok argv) =>
    cpu_authority_iff cgroupJail_cg h (by decide)
  exact ⟨_, rfl, (hiff _ rfl).mpr fun _ => ⟨⟨_, 1500, rfl, rfl⟩, by decide⟩⟩

theorem cpu_unlimited_without_baseline :
    ∃ argv, execStart (startedWith (.error (str "input/output error"))) cgroupJail
        [str "./solution"] elevenSeconds = .ok argv ∧
      ¬ OneAuthority cgroupJail.cg elevenSeconds.cpuLimit
        (startedWith (.error (str "input/output error"))).dirBefore argv := by
  refine ⟨_, rfl, ?_⟩
  rintro (⟨heq, -⟩ | ⟨-, hkill⟩)
  · exact absurd heq (by decide)
  · exact absurd (pollerCanKill_iff.mp hkill).1 (by decide)

end Goboxd.Runner
