import Goboxd.Proofs.ProbeVerdict

/-!
# The probe and its hog, step by step

The verdict is not only sound but exact: on a host where nothing fails without a reason the
probe trusts the hierarchy whenever it could be trusted, and the order of its steps is why.
The hog is moved into the leaf while it waits for a byte, and there it can do nothing else
(`Quiet`); once it has the byte it can only go on, and whatever it allocates is charged to
the group it is in by then (`Running`). So when the wait is over the leaf's counters hold the
whole of the hog, however its steps fell between the probe's closing of the pipe and the
wait. All other calls are made with no hog about, and what they come to is computed.

The removal of the probe's directories and the sweep are the runs of `CgroupRemoval`, seen
through the hierarchy alone (`quiet_simulates`).
-/

namespace Goboxd.Cgroupv2

open Go Cgroup Calls Hierarchy

/-! ## A hierarchy that can be trusted is -/

section Complete

variable {K : Kernel} {s t : Probed} {α β : Type}

/-- Nothing happens until the probe does something. -/
def Quiet (s : Probed) : Prop :=
  s.hog.alive = false ∨ s.hog.pc = .reading ∧ s.hog.input = false ∧ s.hog.eof = false

theorem quiet_others (hs : Quiet s) : ¬ (probing K false).others s t := by
  rintro (h | ⟨hf, -⟩)
  · rcases hs with hdead | ⟨hpc, hin, heof⟩
    · cases h with
      | read hpc | eof hpc | allocate hpc | spin hpc => simp [Hog.alive, hpc] at hdead
    · cases h with
      | read _ hin' => rw [hin] at hin'; cases hin'
      | eof _ _ heof' => rw [heof] at heof'; cases heof'
      | allocate hpc' | spin hpc' => rw [hpc] at hpc'; cases hpc'
  · cases hf

theorem quiet_between (hs : Quiet s) (h : (probing K false).Between s t) : t = s := by
  rcases Relation.ReflTransGen.cases_head h with rfl | ⟨u, hu, -⟩
  · rfl
  · exact absurd hu (quiet_others hs)

theorem call_quiet {c : Call} {next : Answer c → Prog α} {Q : α → Probed → Prop}
    (hs : Quiet s) (h : ∀ x t, K.act c s x t → (next x).Meets (probing K false) Q t) :
    (call c next : Prog α).Meets (probing K false) Q s := by
  intro t ht x u hu
  obtain rfl := quiet_between hs ht
  rcases hu with hu | ⟨hf, -⟩
  · exact h x u hu
  · cases hf

theorem does_ok {s' : Probed} {x : Except Errno Unit} {r : Except Errno Probed}
    (h : Does s r x t) (hr : r = .ok s') : x = .ok () ∧ t = s' := by
  subst hr
  exact h

theorem ask_quiet {c : Call} {a : Answer c} {v : Probed} (hs : Quiet s) (hv : Quiet v)
    (hact : ∀ x t, K.act c s x t → x = a ∧ t = v) :
    (ask c : Prog (Answer c)).Meets (probing K false) (fun x t => x = a ∧ t = v) s := by
  refine call_quiet hs fun x t hx u hu => ?_
  obtain ⟨rfl, rfl⟩ := hact x t hx
  exact ⟨rfl, quiet_between hv hu⟩

/-- The probe's next step, where it is known what the call comes to. -/
theorem orFail_quiet {a : α} {s' : Probed} {Q : Except ProbeErr β → Probed → Prop}
    {err : Errno → ProbeErr} {next : α → Prog (Except ProbeErr β)}
    {p : Prog (Except Errno α)}
    (hp : p.Meets (probing K false) (fun x t => x = .ok a ∧ t = s') s)
    (hnext : (next a).Meets (probing K false) Q s') :
    (orFail p err next).Meets (probing K false) Q s := by
  refine Meets.bind (hp.mono ?_)
  rintro x t ⟨rfl, rfl⟩
  exact hnext

/-- With no hog, removing directories is what it is with nobody else about. -/
theorem quiet_simulates {prog : Prog α} {P : Call → Prop} {Q : α → Host → Prop}
    (honly : prog.Only P) (hP : ∀ c, P c → c.About fun _ => True) (hdead : s.hog.alive = false)
    (h : prog.Meets (settling (fun _ _ => False) fun _ _ => True) Q ⟨s.tree, 0⟩) :
    prog.Meets (probing K false)
      (fun a t => Q a ⟨t.tree, 0⟩ ∧ t.hog = s.hog ∧ t.peak = s.peak ∧ t.usage = s.usage) s := by
  refine honly.simulates (V := settling (fun _ _ => False) fun _ _ => True)
    (I := fun t : Probed => t.hog = s.hog ∧ t.peak = s.peak ∧ t.usage = s.usage)
    (fun t : Probed => (⟨t.tree, 0⟩ : Host)) ?_ ?_ h ⟨rfl, rfl, rfl⟩
  · intro u v hu huv
    exact absurd huv (quiet_others (.inl (hu.1 ▸ hdead)))
  · intro c u x v hc hu hact
    rcases hact with hact | ⟨hf, -⟩
    · have habout := hP c hc
      cases c <;> first | exact absurd habout id | skip
      case readDir p =>
        obtain ⟨hlist, rfl⟩ := hact
        exact ⟨hu, rfl, hlist⟩
      case remove p =>
        obtain ⟨hr, hhog, hpeak, husage⟩ := hact
        exact ⟨⟨hhog.trans hu.1, hpeak.trans hu.2.1, husage.trans hu.2.2⟩, hr, rfl⟩
    · cases hf

/-- What is left of `T` below `p` when everything that can be is removed. -/
def Cleared (T : Hierarchy GoString) (p : Path) (T' : Hierarchy GoString) : Prop :=
  T.Pruned (p <+: ·) T' ∧ ∀ q ∈ T'.groups, p <+: q → T.Populated q

theorem removeJailDir_quiet {p : Path} {fuel : ℕ} (hne : p ≠ [])
    (hfuel : s.tree.depth < fuel) (hdead : s.hog.alive = false) :
    (removeJailDir fuel p).Meets (probing K false)
      (fun _ t => Cleared s.tree p t.tree ∧
        t.hog = s.hog ∧ t.peak = s.peak ∧ t.usage = s.usage) s := by
  have hmeets : (removeJailDir fuel p).Meets (settling (fun _ _ => False) fun _ _ => True)
      (fun r t => Left s.tree p r t.tree ∧ t.slept = 0) ⟨s.tree, 0⟩ := by
    refine removeJailDir_meets (s := ⟨s.tree, 0⟩) (fun _ _ hf => False.elim hf) hne
      (Nat.zero_lt_of_lt hfuel) fun q hq => ?_
    have hle : q.length ≤ s.tree.depth := length_le_depth hq
    omega
  have hpruned := pruned_of_only (removeJailDir_only fuel p)
    (fun c u x v hc hact => pruned_of_about hc hact) hmeets
  refine (quiet_simulates (removeJailDir_only fuel p) (fun c hc => hc.mono fun _ _ => trivial)
    hdead hpruned).mono ?_
  rintro r t ⟨⟨⟨hl, -⟩, hp⟩, hrest⟩
  exact ⟨⟨hp, hl.populated⟩, hrest⟩

theorem Cleared.trans {T T' T'' : Hierarchy GoString} {p q : Path} (hpq : p <+: q)
    (h : Cleared T q T') (h' : Cleared T' p T'') : Cleared T p T'' := by
  have hwide : T.Pruned (p <+: ·) T' :=
    ⟨h.1.groups, h.1.procs, fun r hr hk => h.1.kept r hr (hk.imp_left fun hn hqr =>
      hn (hpq.trans hqr))⟩
  exact ⟨hwide.trans h'.1, fun r hr hpr => hwide.populated.mp (h'.2 r hr hpr)⟩

theorem removeProbe_quiet {fuel : ℕ} (hfuel : s.tree.depth < fuel)
    (hdead : s.hog.alive = false) :
    (removeProbe fuel probeDir).Meets (probing K false)
      (fun _ t => Cleared s.tree probeDir t.tree ∧
        t.hog = s.hog ∧ t.peak = s.peak ∧ t.usage = s.usage) s := by
  have hleaf : probeDir ++ [str "leaf"] ≠ [] := by simp
  refine Meets.bind ((removeJailDir_quiet hleaf hfuel hdead).mono ?_)
  rintro _ t ⟨ht, hhog, hpeak, husage⟩
  have hdepth : t.tree.depth < fuel := by
    refine Nat.lt_of_le_of_lt ?_ hfuel
    exact depth_le_of_subset ht.1.groups
  refine Meets.bind ((removeJailDir_quiet (by decide) hdepth (hhog ▸ hdead)).mono ?_)
  rintro _ u ⟨hu, hhog', hpeak', husage'⟩ v hv
  have hquiet : Quiet u := .inl (by rw [hhog', hhog]; exact hdead)
  obtain rfl := quiet_between hquiet hv
  exact ⟨ht.trans (List.prefix_append _ _) hu, hhog'.trans hhog, hpeak'.trans hpeak,
    husage'.trans husage⟩

theorem sweep_quiet {base : Path} {fuel : ℕ} (hfuel : s.tree.depth < fuel)
    (hdead : s.hog.alive = false) :
    (Sweep fuel base).Meets (probing K false)
      (fun _ t => (t.tree.procs = s.tree.procs ∧ ∀ q, q ∈ t.tree.groups ↔
        q ∈ s.tree.groups ∧ (¬ Below base q ∨ s.tree.Populated q)) ∧ t.hog = s.hog) s := by
  obtain ⟨k, rfl⟩ := Nat.exists_eq_add_of_lt hfuel
  have hmeets := sweep_alone s.tree base 0 (k + 1) fun _ _ => True
  refine (quiet_simulates (sweep_only _ base) (fun c hc => ?_) hdead hmeets).mono
    fun _ t ht => ⟨ht.1, ht.2.1⟩
  rcases hc with rfl | hc
  · trivial
  · exact hc.mono fun _ _ => trivial

/-! ### The hog's run -/

/-- The hog was let go in the leaf of `T`, and has not been stopped. -/
structure Running (K : Kernel) (T : Hierarchy GoString) (hp : probeLeaf ∈ T.groups)
    (s : Probed) : Prop where
  inLeaf : s.hog.inLeaf = true
  input : s.hog.input = true
  stage : (s.hog.pc = .reading ∨ s.hog.pc = .allocating) ∧ s.tree = T.enter probeLeaf hp ∧
        s.usage = 0 ∨
      s.hog.pc = .spinning ∧ s.tree = T.enter probeLeaf hp ∧ s.usage = 0 ∧
        s.peak = hogBytes + K.extra ∨
      s.hog.pc = .exited ∧ s.tree = T ∧ s.peak = hogBytes + K.extra ∧
        s.usage = if K.cpuCharges then K.spun else 0

theorem running_step {T : Hierarchy GoString} {hp : probeLeaf ∈ T.groups}
    (hcharges : K.charges = true) (hs : Running K T hp s) (h : (probing K false).others s t) :
    Running K T hp t := by
  obtain ⟨hleaf, hin, hstage⟩ := hs
  rcases h with h | ⟨hf, -⟩
  · cases h with
    | read hpc =>
        refine ⟨hleaf, hin, .inl ⟨.inr rfl, ?_⟩⟩
        rcases hstage with ⟨-, h⟩ | ⟨hpc', -⟩ | ⟨hpc', -⟩
        · exact h
        · rw [hpc] at hpc'; cases hpc'
        · rw [hpc] at hpc'; cases hpc'
    | eof _ hno => rw [hin] at hno; cases hno
    | allocate hpc =>
        refine ⟨hleaf, hin, .inr (.inl ⟨rfl, ?_⟩)⟩
        rcases hstage with ⟨-, htree, husage⟩ | ⟨hpc', -⟩ | ⟨hpc', -⟩
        · exact ⟨htree, husage, by simp [hleaf, hcharges]⟩
        · rw [hpc] at hpc'; cases hpc'
        · rw [hpc] at hpc'; cases hpc'
    | spin hpc =>
        refine ⟨hleaf, hin, .inr (.inr ⟨rfl, ?_⟩)⟩
        rcases hstage with ⟨hpc', -⟩ | ⟨-, htree, husage, hpeak⟩ | ⟨hpc', -⟩
        · rw [hpc] at hpc'
          rcases hpc' with hpc' | hpc' <;> cases hpc'
        · refine ⟨?_, hpeak, ?_⟩
          · show (if s.hog.inLeaf then s.tree.leave probeLeaf else s.tree) = T
            rw [hleaf, if_pos rfl, htree, leave_enter]
          · show (if s.hog.inLeaf && K.cpuCharges then K.spun else s.usage) = _
            rw [hleaf, husage, Bool.true_and]
        · rw [hpc] at hpc'; cases hpc'
  · cases hf

theorem running_between {T : Hierarchy GoString} {hp : probeLeaf ∈ T.groups}
    (hcharges : K.charges = true) (hs : Running K T hp s)
    (h : (probing K false).Between s t) : Running K T hp t :=
  h.keeps (I := Running K T hp) (fun _ _ huv hu => running_step hcharges hu huv) hs

/-- What the cpu check comes to when nothing fails. -/
def Kernel.cpuSeen (K : Kernel) : Bool := K.cpuCharges && decide (1000000 ≤ K.spun)

theorem read_peak (hleaf : probeLeaf ∈ s.tree.groups) :
    s.read (probeLeaf ++ [str "memory.peak"]) = .ok (itoa s.peak ++ [10]) := by
  unfold Probed.read
  rw [if_neg (not_not.mpr hleaf), if_pos rfl]

theorem read_usage (hleaf : probeLeaf ∈ s.tree.groups) :
    s.read (probeLeaf ++ [str "cpu.stat"]) = .ok (counterFile [(str "usage_usec", s.usage)]) := by
  unfold Probed.read
  rw [if_neg (not_not.mpr hleaf), if_neg (by decide), if_pos rfl]

theorem verifyCPU_complete {cpuActive : Bool} (hdead : s.hog.alive = false)
    (hleaf : probeLeaf ∈ s.tree.groups) (husage : s.usage = if K.cpuCharges then K.spun else 0) :
    (verifyCPU cpuActive probeLeaf).Meets (probing K false)
      (fun c t => c = (cpuActive && K.cpuSeen) ∧ t = s) s := by
  have hdone : ∀ c : Bool, c = (cpuActive && K.cpuSeen) → (done c : Prog Bool).Meets
      (probing K false) (fun c t => c = (cpuActive && K.cpuSeen) ∧ t = s) s :=
    fun c hc t ht => ⟨hc, quiet_between (.inl hdead) ht⟩
  cases cpuActive with
  | false => exact hdone _ rfl
  | true =>
      refine Meets.bind (p := readFile (probeLeaf ++ [str "cpu.stat"])) ((ask_quiet
        (c := .readFile (probeLeaf ++ [str "cpu.stat"]))
        (a := .ok (counterFile [(str "usage_usec", s.usage)])) (v := s) (.inl hdead)
        (.inl hdead) ?_).mono ?_)
      · rintro x t ⟨rfl, rfl⟩
        exact ⟨read_usage hleaf, rfl⟩
      · rintro _ t ⟨rfl, rfl⟩
        have hbound : t.usage < 2 ^ 63 := by
          rw [husage]
          split
          · exact K.counted.2
          · decide
        simp only []
        rw [usageOfLines_counter hbound]
        refine hdone _ ?_
        have hless : decide (K.spun < 1000000) = !decide (1000000 ≤ K.spun) := by
          rw [← decide_not]
          simp only [not_le]
        rw [husage, Kernel.cpuSeen]
        cases K.cpuCharges <;> simp [probeMinCPUUsageUS, hless]

/-- After the hog's run, the peak is what the probe asks for. -/
theorem verifyPeak_complete {cpuActive : Bool} (hdead : s.hog.alive = false)
    (hleaf : probeLeaf ∈ s.tree.groups) (hpeak : s.peak = hogBytes + K.extra)
    (husage : s.usage = if K.cpuCharges then K.spun else 0) :
    (verifyPeak cpuActive probeLeaf).Meets (probing K false)
      (fun r t => r = .ok (cpuActive && K.cpuSeen) ∧ t = s) s := by
  refine orFail_quiet (ask_quiet (c := .readFile (probeLeaf ++ [str "memory.peak"]))
    (a := .ok (itoa s.peak ++ [10])) (v := s) (.inl hdead) (.inl hdead) ?_) ?_
  · rintro x t ⟨rfl, rfl⟩
    exact ⟨read_peak hleaf, rfl⟩
  · have hbound : s.peak < 2 ^ 63 := hpeak ▸ K.counted.1
    rw [atoi_counter hbound]
    simp only []
    have hmin : probeMinPeak ≤ (s.peak : Int) := by
      rw [hpeak]
      unfold probeMinPeak hogBytes
      omega
    generalize probeMinPeak = least at hmin
    refine meets_ite (fun hlow => absurd hlow (not_lt.mpr hmin)) fun _ => ?_
    refine Meets.bind ((verifyCPU_complete hdead hleaf husage).mono ?_)
    rintro _ t ⟨rfl, rfl⟩ u hu
    exact ⟨rfl, quiet_between (.inl hdead) hu⟩

/-- From its start to its end, and whenever it takes its steps in between, the hog is
charged to the leaf. -/
theorem runHog_complete {cpuActive : Bool} {T : Hierarchy GoString}
    (hcharges : K.charges = true) (hp : probeLeaf ∈ T.groups) (htree : s.tree = T)
    (husage : s.usage = 0) (hdead : s.hog.alive = false) :
    (runHog cpuActive probeLeaf).Meets (probing K false)
      (fun r t => r = .ok (cpuActive && K.cpuSeen) ∧ t.tree = T ∧ t.hog.alive = false) s := by
  refine orFail_quiet (ask_quiet (c := .stdinPipe) (a := .ok ()) (v := s) (.inl hdead)
    (.inl hdead) fun x t hx => hx) ?_
  refine orFail_quiet (ask_quiet (c := .start) (a := .ok K.pid)
    (v := { s with hog := ⟨.reading, false, false, false⟩ }) (.inl hdead)
    (.inr ⟨rfl, rfl, rfl⟩) fun x t hx => hx) ?_
  -- the hog is in `Read`; it is moved into the leaf
  refine call_quiet (.inr ⟨rfl, rfl, rfl⟩) fun x t hx => ?_
  have htakes : Probed.takes K { s with hog := ⟨.reading, false, false, false⟩ }
      (probeLeaf ++ [str "cgroup.procs"]) (itoa K.pid) = true := by
    rw [takes_concat, Bool.and_eq_true]
    refine ⟨decide_eq_true (htree ▸ hp), ?_⟩
    have h₁ : str "cgroup.procs" ≠ str "cgroup.subtree_control" := by decide
    have h₂ : str "cgroup.procs" ≠ str "memory.max" := by decide
    have h₃ : str "cgroup.procs" ≠ str "memory.swap.max" := by decide
    simp [Probed.takesAs, h₁, h₂, h₃, Hog.alive]
  obtain ⟨rfl, rfl⟩ := does_ok hx (if_pos htakes)
  have hwrite : Probed.write { s with hog := ⟨.reading, false, false, false⟩ }
      (probeLeaf ++ [str "cgroup.procs"]) =
        { s with
          hog := ⟨.reading, true, false, false⟩
          tree := T.enter probeLeaf hp } := by
    subst htree
    unfold Probed.write
    rw [if_pos rfl]
    simp only []
    rw [dif_pos hp]
  rw [hwrite]
  -- it is let go, and runs from here on
  refine call_quiet (.inr ⟨rfl, rfl, rfl⟩) fun x t hx => ?_
  obtain ⟨rfl, rfl⟩ : x = .ok () ∧ t =
    { s with hog := ⟨.reading, true, true, false⟩, tree := T.enter probeLeaf hp } := hx
  have hrun : Running K T hp
      { s with hog := ⟨.reading, true, true, false⟩, tree := T.enter probeLeaf hp } :=
    ⟨rfl, rfl, .inl ⟨.inl rfl, rfl, husage⟩⟩
  intro u hu x v hv
  have hu := running_between hcharges hrun hu
  have hv : Running K T hp v := by
    rcases hv with ⟨-, rfl⟩ | ⟨hf, -⟩
    · exact ⟨hu.inLeaf, hu.input, hu.stage⟩
    · cases hf
  intro w hw y z hz
  have hw := running_between hcharges hv hw
  rcases hz with ⟨hz, rfl⟩ | ⟨hf, -⟩
  · rcases hw.stage with ⟨hpc, -⟩ | ⟨hpc, -⟩ | ⟨hpc, htree', hpeak', husage'⟩
    · rcases hz with ⟨hz, -⟩ | ⟨hz, -⟩ <;> rw [hz] at hpc <;> rcases hpc with hpc | hpc <;>
        cases hpc
    · rcases hz with ⟨hz, -⟩ | ⟨hz, -⟩ <;> rw [hz] at hpc <;> cases hpc
    · have hover : z.hog.alive = false := by simp [Hog.alive, hpc]
      rcases hz with ⟨-, rfl⟩ | ⟨hz, -⟩
      · refine (verifyPeak_complete hover (htree' ▸ hp) hpeak' husage').mono ?_
        rintro r t ⟨hr, rfl⟩
        exact ⟨hr, htree', hover⟩
      · rw [hz] at hpc
        cases hpc
  · cases hf

/-- A directory that is not there, in one that is. -/
theorem mkdir_quiet {path : Path} (hdead : s.hog.alive = false) (hp : path ∉ s.tree.groups)
    (hup : path.dropLast ∈ s.tree.groups) :
    (mkdir path).Meets (probing K false) (fun x t => x = .ok () ∧
      t = { s with
        tree := s.tree.add path hup
        peak := if path = probeLeaf then 0 else s.peak
        usage := if path = probeLeaf then 0 else s.usage }) s := by
  refine ask_quiet (.inl hdead) (.inl hdead) fun x t hx => ?_
  have hmake : s.make path = .ok
      { s with
        tree := s.tree.add path hup
        peak := if path = probeLeaf then 0 else s.peak
        usage := if path = probeLeaf then 0 else s.usage } := by
    rw [Probed.make, mkdir_eq_ok hp hup]
  exact does_ok hx hmake

/-- A write that a file takes and that moves nothing. -/
theorem write_quiet {dir : Path} {file text : GoString} (hdead : s.hog.alive = false)
    (hdir : dir ∈ s.tree.groups) (hfile : s.takesAs K dir file text = true)
    (hne : file ≠ str "cgroup.procs") :
    (writeFile (dir ++ [file]) text).Meets (probing K false)
      (fun x t => x = .ok () ∧ t = s) s := by
  refine ask_quiet (.inl hdead) (.inl hdead) fun x t hx => ?_
  have htakes : s.takes K (dir ++ [file]) text = true := by
    rw [takes_concat, hfile, Bool.and_true]
    exact decide_eq_true hdir
  have hwrite : s.write (dir ++ [file]) = s := by
    refine if_neg fun heq => hne ?_
    exact List.singleton_injective (List.append_inj_right' heq rfl)
  refine does_ok hx ?_
  rw [if_pos htakes, hwrite]

theorem enables_subtree {cpuActive : Bool} (hdel : K.delegated = true)
    (hcpu : cpuActive = true → K.cpuDelegated = true) :
    K.enables (str "+memory +pids" ++ if cpuActive then str " +cpu" else []) = true := by
  cases cpuActive with
  | false => simp [Kernel.enables, hdel]
  | true =>
      have htext : str "+memory +pids" ++ str " +cpu" = str "+memory +pids +cpu" := by decide
      simp [Kernel.enables, hdel, hcpu rfl, htext]

/-- In a directory of its own, the check finds what the kernel does. -/
theorem enforcementCheck_complete {cpuActive : Bool} (hdel : K.delegated = true)
    (hcpu : cpuActive = true → K.cpuDelegated = true) (hswap : K.swap = true)
    (hcharges : K.charges = true) (hdead : s.hog.alive = false)
    (hdir : probeDir ∈ s.tree.groups) (hleaf : probeLeaf ∉ s.tree.groups) :
    (enforcementCheck cpuActive probeDir).Meets (probing K false)
      (fun r t => r = .ok (cpuActive && K.cpuSeen) ∧ t.tree = s.tree.add probeLeaf hdir ∧
        t.hog.alive = false) s := by
  have hmem : probeLeaf ∈ (s.tree.add probeLeaf hdir).groups := List.mem_cons_self
  refine orFail_quiet (write_quiet hdead hdir
    ((if_pos rfl).trans (enables_subtree hdel hcpu)) (by decide)) ?_
  refine orFail_quiet (mkdir_quiet hdead hleaf hdir) ?_
  refine orFail_quiet (write_quiet (s := { s with tree := _, peak := _, usage := _ }) hdead hmem
    rfl (by decide)) ?_
  refine orFail_quiet (write_quiet (s := { s with tree := _, peak := _, usage := _ }) hdead hmem
    hswap (by decide)) ?_
  exact runHog_complete hcharges hmem rfl rfl hdead

theorem probeDir_gone {T T' : Hierarchy GoString} (h : Cleared T probeDir T')
    (hpop : ¬ T.Populated probeDir) : probeDir ∉ T'.groups :=
  fun hmem => hpop (h.2 _ hmem List.prefix_rfl)

/-- The probe's directories come and go, and nothing else changes. -/
theorem verifyEnforcement_complete {cpuActive : Bool} {fuel : ℕ} (hdel : K.delegated = true)
    (hcpu : cpuActive = true → K.cpuDelegated = true) (hswap : K.swap = true)
    (hcharges : K.charges = true) (hdead : s.hog.alive = false)
    (hbase : [baseName] ∈ s.tree.groups) (hpop : ¬ s.tree.Populated probeDir)
    (hfuel : s.tree.depth < fuel) (hthree : 3 < fuel) :
    (verifyEnforcement fuel [baseName] cpuActive).Meets (probing K false)
      (fun r t => r = .ok (cpuActive && K.cpuSeen) ∧ t.tree.procs = s.tree.procs ∧
        (∀ q, q ∈ t.tree.groups ↔ q ∈ s.tree.groups ∧ ¬ probeDir <+: q) ∧
        t.hog.alive = false) s := by
  refine Meets.bind (p := removeProbe fuel probeDir) ((removeProbe_quiet hfuel hdead).mono ?_)
  rintro _ t ⟨hclear, hhog, -, -⟩
  have hdead : t.hog.alive = false := hhog ▸ hdead
  have hgone := probeDir_gone hclear hpop
  have hup : probeDir.dropLast ∈ t.tree.groups :=
    hclear.1.kept _ hbase (.inl (by decide))
  refine orFail_quiet (mkdir_quiet hdead hgone hup) ?_
  have hnoleaf : probeLeaf ∉ (t.tree.add probeDir hup).groups := by
    intro hmem
    rcases List.mem_cons.mp hmem with heq | hmem
    · exact absurd heq (by decide)
    · exact hgone (t.tree.closed _ _ hmem)
  refine Meets.bind ((enforcementCheck_complete
    (s := { t with tree := t.tree.add probeDir hup, peak := _, usage := _ }) hdel hcpu hswap
    hcharges hdead List.mem_cons_self hnoleaf).mono ?_)
  rintro r u ⟨rfl, hu, hdead⟩
  have hdepth : u.tree.depth < fuel := by
    have hmax : u.tree.depth = max 3 (max 2 t.tree.depth) := by
      rw [hu]
      rfl
    have hle := depth_le_of_subset hclear.1.groups
    omega
  refine Meets.bind ((removeProbe_quiet hdepth hdead).mono ?_)
  rintro _ v ⟨hclear', hhog', -, -⟩ w hw
  have hdead' : v.hog.alive = false := hhog' ▸ hdead
  obtain rfl := quiet_between (.inl hdead') hw
  have hprocs : u.tree.procs = s.tree.procs := by
    rw [hu]
    exact hclear.1.procs
  refine ⟨rfl, hclear'.1.procs.trans hprocs, fun q => ⟨fun hq => ?_, fun hq => ?_⟩, hdead'⟩
  · have hout : ¬ probeDir <+: q := by
      intro hpq
      exact hpop ((populated_congr hprocs).mp ((hclear'.2 q hq hpq).above hpq))
    have hq := hclear'.1.groups hq
    rw [hu] at hq
    rcases List.mem_cons.mp hq with rfl | hq
    · exact absurd (List.prefix_append _ _) hout
    · rcases List.mem_cons.mp hq with rfl | hq
      · exact absurd List.prefix_rfl hout
      · exact ⟨hclear.1.groups hq, hout⟩
  · refine hclear'.1.kept q ?_ (.inl hq.2)
    rw [hu]
    exact List.mem_cons_of_mem _ (List.mem_cons_of_mem _ (hclear.1.kept q hq.1 (.inl hq.2)))

/-- A probe directory that something runs in is not taken for the probe's own. -/
theorem verifyEnforcement_refuses {cpuActive : Bool} {fuel : ℕ} (hdead : s.hog.alive = false)
    (hpop : s.tree.Populated probeDir) (hfuel : s.tree.depth < fuel) :
    (verifyEnforcement fuel [baseName] cpuActive).Meets (probing K false)
      (fun r _ => r = .error (.probeDir .EEXIST)) s := by
  refine Meets.bind (p := removeProbe fuel probeDir) ((removeProbe_quiet hfuel hdead).mono ?_)
  rintro _ t ⟨hclear, hhog, -, -⟩
  have hmem : probeDir ∈ t.tree.groups := hclear.1.kept _ hpop.mem (.inr hpop)
  refine Meets.bind (p := mkdir probeDir) ?_
  refine call_quiet (.inl (hhog ▸ hdead)) fun x u hx => ?_
  have hmake : t.make probeDir = .error .EEXIST := by
    rw [Probed.make, Hierarchy.mkdir, if_pos hmem]
  have hx : Does t (t.make probeDir) x u := hx
  rw [hmake] at hx
  obtain ⟨rfl, rfl⟩ := hx
  intro v _ w _
  rfl

theorem enableControllers_complete (hdel : K.delegated = true) (hdead : s.hog.alive = false)
    (hbase : [baseName] ∈ s.tree.groups) :
    (enableControllers [baseName]).Meets (probing K false)
      (fun r t => r = .ok K.cpuDelegated ∧ t = s) s := by
  have hdone : ∀ r : Except ProbeErr Bool, r = .ok K.cpuDelegated → (done r : Prog _).Meets
      (probing K false) (fun r t => r = .ok K.cpuDelegated ∧ t = s) s :=
    fun r hr t ht => ⟨hr, quiet_between (.inl hdead) ht⟩
  have hcpu : str "+memory +pids +cpu" ≠ str "+memory +pids" := by decide
  cases hc : K.cpuDelegated with
  | true =>
      rw [hc] at hdone
      have htakes : s.takesAs K [baseName] (str "cgroup.subtree_control")
          (str "+memory +pids +cpu") = true := by
        simp [Probed.takesAs, Kernel.enables, hdel, hc]
      refine Meets.bind (p := writeFile (subtreeControl [baseName]) (str "+memory +pids +cpu"))
        ((write_quiet hdead hbase htakes (by decide)).mono ?_)
      rintro _ t ⟨rfl, rfl⟩
      exact hdone _ rfl
  | false =>
      rw [hc] at hdone
      refine call_quiet (.inl hdead) fun x t hx => ?_
      have hno : s.takes K ([baseName] ++ [str "cgroup.subtree_control"])
          (str "+memory +pids +cpu") = false := by
        rw [takes_concat]
        simp [Probed.takesAs, Kernel.enables, hc, hcpu]
      have hx : Does s (if s.takes K ([baseName] ++ [str "cgroup.subtree_control"])
        (str "+memory +pids +cpu") then _ else _) x t := hx
      rw [hno] at hx
      obtain ⟨rfl, rfl⟩ := hx
      have htakes : t.takesAs K [baseName] (str "cgroup.subtree_control")
          (str "+memory +pids") = true := by
        simp [Probed.takesAs, Kernel.enables, hdel]
      exact orFail_quiet (write_quiet hdead hbase htakes (by decide)) (hdone _ rfl)

/-- The hierarchy with the delegation point in it. -/
theorem mkdirAll_quiet (hdead : s.hog.alive = false) :
    (mkdirAll [baseName]).Meets (probing K false) (fun x t => x = .ok () ∧
      t.hog = s.hog ∧ t.tree.procs = s.tree.procs ∧ t.tree.depth ≤ max 1 s.tree.depth ∧
      ∀ q, q ∈ t.tree.groups ↔ q ∈ s.tree.groups ∨ q = [baseName]) s := by
  refine call_quiet (.inl hdead) fun x t hx => ?_
  have hx : Does s (s.makeAll [baseName]) x t := hx
  have hafter : ∀ u : Probed, u.hog = s.hog → u.tree.procs = s.tree.procs →
      u.tree.depth ≤ max 1 s.tree.depth →
      (∀ q, q ∈ u.tree.groups ↔ q ∈ s.tree.groups ∨ q = [baseName]) →
      (done (.ok ()) : Prog (Except Errno Unit)).Meets (probing K false) (fun x t => x = .ok () ∧
        t.hog = s.hog ∧ t.tree.procs = s.tree.procs ∧ t.tree.depth ≤ max 1 s.tree.depth ∧
        ∀ q, q ∈ t.tree.groups ↔ q ∈ s.tree.groups ∨ q = [baseName]) u := by
    intro u hhog hprocs hdepth hgroups v hv
    obtain rfl := quiet_between (.inl (hhog ▸ hdead)) hv
    exact ⟨rfl, hhog, hprocs, hdepth, hgroups⟩
  by_cases hb : [baseName] ∈ s.tree.groups
  · rw [Probed.makeAll, if_pos hb] at hx
    obtain ⟨rfl, rfl⟩ := hx
    refine hafter t rfl rfl (Nat.le_max_right _ _) fun q => ⟨.inl, fun hq => ?_⟩
    rcases hq with hq | rfl
    · exact hq
    · exact hb
  · have hup : List.dropLast [baseName] ∈ s.tree.groups := s.tree.mount
    rw [Probed.makeAll, if_neg hb, Probed.make, mkdir_eq_ok hb hup] at hx
    obtain ⟨rfl, rfl⟩ := hx
    refine hafter _ rfl rfl (Nat.le_refl _) fun q => ?_
    show q ∈ [baseName] :: s.tree.groups ↔ _
    rw [List.mem_cons, or_comm]

/-- The manager on a host that enforces, when the name of the probe's directory is free. -/
theorem newManager_complete {h : Hierarchy GoString} {fuel : ℕ} {root : GoString}
    (hK : K.Enforces) (hpop : ¬ h.Populated probeDir) (hfuel : h.depth + 4 ≤ fuel) :
    (NewManager fuel root).Meets (probing K false)
      (fun m t => m.active = true ∧ m.CPUActive = (K.cpuDelegated && K.cpuSeen) ∧
        t.tree.procs = h.procs ∧ ∀ q, q ∈ t.tree.groups ↔
          (q ∈ h.groups ∨ q = [baseName]) ∧ (¬ Below [baseName] q ∨ h.Populated q))
      (.fresh h) := by
  obtain ⟨henv, hmagic, hdel, hswap, hcharges⟩ := hK
  refine call_quiet (.inl rfl) ?_
  rintro env t ⟨rfl, rfl⟩
  refine meets_ite (fun hoff => absurd hoff henv) fun _ => ?_
  refine Meets.bind (p := probe fuel [baseName]) (Meets.mono
    (Q := fun r t => r = .ok (K.cpuDelegated && K.cpuSeen) ∧ t.tree.procs = h.procs ∧
      (∀ q, q ∈ t.tree.groups ↔ (q ∈ h.groups ∨ q = [baseName]) ∧ ¬ probeDir <+: q) ∧
      t.tree.depth < fuel ∧ t.hog.alive = false) ?_ ?_)
  · refine orFail_quiet (ask_quiet (c := .statfs) (a := .ok K.fsType) (.inl rfl) (.inl rfl)
      fun x t hx => hx) ?_
    refine meets_ite (fun hne => absurd hmagic hne) fun _ => ?_
    refine Meets.bind ((mkdirAll_quiet rfl).mono ?_)
    rintro _ t ⟨rfl, hhog, hprocs, hdepth, hgroups⟩
    have hdead : t.hog.alive = false := hhog ▸ rfl
    have hbase : [baseName] ∈ t.tree.groups := (hgroups _).mpr (.inr rfl)
    have hdepth' : (Probed.fresh h).tree.depth = h.depth := rfl
    refine Meets.bind ((enableControllers_complete hdel hdead hbase).mono ?_)
    rintro _ u ⟨rfl, rfl⟩
    refine (verifyEnforcement_complete hdel id hswap hcharges hdead hbase
      ((populated_congr hprocs).not.mpr hpop) (by omega) (by omega)).mono ?_
    rintro _ v ⟨rfl, hvprocs, hvgroups, hvdead⟩
    refine ⟨rfl, hvprocs.trans hprocs, fun q => ?_, ?_, hvdead⟩
    · rw [hvgroups, hgroups]
      rfl
    · have := depth_le_of_subset fun q hq => ((hvgroups q).mp hq).1
      omega
  · rintro _ t ⟨rfl, hprocs, hgroups, hdepth, hdead⟩
    refine Meets.bind ((sweep_quiet hdepth hdead).mono ?_)
    rintro _ u ⟨⟨huprocs, hugroups⟩, huhog⟩ v hv
    obtain rfl := quiet_between (.inl (huhog ▸ hdead)) hv
    refine ⟨rfl, rfl, huprocs.trans hprocs, fun q => ?_⟩
    rw [hugroups, hgroups, populated_congr hprocs]
    constructor
    · rintro ⟨⟨hq, -⟩, hk⟩
      exact ⟨hq, hk⟩
    · rintro ⟨hq, hk⟩
      refine ⟨⟨hq, fun hpq => ?_⟩, hk⟩
      -- what is below the probe's directory is below the base, and empty
      rcases hk with hk | hk
      · exact hk (below_child hpq)
      · exact hpop (hk.above hpq)

theorem newManager_refuses {h : Hierarchy GoString} {fuel : ℕ} {root : GoString}
    (hK : K.Enforces) (hpop : h.Populated probeDir) (hfuel : h.depth + 4 ≤ fuel) :
    (NewManager fuel root).Meets (probing K false) (fun m _ => m.active = false)
      (.fresh h) := by
  obtain ⟨henv, hmagic, hdel, -, -⟩ := hK
  refine call_quiet (.inl rfl) ?_
  rintro env t ⟨rfl, rfl⟩
  refine meets_ite (fun hoff => absurd hoff henv) fun _ => ?_
  refine Meets.bind (p := probe fuel [baseName]) (Meets.mono
    (Q := fun r _ => r = .error (.probeDir .EEXIST)) ?_ ?_)
  · refine orFail_quiet (ask_quiet (c := .statfs) (a := .ok K.fsType) (.inl rfl) (.inl rfl)
      fun x t hx => hx) ?_
    refine meets_ite (fun hne => absurd hmagic hne) fun _ => ?_
    refine Meets.bind ((mkdirAll_quiet rfl).mono ?_)
    rintro _ t ⟨rfl, hhog, hprocs, hdepth, hgroups⟩
    have hdead : t.hog.alive = false := hhog ▸ rfl
    have hdepth' : (Probed.fresh h).tree.depth = h.depth := rfl
    refine Meets.bind ((enableControllers_complete hdel hdead ((hgroups _).mpr (.inr rfl))).mono ?_)
    rintro _ u ⟨rfl, rfl⟩
    exact verifyEnforcement_refuses hdead ((populated_congr hprocs).mpr hpop) (by omega)
  · rintro _ t rfl u _
    rfl

/-- A hog that is alive and whose stdin is closed comes to its end. -/
theorem hog_finishes (halive : s.hog.alive = true) (heof : s.hog.eof = true) :
    ∃ t, (probing K false).Between s t ∧ t.hog.pc = .exited := by
  have hspin : ∀ u : Probed, u.hog.pc = .spinning →
      ∃ t, (probing K false).Between u t ∧ t.hog.pc = .exited :=
    fun u hu => ⟨_, .single (.inl (.spin hu)), rfl⟩
  have hallocate : ∀ u : Probed, u.hog.pc = .allocating →
      ∃ t, (probing K false).Between u t ∧ t.hog.pc = .exited := by
    intro u hu
    obtain ⟨t, ht, hpc⟩ := hspin
      { u with
        hog := { u.hog with pc := .spinning }
        peak := if u.hog.inLeaf && K.charges then hogBytes + K.extra else u.peak } rfl
    exact ⟨t, .head (.inl (.allocate hu)) ht, hpc⟩
  cases hpc : s.hog.pc with
  | absent | exited | killed => simp [Hog.alive, hpc] at halive
  | reading =>
      cases hin : s.hog.input with
      | false => exact ⟨_, .single (.inl (.eof hpc hin heof)), rfl⟩
      | true =>
          obtain ⟨t, ht, hend⟩ := hallocate { s with hog := { s.hog with pc := .allocating } } rfl
          exact ⟨t, .head (.inl (.read hpc hin)) ht, hend⟩
  | allocating => exact hallocate s hpc
  | spinning => exact hspin s hpc

end Complete

/-- On a host where nothing fails without a reason, and however the steps of the hog fall
between the probe's: the manager comes out active exactly where the host enforces limits and
the probe's directory is not in use, and it trusts the cpu controller exactly where that may
be enabled and charges the hog's second. It leaves the hierarchy it manages swept. And the
hog, which is waited for with its stdin closed, always comes to its end. -/
theorem newManager_exact (K : Kernel) (h : Hierarchy GoString) (k : ℕ) (root : GoString) :
    (NewManager (h.depth + 4 + k) root).Meets (probing K false)
      (fun m t => (m.active = true ↔ K.Enforces ∧ ¬ h.Populated probeDir) ∧
        (m.CPUActive = true ↔ K.Enforces ∧ ¬ h.Populated probeDir ∧ K.cpuDelegated = true ∧
          K.cpuCharges = true ∧ 1000000 ≤ K.spun) ∧
        (m.active = true → t.tree.procs = h.procs ∧ ∀ q, q ∈ t.tree.groups ↔
          (q ∈ h.groups ∨ q = [baseName]) ∧ (¬ Below [baseName] q ∨ h.Populated q)))
      (.fresh h) ∧
    ∀ s : Probed, s.hog.alive = true → s.hog.eof = true →
      ∃ t, (probing K false).Between s t ∧ t.hog.pc = .exited := by
  refine ⟨?_, fun s => hog_finishes⟩
  have hinactive : ∀ m : Manager, m.active = false → m.CPUActive = false := by
    intro m hm
    rw [Manager.CPUActive, hm, Bool.false_and]
  by_cases hK : K.Enforces
  · by_cases hpop : h.Populated probeDir
    · refine (newManager_refuses hK hpop (Nat.le_add_right _ _)).mono fun m t hm => ?_
      have hcpu := hinactive m hm
      simp [hm, hcpu, hpop]
    · refine (newManager_complete hK hpop (Nat.le_add_right _ _)).mono ?_
      rintro m t ⟨hm, hcpu, htree⟩
      refine ⟨by simp [hm, hK, hpop], ?_, fun _ => htree⟩
      rw [hcpu, Kernel.cpuSeen]
      simp [hK, hpop]
  · refine (newManager_kept K false h k root).mono fun m t hm => ?_
    have hoff : m.active = false := by
      cases hact : m.active with
      | false => rfl
      | true => exact absurd (hm.1 hact) hK
    have hcpu := hinactive m hoff
    simp [hoff, hcpu, hK]

end Goboxd.Cgroupv2
