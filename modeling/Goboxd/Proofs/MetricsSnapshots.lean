import Goboxd.Api.Metrics

/-!
# When a snapshot of the metrics is consistent

Every run is counted in the total, under one status and under one latency
bucket, so the sums would agree if they were read at one moment. They are not:
a snapshot copies the statuses, then the latencies, then loads the total and the
errors, while runs count themselves in the total first and in the maps later.

What the counters lack at any moment is accounted for by the calls of
`recordRun` that are under way. A snapshot is consistent exactly when four steps
cut through nothing: neither map is copied while a run is in the total and not
yet in that map; no run enters the total between the copy of the statuses and
the load of the total; and no error is counted between the two last loads that
would take the errors above the total already read.
-/

namespace Goboxd.Api

open Go Family

structure MetricsSnapshot.Consistent (snap : MetricsSnapshot) : Prop where
  statuses : sumCounts snap.statusCounts = snap.totalRuns
  latency : sumCounts snap.latencyHistogramMs = snap.totalRuns
  errors : snap.errorCount ≤ snap.totalRuns

/-- Every snapshot that was returned so far. -/
def SnapshotsConsistent (s : St Metrics MetricsProc) : Prop :=
  ∀ (p : ℕ) snap, s.procs[p]? = some (.snapshotting (.returned snap)) → snap.Consistent

/-- The run is in the total and not yet under its status. -/
def RecordPc.lacksStatus : RecordPc → Bool
  | .addErrors | .lockStatuses => true
  | _ => false

/-- The run is in the total and not yet under its latency. -/
def RecordPc.lacksLatency : RecordPc → Bool
  | .addErrors | .lockStatuses | .lockLatency => true
  | _ => false

/-- The statuses were copied and the total is still to be loaded. -/
def SnapshotPc.awaitsTotal : SnapshotPc → Bool
  | .copyLatency _ | .loadInFlight _ _ | .loadQueued _ _ _ | .loadTotal _ _ _ _ => true
  | _ => false

/-- The next step of the first goroutine cuts through what the second is
doing. -/
def cuts (errors : Int) : MetricsProc → MetricsProc → Bool
  | .snapshotting .copyStatuses, .recording _ pc => pc.lacksStatus
  | .snapshotting (.copyLatency _), .recording _ pc => pc.lacksLatency
  | .recording _ .addTotal, .snapshotting pc => pc.awaitsTotal
  | .recording r .addErrors, .snapshotting (.loadErrors _ _ _ _ total) =>
      r.isError && decide (total ≤ errors)
  | _, _ => false

/-- The step cuts through nothing. -/
def Uncut (s : St Metrics MetricsProc) (a : Act Unit MetricsEvent) : Prop :=
  ∀ (p : ℕ) l, a = .own p () → s.procs[p]? = some l →
    ∀ m ∈ s.procs, cuts s.shared.errors l m = false

/-! ## What the counters lack -/

def MetricsProc.lacksStatus : MetricsProc → ℤ
  | .recording _ pc => if pc.lacksStatus then 1 else 0
  | .snapshotting _ => 0

def MetricsProc.lacksLatency : MetricsProc → ℤ
  | .recording _ pc => if pc.lacksLatency then 1 else 0
  | .snapshotting _ => 0

/-- One for a run in the total that is not among the errors. -/
def MetricsProc.notError : MetricsProc → ℤ
  | .recording _ .addTotal => 0
  | .recording _ .addErrors => 1
  | .recording r _ => if r.isError then 0 else 1
  | .snapshotting _ => 0

section

variable {G : St Metrics MetricsProc → Act Unit MetricsEvent → Prop}
  {s t : St Metrics MetricsProc}

/-- A quantity of the metrics that no snapshot and no gauge touches is accounted
for by the calls of `recordRun`. -/
theorem accounted {w : MetricsProc → ℤ} {q : Metrics → ℤ} (hinit : q newMetrics = 0)
    (hrecord : ∀ m r pc o, recordStep m r pc = some o →
      q o.1 = q m - w (.recording r pc) + w (.recording r o.2))
    (hsnap : ∀ pc, w (.snapshotting pc) = 0) (hnew : ∀ r, w (.recording r .addTotal) = 0)
    (hgauge : ∀ m d, q { m with inFlight := d } = q m ∧ q { m with queued := d } = q m)
    (h : metricsCalls.machine.Reach G s) : q s.shared = total w s.procs := by
  refine Family.accounting ?_ ?_ ?_ h
  · intro m hm
    rw [show m = newMetrics from hm]
    exact hinit
  · intro s p a l r _ _ hr
    have hr : metricsProcStep s.shared l = some r := hr
    cases l with
    | recording rec pc =>
        obtain ⟨o, ho, rfl⟩ := Option.map_eq_some_iff.mp hr
        exact hrecord _ _ _ _ ho
    | snapshotting pc =>
        obtain ⟨pc', -, rfl⟩ := Option.map_eq_some_iff.mp hr
        rw [hsnap, hsnap, Int.sub_zero, Int.add_zero]
  · intro s e r _ hr
    have hr : some (metricsEvent s.shared e) = some r := hr
    cases hr
    cases e with
    | recordRun rec => simp [metricsEvent, hnew]
    | snapshot => simp [metricsEvent, hsnap]
    | addInFlight d => simp [metricsEvent, (hgauge _ _).1]
    | addQueued d => simp [metricsEvent, (hgauge _ _).2]

theorem lacking_statuses (h : metricsCalls.machine.Reach G s) :
    s.shared.totalRuns - sumCounts s.shared.statuses =
      total MetricsProc.lacksStatus s.procs := by
  refine accounted (q := fun m => m.totalRuns - sumCounts m.statuses) rfl ?_
    (fun _ => rfl) (fun _ => rfl) (fun _ _ => ⟨rfl, rfl⟩) h
  intro m r pc o ho
  have hlacks : ∀ pc : RecordPc, MetricsProc.lacksStatus (.recording r pc) =
      pc.inTotal - pc.inStatuses := by
    intro pc
    cases pc <;> rfl
  have hmove := recordStep_move ho
  have htotal := hmove.totalRuns
  have hstatuses := hmove.statuses
  rw [hlacks, hlacks]
  omega

theorem lacking_latency (h : metricsCalls.machine.Reach G s) :
    s.shared.totalRuns - sumCounts s.shared.latency =
      total MetricsProc.lacksLatency s.procs := by
  refine accounted (q := fun m => m.totalRuns - sumCounts m.latency) rfl ?_
    (fun _ => rfl) (fun _ => rfl) (fun _ _ => ⟨rfl, rfl⟩) h
  intro m r pc o ho
  have hlacks : ∀ pc : RecordPc, MetricsProc.lacksLatency (.recording r pc) =
      pc.inTotal - pc.inLatency := by
    intro pc
    cases pc <;> rfl
  have hmove := recordStep_move ho
  have htotal := hmove.totalRuns
  have hlatency := hmove.latency
  rw [hlacks, hlacks]
  omega

theorem not_errors (h : metricsCalls.machine.Reach G s) :
    s.shared.totalRuns - s.shared.errors = total MetricsProc.notError s.procs := by
  refine accounted (q := fun m => m.totalRuns - m.errors) rfl ?_
    (fun _ => rfl) (fun _ => rfl) (fun _ _ => ⟨rfl, rfl⟩) h
  intro m r pc o ho
  have hnot : ∀ pc : RecordPc, MetricsProc.notError (.recording r pc) =
      pc.inTotal - pc.inErrors r.isError := by
    intro pc
    cases hr : r.isError <;> cases pc <;> simp [MetricsProc.notError, hr,
      RecordPc.inTotal, RecordPc.inErrors]
  have hmove := recordStep_move ho
  have htotal := hmove.totalRuns
  have herrors := hmove.errors
  rw [hnot, hnot]
  omega

theorem errors_le (h : metricsCalls.machine.Reach G s) :
    s.shared.errors ≤ s.shared.totalRuns := by
  have hsum := not_errors h
  have hpos : 0 ≤ total MetricsProc.notError s.procs := by
    refine total_nonneg (fun l => ?_) _
    unfold MetricsProc.notError
    split
    · omega
    · omega
    · split <;> omega
    · omega
  omega

/-! ## A snapshot that nothing cuts through -/

/-- What a snapshot has read so far agrees. -/
def SnapshotSound (m : Metrics) : SnapshotPc → Prop
  | .copyStatuses => True
  | .copyLatency statuses => sumCounts statuses = m.totalRuns
  | .loadInFlight statuses latency | .loadQueued statuses latency _
  | .loadTotal statuses latency _ _ =>
      sumCounts statuses = m.totalRuns ∧ sumCounts latency = m.totalRuns
  | .loadErrors statuses latency _ _ total =>
      sumCounts statuses = total ∧ sumCounts latency = total ∧ m.errors ≤ total
  | .returned snap => snap.Consistent

def ProcSound (m : Metrics) (_ : ℕ) : MetricsProc → Prop
  | .recording _ _ => True
  | .snapshotting pc => SnapshotSound m pc

/-- A snapshot's own step. -/
theorem snapshotSound_step {pc pc' : SnapshotPc}
    (hstatuses : pc = .copyStatuses → sumCounts s.shared.statuses = s.shared.totalRuns)
    (hlatency : ∀ statuses, pc = .copyLatency statuses →
      sumCounts s.shared.latency = s.shared.totalRuns)
    (herrors : s.shared.errors ≤ s.shared.totalRuns)
    (hstep : snapshotStep s.shared pc = some pc') (h : SnapshotSound s.shared pc) :
    SnapshotSound s.shared pc' := by
  cases pc with
  | copyStatuses => cases hstep; exact hstatuses rfl
  | copyLatency statuses => cases hstep; exact ⟨h, hlatency statuses rfl⟩
  | loadInFlight statuses latency => cases hstep; exact h
  | loadQueued statuses latency inFlight => cases hstep; exact h
  | loadTotal statuses latency inFlight queued =>
      cases hstep
      exact ⟨h.1, h.2, herrors⟩
  | loadErrors statuses latency inFlight queued total =>
      cases hstep
      exact ⟨h.1, h.2.1, h.2.2⟩
  | returned snap => cases hstep

/-- A step of `recordRun` that cuts through nothing leaves a snapshot sound. -/
theorem snapshotSound_record {m : Metrics} {r : RunRecord} {pc : RecordPc}
    {o : Metrics × RecordPc} {snap : SnapshotPc} (ho : recordStep m r pc = some o)
    (huncut : cuts m.errors (.recording r pc) (.snapshotting snap) = false)
    (h : SnapshotSound m snap) : SnapshotSound o.1 snap := by
  cases pc with
  | addTotal =>
      cases ho
      cases snap with
      | copyStatuses | loadErrors | returned => exact h
      | copyLatency | loadInFlight | loadQueued | loadTotal => cases huncut
  | addErrors =>
      cases ho
      cases hr : r.isError with
      | false =>
          rw [if_neg (by simp)]
          exact h
      | true =>
          rw [if_pos rfl]
          cases snap with
          | loadErrors statuses latency inFlight queued total =>
              have hlt : ¬ total ≤ m.errors := by
                rw [cuts, hr, Bool.true_and, decide_eq_false_iff_not] at huncut
                exact huncut
              refine ⟨h.1, h.2.1, ?_⟩
              show m.errors + 1 ≤ total
              omega
          | copyStatuses | copyLatency | loadInFlight | loadQueued | loadTotal
          | returned => exact h
  | lockStatuses => cases ho; cases snap <;> exact h
  | lockLatency => cases ho; cases snap <;> exact h
  | returned => cases ho

theorem each_sound (h : metricsCalls.machine.Reach Uncut s) : Each ProcSound s := by
  refine Family.each ?_ ?_ ?_ ?_ h
  · intro s p a l r hreach hall huncut hl hr
    have hr : metricsProcStep s.shared l = some r := hr
    cases l with
    | recording rec pc =>
        obtain ⟨o, -, rfl⟩ := Option.map_eq_some_iff.mp hr
        trivial
    | snapshotting pc =>
        obtain ⟨pc', hpc, rfl⟩ := Option.map_eq_some_iff.mp hr
        have hcut := huncut p _ rfl hl
        refine snapshotSound_step (fun hstart => ?_) (fun statuses hstart => ?_)
          (errors_le hreach) hpc (hall p _ hl)
        · have hlack := lacking_statuses hreach
          rw [total_zero] at hlack
          · omega
          · intro m hm
            have hm := hcut m hm
            rw [hstart] at hm
            cases m with
            | recording r pc => exact if_neg (by rw [show pc.lacksStatus = false from hm]; simp)
            | snapshotting pc => rfl
        · have hlack := lacking_latency hreach
          rw [total_zero] at hlack
          · omega
          · intro m hm
            have hm := hcut m hm
            rw [hstart] at hm
            cases m with
            | recording r pc => exact if_neg (by rw [show pc.lacksLatency = false from hm]; simp)
            | snapshotting pc => rfl
  · intro s p a l r q m hreach hall huncut hl hr hq hm
    have hr : metricsProcStep s.shared l = some r := hr
    cases m with
    | recording rec pc => trivial
    | snapshotting snap =>
        cases l with
        | recording rec pc =>
            obtain ⟨o, ho, rfl⟩ := Option.map_eq_some_iff.mp hr
            exact snapshotSound_record ho
              (huncut p _ rfl hl _ (List.mem_of_getElem? hm)) (hall q _ hm)
        | snapshotting pc =>
            obtain ⟨pc', -, rfl⟩ := Option.map_eq_some_iff.mp hr
            exact hall q _ hm
  · intro s e r q m hreach hall _ hr hm
    have hr : some (metricsEvent s.shared e) = some r := hr
    cases hr
    have hsound := hall q m hm
    cases m with
    | recording rec pc => trivial
    | snapshotting snap => cases e <;> cases snap <;> exact hsound
  · intro s e r k m hreach _ hr hm
    have hr : some (metricsEvent s.shared e) = some r := hr
    cases hr
    cases e with
    | recordRun rec =>
        rw [List.mem_singleton.mp (List.mem_of_getElem? hm)]
        trivial
    | snapshot =>
        rw [List.mem_singleton.mp (List.mem_of_getElem? hm)]
        trivial
    | addInFlight d => cases List.mem_of_getElem? hm
    | addQueued d => cases List.mem_of_getElem? hm

theorem snapshotsConsistent_of_uncut (h : metricsCalls.machine.Reach Uncut s) :
    SnapshotsConsistent s := by
  intro p snap hp
  exact each_sound h p _ hp

/-! ## A cut, and the snapshot it goes through -/

/-- What a snapshot will return if nobody else takes a step. -/
def SnapshotPc.finish (m : Metrics) : SnapshotPc → MetricsSnapshot
  | .copyStatuses => ⟨m.inFlight, m.queued, m.totalRuns, m.errors, m.statuses, m.latency⟩
  | .copyLatency statuses =>
      ⟨m.inFlight, m.queued, m.totalRuns, m.errors, statuses, m.latency⟩
  | .loadInFlight statuses latency =>
      ⟨m.inFlight, m.queued, m.totalRuns, m.errors, statuses, latency⟩
  | .loadQueued statuses latency inFlight =>
      ⟨inFlight, m.queued, m.totalRuns, m.errors, statuses, latency⟩
  | .loadTotal statuses latency inFlight queued =>
      ⟨inFlight, queued, m.totalRuns, m.errors, statuses, latency⟩
  | .loadErrors statuses latency inFlight queued total =>
      ⟨inFlight, queued, total, m.errors, statuses, latency⟩
  | .returned snap => snap

def SnapshotPc.stepsLeft : SnapshotPc → ℕ
  | .copyStatuses => 6
  | .copyLatency _ => 5
  | .loadInFlight _ _ => 4
  | .loadQueued _ _ _ => 3
  | .loadTotal _ _ _ _ => 2
  | .loadErrors _ _ _ _ _ => 1
  | .returned _ => 0

theorem exec_finish {p n : ℕ} : ∀ {s : St Metrics MetricsProc} {pc : SnapshotPc},
    pc.stepsLeft = n → s.procs[p]? = some (.snapshotting pc) →
    ∃ u, metricsCalls.machine.exec s (List.replicate n (.own p ())) = some u ∧
      u.procs[p]? = some (.snapshotting (.returned (pc.finish s.shared))) := by
  induction n with
  | zero =>
      intro s pc hn hp
      cases pc with
      | returned snap => exact ⟨s, rfl, hp⟩
      | copyStatuses | copyLatency | loadInFlight | loadQueued | loadTotal
      | loadErrors => cases hn
  | succ n ih =>
      intro s pc hn hp
      obtain ⟨pc', hstep, hn', hfinish⟩ : ∃ pc', snapshotStep s.shared pc = some pc' ∧
          pc'.stepsLeft = n ∧ pc'.finish s.shared = pc.finish s.shared := by
        cases pc <;> cases hn <;> exact ⟨_, rfl, rfl, rfl⟩
      have hnext : metricsCalls.machine.step s (.own p ()) =
          some ⟨s.shared, s.procs.set p (.snapshotting pc')⟩ := by
        refine step_own.mpr ⟨_, (s.shared, .snapshotting pc'), hp, ?_, rfl⟩
        show (snapshotStep s.shared pc).map _ = _
        rw [hstep, Option.map_some]
      obtain ⟨u, hu, hret⟩ := ih (s := ⟨s.shared, s.procs.set p (.snapshotting pc')⟩) hn'
        (getElem?_set_self hp)
      refine ⟨u, ?_, ?_⟩
      · rw [List.replicate_succ, Machine.exec_cons, hnext]
        exact hu
      · rw [hret, ← hfinish]

/-- A snapshot that will not be consistent can be let return. -/
theorem exec_inconsistent {p : ℕ} {pc : SnapshotPc}
    (hp : s.procs[p]? = some (.snapshotting pc)) (h : ¬ (pc.finish s.shared).Consistent) :
    ∃ as u, metricsCalls.machine.exec s as = some u ∧ ¬ SnapshotsConsistent u := by
  obtain ⟨u, hu, hret⟩ := exec_finish rfl hp
  exact ⟨_, u, hu, fun hall => h (hall p _ hret)⟩

/-- The statuses that were copied are no more than the runs so far. -/
def CopiedBefore (m : Metrics) (_ : ℕ) : MetricsProc → Prop
  | .snapshotting (.copyLatency statuses) | .snapshotting (.loadInFlight statuses _)
  | .snapshotting (.loadQueued statuses _ _)
  | .snapshotting (.loadTotal statuses _ _ _) => sumCounts statuses ≤ m.totalRuns
  | _ => True

theorem lacksStatus_nonneg (l : MetricsProc) : 0 ≤ l.lacksStatus := by
  unfold MetricsProc.lacksStatus
  split
  · split <;> omega
  · omega

theorem lacksLatency_nonneg (l : MetricsProc) : 0 ≤ l.lacksLatency := by
  unfold MetricsProc.lacksLatency
  split
  · split <;> omega
  · omega

theorem CopiedBefore.later {m m' : Metrics} {p : ℕ} {l : MetricsProc}
    (hle : m.totalRuns ≤ m'.totalRuns) (h : CopiedBefore m p l) :
    CopiedBefore m' p l := by
  unfold CopiedBefore at *
  split <;> first | exact trivial | exact Int.le_trans h hle

theorem recordStep_totalRuns {m : Metrics} {r : RunRecord} {pc : RecordPc}
    {o : Metrics × RecordPc} (h : recordStep m r pc = some o) :
    m.totalRuns ≤ o.1.totalRuns := by
  cases pc with
  | addTotal =>
      cases h
      show m.totalRuns ≤ m.totalRuns + 1
      omega
  | addErrors => cases h; cases r.isError <;> exact Int.le_refl _
  | lockStatuses | lockLatency => cases h; exact Int.le_refl _
  | returned => cases h

theorem each_copiedBefore (h : metricsCalls.machine.Reachable s) :
    Each CopiedBefore s := by
  have hprocs : ∀ {m : Metrics} {l : MetricsProc} {r : Metrics × MetricsProc},
      metricsProcStep m l = some r → m.totalRuns ≤ r.1.totalRuns := by
    intro m l r hr
    cases l with
    | recording rec pc =>
        obtain ⟨o, ho, rfl⟩ := Option.map_eq_some_iff.mp hr
        exact recordStep_totalRuns ho
    | snapshotting pc =>
        obtain ⟨pc', -, rfl⟩ := Option.map_eq_some_iff.mp hr
        exact Int.le_refl _
  refine Family.each ?_ ?_ ?_ ?_ h
  · intro s p a l r hreach hall _ hl hr
    have hcopied := hall p l hl
    have hr : metricsProcStep s.shared l = some r := hr
    cases l with
    | recording rec pc =>
        obtain ⟨o, -, rfl⟩ := Option.map_eq_some_iff.mp hr
        trivial
    | snapshotting pc =>
        cases pc with
        | copyStatuses =>
            cases hr
            have hlack := lacking_statuses hreach
            have hpos := total_nonneg lacksStatus_nonneg s.procs
            show sumCounts s.shared.statuses ≤ s.shared.totalRuns
            omega
        | copyLatency | loadInFlight | loadQueued => cases hr; exact hcopied
        | loadTotal | loadErrors => cases hr; trivial
        | returned => cases hr
  · intro s p a l r q m _ hall _ _ hr _ hm
    exact (hall q m hm).later (hprocs hr)
  · intro s e r q m _ hall _ hr hm
    have hr : some (metricsEvent s.shared e) = some r := hr
    cases hr
    exact (hall q m hm).later (by cases e <;> exact Int.le_refl _)
  · intro s e r k m _ _ hr hm
    have hr : some (metricsEvent s.shared e) = some r := hr
    cases hr
    have hmem := List.mem_of_getElem? hm
    cases e with
    | recordRun rec => rw [List.mem_singleton.mp hmem]; trivial
    | snapshot => rw [List.mem_singleton.mp hmem]; trivial
    | addInFlight d => cases hmem
    | addQueued d => cases hmem

/-- A run that enters a total which a snapshot still has to load. -/
theorem inconsistent_of_total {pc : SnapshotPc} (m : Metrics)
    (hcopied : CopiedBefore m 0 (.snapshotting pc)) (hawaits : pc.awaitsTotal = true) :
    ¬ (pc.finish { m with totalRuns := m.totalRuns + 1 }).Consistent := by
  intro hc
  have hsum := hc.statuses
  have hgone : ∀ statuses, sumCounts statuses ≤ m.totalRuns →
      sumCounts statuses = m.totalRuns + 1 → False := by
    intro statuses hle heq
    omega
  cases pc with
  | copyStatuses | loadErrors | returned => cases hawaits
  | copyLatency statuses => exact hgone statuses hcopied hsum
  | loadInFlight statuses latency => exact hgone statuses hcopied hsum
  | loadQueued statuses latency inFlight => exact hgone statuses hcopied hsum
  | loadTotal statuses latency inFlight queued => exact hgone statuses hcopied hsum

theorem inconsistent_of_cut {a : Act Unit MetricsEvent}
    (h : metricsCalls.machine.Reachable s) (hs : metricsCalls.machine.step s a = some t)
    (hcut : ¬ Uncut s a) :
    ∃ as u, metricsCalls.machine.exec t as = some u ∧ ¬ SnapshotsConsistent u := by
  unfold Uncut at hcut
  push Not at hcut
  obtain ⟨p, l, rfl, hl, m, hm, hcuts⟩ := hcut
  rw [ne_eq, Bool.not_eq_false] at hcuts
  obtain ⟨l', r, hl', hr, rfl⟩ := step_own.mp hs
  cases hl.symm.trans hl'
  obtain ⟨q, hq⟩ := List.getElem?_of_mem hm
  have hr : metricsProcStep s.shared l = some r := hr
  cases l with
  | snapshotting pc =>
      cases m with
      | snapshotting pc' => cases pc <;> cases hcuts
      | recording rec pc' =>
          cases pc with
          | copyStatuses =>
              cases hr
              refine exec_inconsistent (getElem?_set_self hl) fun hc => ?_
              have hlack := lacking_statuses h
              have hone : MetricsProc.lacksStatus (.recording rec pc') ≤
                  total MetricsProc.lacksStatus s.procs := le_total lacksStatus_nonneg hq
              have heq : sumCounts s.shared.statuses = s.shared.totalRuns := hc.statuses
              rw [MetricsProc.lacksStatus, show pc'.lacksStatus = true from hcuts] at hone
              simp only [if_true] at hone
              omega
          | copyLatency statuses =>
              cases hr
              refine exec_inconsistent (getElem?_set_self hl) fun hc => ?_
              have hlack := lacking_latency h
              have hone : MetricsProc.lacksLatency (.recording rec pc') ≤
                  total MetricsProc.lacksLatency s.procs := le_total lacksLatency_nonneg hq
              have heq : sumCounts s.shared.latency = s.shared.totalRuns := hc.latency
              rw [MetricsProc.lacksLatency, show pc'.lacksLatency = true from hcuts] at hone
              simp only [if_true] at hone
              omega
          | loadInFlight | loadQueued | loadTotal | loadErrors | returned => cases hcuts
  | recording rec pc =>
      cases m with
      | recording rec' pc' => cases pc <;> cases hcuts
      | snapshotting pc' =>
          have hne : p ≠ q := by
            intro hpq
            rw [← hpq, hl] at hq
            cases hq
          have hq' : (s.procs.set p r.2)[q]? = some (.snapshotting pc') := by
            rw [List.getElem?_set_ne hne]
            exact hq
          cases pc with
          | addTotal =>
              cases hr
              exact exec_inconsistent hq'
                (inconsistent_of_total s.shared (each_copiedBefore h q _ hq) hcuts)
          | addErrors =>
              cases hr
              cases pc' with
              | loadErrors statuses latency inFlight queued total =>
                  rw [cuts, Bool.and_eq_true, decide_eq_true_eq] at hcuts
                  refine exec_inconsistent hq' fun hc => ?_
                  have hle := hc.errors
                  rw [if_pos hcuts.1] at hle
                  have hle : s.shared.errors + 1 ≤ total := hle
                  omega
              | copyStatuses | copyLatency | loadInFlight | loadQueued | loadTotal
              | returned => cases hcuts
          | lockStatuses | lockLatency | returned => cases hcuts

/-- When the snapshots are consistent. For any number of calls of `recordRun` and
`Snapshot` and every interleaving of their steps, they are so as long as no step
cuts through another call; any step that does can be followed by a snapshot that
is not. -/
theorem snapshots_consistent_when_uncut (h : metricsCalls.machine.Reachable s) :
    (metricsCalls.machine.Reach Uncut s → SnapshotsConsistent s) ∧
    ∀ a t, metricsCalls.machine.step s a = some t → ¬ Uncut s a →
      ∃ as u, metricsCalls.machine.exec t as = some u ∧ ¬ SnapshotsConsistent u :=
  ⟨snapshotsConsistent_of_uncut, fun _ _ => inconsistent_of_cut h⟩

end

/-! ## Two runs and a snapshot -/

def acceptedRun : RunRecord := ⟨str "accepted", 120000000, false⟩

def failedRun : RunRecord := ⟨str "internal_error", 7000000000, true⟩

/-- The second run enters the total after the snapshot has loaded it. -/
def uncutCalls : List (Act Unit MetricsEvent) :=
  [.env (.recordRun failedRun), .env (.recordRun acceptedRun), .env .snapshot] ++
    List.replicate 4 (.own 0 ()) ++ List.replicate 5 (.own 2 ()) ++
      List.replicate 2 (.own 1 ()) ++ [.own 2 ()] ++ List.replicate 2 (.own 1 ())

/-- The snapshot is taken while a run is in the total only. -/
def cutCalls : List (Act Unit MetricsEvent) :=
  [.env (.recordRun acceptedRun), .env .snapshot, .own 0 ()] ++
    List.replicate 6 (.own 1 ())

def uncutCheck (s : St Metrics MetricsProc) : Act Unit MetricsEvent → Bool
  | .own p () =>
      (s.procs[p]?.map fun l => s.procs.all fun m => !cuts s.shared.errors l m).getD true
  | .env _ => true

theorem uncutCheck_sound (s : St Metrics MetricsProc) (a : Act Unit MetricsEvent)
    (h : uncutCheck s a = true) : Uncut s a := by
  intro p l ha hl m hm
  rw [ha, uncutCheck, hl, Option.map_some, Option.getD_some, List.all_eq_true] at h
  simpa using h m hm

theorem snapshots_consistent_when_uncut_twice :
    ∃ s, metricsCalls.machine.exec ⟨newMetrics, []⟩ uncutCalls = some s ∧
      SnapshotsConsistent s ∧
      s.procs[2]? = some (.snapshotting (.returned
        { inFlight := 0
          queueDepth := 0
          totalRuns := 1
          errorCount := 1
          statusCounts := [(str "internal_error", 1)]
          latencyHistogramMs := [(str "5000+", 1)] })) ∧
      s.shared.totalRuns = 2 := by
  have hr := Machine.reachable_of_exec (M := metricsCalls.machine) (s := ⟨newMetrics, []⟩)
    uncutCalls ⟨rfl, rfl⟩ rfl
  have huncut := Machine.reach_of_execIf uncutCheck_sound uncutCalls
    (.start (M := metricsCalls.machine) (s := ⟨newMetrics, []⟩) ⟨rfl, rfl⟩) rfl
  exact ⟨_, rfl, (snapshots_consistent_when_uncut hr).1 huncut, rfl, rfl⟩

theorem snapshot_of_uncounted_run :
    ¬ ∀ s, metricsCalls.machine.Reachable s → SnapshotsConsistent s := by
  intro h
  have hr := Machine.reachable_of_exec (M := metricsCalls.machine) (s := ⟨newMetrics, []⟩)
    cutCalls ⟨rfl, rfl⟩ rfl
  exact absurd (h _ hr 1 _ rfl).statuses (by decide)

end Goboxd.Api
