import Goboxd.Api.Requests
import Goboxd.Proofs.AdmissionSafety
import Goboxd.Proofs.OutputVerdict

/-!
# Every run is counted once

`HandleRun` has nine exits behind its validation, each with its own call of
`recordRun`. What a request has recorded is a matter of where it is: nothing up
to the end of `acquire` or of `ExecuteRun`, and one record from there on. That is
a local invariant, and with it every counter is the sum of what the requests have
added to it so far, by the accounting rule. When no request is in progress, each
of them has added all of its record, or was rejected and has added nothing; the
gauges are back where they were.
-/

namespace Goboxd.Api

open Go Models Config Runner Family

/-- The request came to the gate. -/
def HandleCall.reachedGate (c : HandleCall) : Bool :=
  match c.pc with
  | .validating | .rejected => false
  | _ => true

def HandleCall.finished (c : HandleCall) : Bool :=
  match c.pc with
  | .rejected | .returned => true
  | _ => false

/-- No request is in progress. -/
def Quiet (s : St ApiState HandleCall) : Prop := ∀ c ∈ s.procs, c.finished = true

/-- The records of all requests that are marked as errors. -/
def errorRecords (s : St ApiState HandleCall) : List RunRecord :=
  (s.procs.flatMap HandleCall.records).filter RunRecord.isError

/-- What the metrics say when no request is in progress. -/
structure CountedOnce (s : St ApiState HandleCall) : Prop where
  totalRuns : s.shared.metrics.totalRuns = s.procs.countP HandleCall.reachedGate
  statuses : sumCounts s.shared.metrics.statuses = s.shared.metrics.totalRuns
  latency : sumCounts s.shared.metrics.latency = s.shared.metrics.totalRuns
  errors : s.shared.metrics.errors = (errorRecords s).length
  inFlight : s.shared.metrics.inFlight = 0
  queued : s.shared.metrics.queued = 0
  gate : s.shared.gs.gate.inFlight = 0

section

variable {getenv : Env} {reg : Registry} {maxJobs maxQueued : Int}
  {s : St ApiState HandleCall}
  {G : St ApiState HandleCall → Act HandleAct ApiEvent → Prop}

/-! ## What a request has recorded -/

def Passes (getenv : Env) (reg : Registry) (c : HandleCall) : Prop :=
  ∃ v, validateRun getenv reg c.decoded = .ok v

/-- What is known of a request from where it is: whether its validation passes,
where it is in `acquire`, and what it has recorded. -/
def HandlePc.Wf (passes : Prop) (phase : Phase) (records : List RunRecord) :
    HandlePc → Prop
  | .validating => phase = .entering ∧ records = []
  | .rejected => ¬ passes ∧ phase = .entering ∧ records = []
  | .acquiring _ => passes ∧ phase ≠ .released ∧ records = []
  | .running _ => passes ∧ phase = .admitted ∧ records = []
  | .recording r _ =>
      passes ∧ (phase = .admitted ∨ ∃ e, phase = .failed e) ∧ records = [r]
  | .releasing => passes ∧ phase = .admitted ∧ ∃ r, records = [r]
  | .returned => passes ∧ (phase = .released ∨ ∃ e, phase = .failed e) ∧ ∃ r, records = [r]

def HandleCall.Wf (getenv : Env) (reg : Registry) (c : HandleCall) : Prop :=
  c.pc.Wf (Passes getenv reg c) c.caller.phase c.records

theorem callerMove_released {gs : GateState} {c : Caller} {a : CallerAct}
    {r : GateState × Caller} (h : CallerMove gs c a r) (ha : a ≠ .release)
    (hc : c.phase ≠ .released) : r.2.phase ≠ .released := by
  cases h with
  | enter _ =>
      show (acquireEnter gs).2.phase ≠ .released
      cases (acquireEnter gs).2 <;> simp [Verdict.phase]
  | recheck _ =>
      show (acquireRecheck gs).2.phase ≠ .released
      cases (acquireRecheck gs).2 <;> simp [Verdict.phase]
  | takeBroadcast | takeDone | cancel => simp
  | release => exact absurd rfl ha
  | ctxCancel => exact hc

theorem HandleCall.Wf.step {sh : ApiState} {c : HandleCall} {a : HandleAct}
    {r : ApiState × HandleCall} (h : HandleMove getenv reg sh c a r)
    (hw : c.Wf getenv reg) : r.2.Wf getenv reg := by
  unfold HandleCall.Wf at hw
  cases h with
  | pass hpc hval =>
      rw [hpc] at hw
      refine ⟨⟨_, hval⟩, ?_, hw.2⟩
      show c.caller.phase ≠ .released
      rw [hw.1]
      simp
  | reject hpc hval =>
      rw [hpc] at hw
      refine ⟨fun ⟨v, hv⟩ => ?_, hw⟩
      have hv : validateRun getenv reg c.decoded = .ok v := hv
      rw [hval] at hv
      cases hv
  | gate hpc ha hm =>
      rw [hpc] at hw
      show c.pc.Wf _ _ _
      rw [hpc]
      exact ⟨hw.1, callerMove_released hm ha hw.2.1, hw.2.2⟩
  | disconnect => exact hw
  | refuse hpc hph =>
      rw [hpc] at hw
      exact ⟨hw.1, .inr ⟨_, hph⟩, by rw [← hw.2.2]; rfl⟩
  | count hpc hph =>
      rw [hpc] at hw
      exact ⟨hw.1, hph, hw.2.2⟩
  | finish hpc =>
      rw [hpc] at hw
      exact ⟨hw.1, .inl hw.2.1, by rw [← hw.2.2]; rfl⟩
  | record hpc ho =>
      rw [hpc] at hw
      exact hw
  | uncount hpc hph =>
      rw [hpc] at hw
      exact ⟨hw.1, hph, _, hw.2.2⟩
  | release hpc hph =>
      rw [hpc] at hw
      exact ⟨hw.1, .inl rfl, hw.2.2⟩
  | ret hpc hph =>
      rw [hpc] at hw
      exact ⟨hw.1, .inr ⟨_, hph⟩, _, hw.2.2⟩

theorem each_wf (h : (requests getenv reg maxJobs maxQueued).machine.Reach G s) :
    Each (fun _ _ c => c.Wf getenv reg) s := by
  refine Family.each ?_ ?_ ?_ ?_ h
  · intro s p a c r _ hall _ hc hr
    exact (hall p c hc).step (handleStep_move hr)
  · intro s p a c r q m _ hall _ _ _ _ hm
    exact hall q m hm
  · intro s e r q m _ hall _ _ hm
    exact hall q m hm
  · intro s e r k m _ _ hr hm
    have hr : some (apiEvent s.shared e) = some r := hr
    cases hr
    have hmem := List.mem_of_getElem? hm
    cases e with
    | request decoded =>
        rw [List.mem_singleton.mp hmem]
        exact ⟨rfl, rfl⟩
    | stop => cases hmem

/-! ## What the requests have added -/

/-- How far the record of the request is. -/
def HandlePc.recordPc : HandlePc → RecordPc
  | .recording _ pc => pc
  | .releasing | .returned => .returned
  | _ => .addTotal

/-- Whether what the request records is an error. -/
def HandleCall.isError (c : HandleCall) : Bool := c.records.any RunRecord.isError

/-- One for a request that is in `metrics.InFlight`. -/
def HandlePc.inFlight (slot : ℤ) : HandlePc → ℤ
  | .running _ => 1
  | .recording _ _ => slot
  | _ => 0

def HandleCall.inFlight (c : HandleCall) : ℤ := c.pc.inFlight c.caller.slot

/-- A quantity of the metrics that each request moves by what it records, and by a
property of the record. -/
theorem added {w : RecordPc → Bool → ℤ} {q : Metrics → ℤ} {P : RunRecord → Bool}
    (hinit : q newMetrics = 0) (hzero : ∀ e, w .addTotal e = 0)
    (hrecord : ∀ m r pc o, recordStep m r pc = some o →
      q o.1 = q m - w pc (P r) + w o.2 (P r))
    (hgauge : ∀ m d, q { m with inFlight := d } = q m ∧ q { m with queued := d } = q m)
    (h : (requests getenv reg maxJobs maxQueued).machine.Reach G s) :
    q s.shared.metrics = total (fun c => w c.pc.recordPc (c.records.any P)) s.procs := by
  refine Family.accountingReach (q := fun sh => q sh.metrics) ?_ ?_ ?_ h
  · intro sh hsh
    rw [show sh = newApiState maxJobs maxQueued from hsh]
    exact hinit
  · intro s p a c r hreach _ hc hr
    have hw : c.Wf getenv reg := each_wf hreach p c hc
    unfold HandleCall.Wf at hw
    -- a step that adds nothing to the metrics leaves the weight
    have hkeep : ∀ {m : Metrics} {pc : RecordPc} {e : Bool}, q m = q s.shared.metrics →
        w pc e = w c.pc.recordPc (c.records.any P) →
        q m = q s.shared.metrics - w c.pc.recordPc (c.records.any P) + w pc e := by
      intro m pc e hq hpc
      omega
    cases handleStep_move hr with
    | pass hpc hval =>
        refine hkeep rfl ?_
        rw [hpc]
        rfl
    | reject hpc hval =>
        refine hkeep rfl ?_
        rw [hpc]
        rfl
    | gate hpc ha hm => exact hkeep (hgauge _ _).2 rfl
    | disconnect => exact hkeep rfl rfl
    | refuse hpc hph =>
        refine hkeep rfl ?_
        rw [hpc]
        exact (hzero _).trans (hzero _).symm
    | count hpc hph =>
        refine hkeep (hgauge _ _).1 ?_
        rw [hpc]
        rfl
    | finish hpc =>
        refine hkeep rfl ?_
        rw [hpc]
        exact (hzero _).trans (hzero _).symm
    | @record rec pc o hpc ho =>
        rw [hpc] at hw
        have hP : c.records.any P = P rec := by
          rw [hw.2.2]
          exact Bool.or_false _
        show q o.1 = q s.shared.metrics - w c.pc.recordPc (c.records.any P) +
          w o.2 (c.records.any P)
        rw [hpc, hP]
        exact hrecord _ _ _ _ ho
    | uncount hpc hph =>
        refine hkeep (hgauge _ _).1 ?_
        rw [hpc]
        rfl
    | release hpc hph =>
        refine hkeep (hgauge _ _).2 ?_
        rw [hpc]
        rfl
    | ret hpc hph =>
        refine hkeep rfl ?_
        rw [hpc]
        rfl
  · intro s e r _ hr
    have hr : some (apiEvent s.shared e) = some r := hr
    cases hr
    cases e with
    | request decoded => simp [apiEvent, HandlePc.recordPc, hzero]
    | stop => simp [apiEvent, ApiState.setGate, (hgauge _ _).2]

theorem totalRuns_eq (h : (requests getenv reg maxJobs maxQueued).machine.Reach G s) :
    s.shared.metrics.totalRuns = total (fun c => c.pc.recordPc.inTotal) s.procs :=
  added (w := fun pc _ => pc.inTotal) (q := Metrics.totalRuns) (P := RunRecord.isError)
    rfl (fun _ => rfl) (fun _ _ _ _ ho => (recordStep_move ho).totalRuns) (fun _ _ => ⟨rfl, rfl⟩) h

theorem statuses_eq (h : (requests getenv reg maxJobs maxQueued).machine.Reach G s) :
    sumCounts s.shared.metrics.statuses =
      total (fun c => c.pc.recordPc.inStatuses) s.procs :=
  added (w := fun pc _ => pc.inStatuses) (q := fun m => sumCounts m.statuses)
    (P := RunRecord.isError) rfl (fun _ => rfl)
    (fun _ _ _ _ ho => (recordStep_move ho).statuses) (fun _ _ => ⟨rfl, rfl⟩) h

theorem latency_eq (h : (requests getenv reg maxJobs maxQueued).machine.Reach G s) :
    sumCounts s.shared.metrics.latency =
      total (fun c => c.pc.recordPc.inLatency) s.procs :=
  added (w := fun pc _ => pc.inLatency) (q := fun m => sumCounts m.latency)
    (P := RunRecord.isError) rfl (fun _ => rfl)
    (fun _ _ _ _ ho => (recordStep_move ho).latency) (fun _ _ => ⟨rfl, rfl⟩) h

theorem errors_eq (h : (requests getenv reg maxJobs maxQueued).machine.Reach G s) :
    s.shared.metrics.errors =
      total (fun c => c.pc.recordPc.inErrors c.isError) s.procs :=
  added (w := fun pc e => pc.inErrors e) (q := Metrics.errors) (P := RunRecord.isError)
    rfl (fun _ => rfl) (fun _ _ _ _ ho => (recordStep_move ho).errors) (fun _ _ => ⟨rfl, rfl⟩) h

/-! ## The gauges and the gate -/

theorem inFlight_eq (h : (requests getenv reg maxJobs maxQueued).machine.Reach G s) :
    s.shared.metrics.inFlight = total HandleCall.inFlight s.procs := by
  refine Family.accountingReach (q := fun sh => sh.metrics.inFlight) ?_ ?_ ?_ h
  · intro sh hsh
    rw [show sh = newApiState maxJobs maxQueued from hsh]
    rfl
  · intro s p a c r hreach _ hc hr
    have hw : c.Wf getenv reg := each_wf hreach p c hc
    unfold HandleCall.Wf at hw
    have hadmitted : c.caller.phase = .admitted → c.caller.slot = 1 := fun hph => if_pos hph
    have hfailed : ∀ {e}, c.caller.phase = .failed e → c.caller.slot = 0 := by
      intro e hph
      rw [Caller.slot, hph]
      rfl
    cases handleStep_move hr with
    | pass hpc hval | reject hpc hval | gate hpc ha hm | release hpc hph =>
        show s.shared.metrics.inFlight =
          s.shared.metrics.inFlight - c.pc.inFlight c.caller.slot + HandlePc.inFlight _ _
        simp only [HandleCall.setCaller, HandleCall.setPc, hpc, HandlePc.inFlight]
        omega
    | disconnect => exact (Int.sub_add_cancel _ _).symm
    | refuse hpc hph =>
        show s.shared.metrics.inFlight =
          s.shared.metrics.inFlight - c.pc.inFlight c.caller.slot + c.caller.slot
        rw [hpc, hfailed hph]
        exact (Int.sub_add_cancel _ 0).symm
    | count hpc hph =>
        show s.shared.metrics.inFlight + 1 =
          s.shared.metrics.inFlight - c.pc.inFlight c.caller.slot + 1
        rw [hpc]
        show _ = s.shared.metrics.inFlight - 0 + 1
        omega
    | finish hpc =>
        rw [hpc] at hw
        show s.shared.metrics.inFlight =
          s.shared.metrics.inFlight - c.pc.inFlight c.caller.slot + c.caller.slot
        rw [hpc, hadmitted hw.2.1]
        exact (Int.sub_add_cancel _ 1).symm
    | @record rec pc o hpc ho =>
        show o.1.inFlight =
          s.shared.metrics.inFlight - c.pc.inFlight c.caller.slot + c.caller.slot
        rw [hpc, (recordStep_move ho).inFlight]
        exact (Int.sub_add_cancel _ _).symm
    | uncount hpc hph =>
        show s.shared.metrics.inFlight + -1 =
          s.shared.metrics.inFlight - c.pc.inFlight c.caller.slot + 0
        rw [hpc, hadmitted hph]
        show _ = s.shared.metrics.inFlight - 1 + 0
        omega
    | ret hpc hph =>
        show s.shared.metrics.inFlight =
          s.shared.metrics.inFlight - c.pc.inFlight c.caller.slot + 0
        rw [hpc, hfailed hph]
        exact (Int.sub_add_cancel _ 0).symm
  · intro s e r _ hr
    have hr : some (apiEvent s.shared e) = some r := hr
    cases hr
    cases e with
    | request decoded => simp [apiEvent, HandleCall.inFlight, HandlePc.inFlight]
    | stop => simp [apiEvent, ApiState.setGate]

theorem gate_eq (h : (requests getenv reg maxJobs maxQueued).machine.Reach G s) :
    s.shared.gs.gate.inFlight = total (fun c => c.caller.slot) s.procs := by
  refine Family.accounting (q := fun sh => sh.gs.gate.inFlight) ?_ ?_ ?_ h
  · intro sh hsh
    rw [show sh = newApiState maxJobs maxQueued from hsh]
    rfl
  · intro s p a c r _ _ hr
    cases handleStep_move hr with
    | gate hpc ha hm => exact callerStep_inFlight hm
    | release hpc hph => exact callerStep_inFlight (.release hph)
    | pass | reject | disconnect | refuse | count | finish | record | uncount | ret =>
        exact (Int.sub_add_cancel _ _).symm
  · intro s e r _ hr
    have hr : some (apiEvent s.shared e) = some r := hr
    cases hr
    cases e with
    | request decoded => simp [apiEvent, Caller.slot]
    | stop => simp [apiEvent, ApiState.setGate]

theorem tickets_eq (h : (requests getenv reg maxJobs maxQueued).machine.Reach G s) :
    s.shared.gs.gate.queued = total (fun c => c.caller.waits) s.procs := by
  refine Family.accounting (q := fun sh => sh.gs.gate.queued) ?_ ?_ ?_ h
  · intro sh hsh
    rw [show sh = newApiState maxJobs maxQueued from hsh]
    rfl
  · intro s p a c r _ _ hr
    cases handleStep_move hr with
    | gate hpc ha hm => exact callerStep_queued hm
    | release hpc hph => exact callerStep_queued (.release hph)
    | pass | reject | disconnect | refuse | count | finish | record | uncount | ret =>
        exact (Int.sub_add_cancel _ _).symm
  · intro s e r _ hr
    have hr : some (apiEvent s.shared e) = some r := hr
    cases hr
    cases e with
    | request decoded => simp [apiEvent, Caller.waits, Phase.holds]
    | stop => simp [apiEvent, ApiState.setGate]

/-- `metrics.Queued` is the gate's own count. -/
theorem queued_eq (h : (requests getenv reg maxJobs maxQueued).machine.Reach G s) :
    CountersWf maxJobs maxQueued s.shared.gs ∧
      s.shared.metrics.queued = s.shared.gs.metricsQueued := by
  refine Family.sharedInv (I := fun sh => CountersWf maxJobs maxQueued sh.gs ∧
    sh.metrics.queued = sh.gs.metricsQueued) ?_ ?_ ?_ h
  · intro sh hsh
    rw [show sh = newApiState maxJobs maxQueued from hsh]
    exact ⟨⟨rfl, rfl, Int.le_max_right _ _, Int.le_max_right _ _, rfl⟩, rfl⟩
  · intro s p a c r _ hi _ hr
    cases handleStep_move hr with
    | gate hpc ha hm => exact ⟨hi.1.move hm, rfl⟩
    | release hpc hph => exact ⟨hi.1.release, rfl⟩
    | record hpc ho => exact ⟨hi.1, (recordStep_move ho).queued.trans hi.2⟩
    | pass | reject | disconnect | refuse | count | finish | uncount | ret => exact hi
  · intro s e r _ hi hr
    have hr : some (apiEvent s.shared e) = some r := hr
    cases hr
    cases e with
    | request decoded => exact hi
    | stop => exact ⟨hi.1.stop, rfl⟩

/-! ## When no request is in progress -/

/-- A request that is over has added all of its record or nothing, and is out of
the gauges. -/
structure Settled (c : HandleCall) : Prop where
  inTotal : c.pc.recordPc.inTotal = if c.reachedGate then 1 else 0
  inStatuses : c.pc.recordPc.inStatuses = c.pc.recordPc.inTotal
  inLatency : c.pc.recordPc.inLatency = c.pc.recordPc.inTotal
  inErrors : c.pc.recordPc.inErrors c.isError =
    ((c.records.filter RunRecord.isError).length : ℤ)
  inFlight : c.inFlight = 0
  slot : c.caller.slot = 0
  waits : c.caller.waits = 0

theorem HandleCall.Wf.settled {c : HandleCall} (hw : c.Wf getenv reg)
    (hf : c.finished = true) : Settled c := by
  obtain ⟨decoded, caller, pc, records⟩ := c
  cases pc with
  | rejected =>
      obtain ⟨-, hph, hrec⟩ := hw
      simp only at hph hrec
      refine ⟨rfl, rfl, rfl, ?_, rfl, ?_, ?_⟩
      · rw [hrec]
        rfl
      · simp only [Caller.slot, hph]
        rfl
      · simp only [Caller.waits, hph]
        rfl
  | returned =>
      obtain ⟨-, hph, r, hrec⟩ := hw
      simp only at hph hrec
      refine ⟨rfl, rfl, rfl, ?_, rfl, ?_, ?_⟩
      · rw [hrec]
        cases he : r.isError <;>
          simp [HandlePc.recordPc, RecordPc.inErrors, HandleCall.isError, he]
      · rcases hph with hph | ⟨e, hph⟩ <;> simp [Caller.slot, hph]
      · rcases hph with hph | ⟨e, hph⟩ <;> simp [Caller.waits, hph, Phase.holds]
  | validating | acquiring | running | recording | releasing => cases hf

theorem countedOnce (h : (requests getenv reg maxJobs maxQueued).machine.Reach G s)
    (hquiet : Quiet s) : CountedOnce s := by
  have hsettled : ∀ c ∈ s.procs, Settled c := by
    intro c hc
    obtain ⟨p, hp⟩ := List.getElem?_of_mem hc
    have hw : c.Wf getenv reg := each_wf h p c hp
    exact hw.settled (hquiet c hc)
  refine ⟨?_, ?_, ?_, ?_, ?_, ?_, ?_⟩
  · rw [totalRuns_eq h, ← total_eq_countP]
    exact total_congr fun c hc => (hsettled c hc).inTotal
  · rw [totalRuns_eq h, statuses_eq h]
    exact total_congr fun c hc => (hsettled c hc).inStatuses
  · rw [totalRuns_eq h, latency_eq h]
    exact total_congr fun c hc => (hsettled c hc).inLatency
  · rw [errors_eq h, errorRecords, List.filter_flatMap, length_flatMap_eq_total]
    exact total_congr fun c hc => (hsettled c hc).inErrors
  · rw [inFlight_eq h]
    exact total_zero fun c hc => (hsettled c hc).inFlight
  · obtain ⟨hcounters, hqueued⟩ := queued_eq h
    rw [hqueued, hcounters.metrics, tickets_eq h]
    exact total_zero fun c hc => (hsettled c hc).waits
  · rw [gate_eq h]
    exact total_zero fun c hc => (hsettled c hc).slot

/-- What each request records by its end. -/
theorem recorded_of_finished
    (h : (requests getenv reg maxJobs maxQueued).machine.Reach G s) {c : HandleCall}
    (hc : c ∈ s.procs) (hf : c.finished = true) :
    (Passes getenv reg c ↔ c.reachedGate = true) ∧
      c.records.length = if c.reachedGate then 1 else 0 := by
  obtain ⟨p, hp⟩ := List.getElem?_of_mem hc
  have hw : c.Wf getenv reg := each_wf h p c hp
  obtain ⟨decoded, caller, pc, records⟩ := c
  cases pc with
  | rejected =>
      obtain ⟨hfails, -, hrec⟩ := hw
      refine ⟨⟨fun hpass => absurd hpass hfails, fun hg => by cases hg⟩, ?_⟩
      rw [show records = [] from hrec]
      rfl
  | returned =>
      obtain ⟨hpass, -, r, hrec⟩ := hw
      refine ⟨⟨fun _ => rfl, fun _ => hpass⟩, ?_⟩
      rw [show records = [r] from hrec]
      rfl
  | validating | acquiring | running | recording | releasing => cases hf

/-- Runs are counted exactly once. Whatever the requests, their outcomes and the
order of their steps: a request that passes its validation reaches the gate and
has recorded itself once by its end, one that does not records nothing, and
when no request is in progress the metrics count each of the former once and
the gauges are zero. -/
theorem runs_counted_once
    (h : (requests getenv reg maxJobs maxQueued).machine.Reachable s) :
    (∀ c ∈ s.procs, c.records.length ≤ 1 ∧ (c.reachedGate = false → c.records = [])) ∧
    (∀ c ∈ s.procs, c.finished = true →
      (Passes getenv reg c ↔ c.reachedGate = true) ∧
        c.records.length = if c.reachedGate then 1 else 0) ∧
    (Quiet s → CountedOnce s) := by
  refine ⟨fun c hc => ?_, fun c hc hf => recorded_of_finished h hc hf, countedOnce h⟩
  obtain ⟨p, hp⟩ := List.getElem?_of_mem hc
  have hw : c.Wf getenv reg := each_wf h p c hp
  obtain ⟨decoded, caller, pc, records⟩ := c
  cases pc with
  | validating =>
      rw [show records = [] from hw.2]
      exact ⟨Nat.zero_le _, fun _ => rfl⟩
  | rejected | acquiring | running =>
      rw [show records = [] from hw.2.2]
      exact ⟨Nat.zero_le _, fun _ => rfl⟩
  | recording r pc =>
      rw [show records = [r] from hw.2.2]
      exact ⟨Nat.le_refl _, fun hg => by cases hg⟩
  | releasing | returned =>
      obtain ⟨r, hrec⟩ := hw.2.2
      rw [show records = [r] from hrec]
      exact ⟨Nat.le_refl _, fun hg => by cases hg⟩

end

/-! ## A run, a request that is not valid, and one that comes too late -/

/-- The four steps of `recordRun`. -/
def recordAll (p : ℕ) : List (Act HandleAct ApiEvent) := List.replicate 4 (.own p .record)

def okBuild : BuildResult :=
  { status := .ok, stdout := [], stderr := [], durationMs := 0, cpuTimeMs := 0 }

def threeRequests : List (Act HandleAct ApiEvent) :=
  [.env (.request (.ok (pyRequest []))), .env (.request (.error (str "unexpected EOF"))),
    .env (.request (.ok (pyRequest []))), .own 1 .validate, .own 0 .validate,
    .own 0 (.gate .enter), .own 0 .count, .own 2 .validate, .env .stop,
    .own 2 (.gate .enter), .own 0 (.finish okBuild [] none 120000000),
    .own 2 (.refuse 1000)] ++ recordAll 2 ++ recordAll 0 ++
  [.own 2 .ret, .own 0 .uncount, .own 0 .release]

theorem runs_counted_once_three :
    ∃ s, (requests (fun _ => []) pyRegistry 1 1).machine.exec ⟨newApiState 1 1, []⟩
        threeRequests = some s ∧ CountedOnce s ∧
      s.shared.metrics.totalRuns = 2 ∧ s.shared.metrics.errors = 1 := by
  have hr := Machine.reachable_of_exec
    (M := (requests (fun _ => []) pyRegistry 1 1).machine) (s := ⟨newApiState 1 1, []⟩)
    threeRequests ⟨rfl, rfl⟩ rfl
  refine ⟨_, rfl, (runs_counted_once hr).2.2 fun c hc => ?_, rfl, rfl⟩
  exact List.all_eq_true.mp (show List.all _ HandleCall.finished = true from rfl) c hc

end Goboxd.Api
