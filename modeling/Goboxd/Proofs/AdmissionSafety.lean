import Goboxd.Proofs.NoLostWakeup

/-!
# What the counters of the gate count

`inFlight` and `queued` are plain integers that five exits of `acquire`, the
deferred `release` and `Stop` move up and down. Each of them is the number of
callers in some phase, by the accounting rule: whatever step a caller takes, the
counter moves with its weight. The bounds are then the guards under which the
counters grow.

Two things are left. A stopped gate admits nobody, which is a fact about single
steps that a run carries along. And a second `Stop` finds nobody to wake: it may
mint another channel, but no caller holds the one it closes.
-/

namespace Goboxd.Api

open Family

/-- One for a caller that holds a slot, zero for any other. -/
def Caller.slot (c : Caller) : ℤ := if c.phase = .admitted then 1 else 0

/-- `release` is called by admitted callers, each for itself, and by nobody
else. -/
def OwnRelease (_ : St GateState Caller) (a : Act CallerAct GateEvent) : Prop :=
  a ≠ .env .strayRelease

/-- What holds of the gate at any moment. A limit below zero, which the
environment cannot set, admits as few as the limit zero. -/
structure AdmissionSafe (maxJobs maxQueued : Int) (s : St GateState Caller) :
    Prop where
  inFlight_nonneg : 0 ≤ s.shared.gate.inFlight
  inFlight_le : s.shared.gate.inFlight ≤ max maxJobs 0
  queued_nonneg : 0 ≤ s.shared.gate.queued
  queued_le : s.shared.gate.queued ≤ max maxQueued 0
  metrics : s.shared.metricsQueued = s.shared.gate.queued
  slots : s.shared.gate.inFlight = s.procs.countP fun c => c.phase = .admitted
  tickets : s.shared.gate.queued = s.procs.countP fun c => c.phase.holds.isSome
  channels : s.shared.panicked = false

/-- A caller whose `acquire` returns an error takes its ticket out of the queue
with the same step, and no slot. -/
def TicketReturned (maxJobs maxQueued : Int) (s : St GateState Caller) : Prop :=
  ∀ (p : ℕ) a t c c' e, (admission maxJobs maxQueued).machine.step s (.own p a) = some t →
    s.procs[p]? = some c → t.procs[p]? = some c' → c.phase ≠ c'.phase →
    c'.phase = .failed e →
    t.shared.gate.queued = s.shared.gate.queued - c.waits ∧
      t.shared.gate.inFlight = s.shared.gate.inFlight

/-- From here on no `acquire` returns nil. -/
def ClosedForGood (maxJobs maxQueued : Int) (s : St GateState Caller) : Prop :=
  ∀ as t, (admission maxJobs maxQueued).machine.exec s as = some t →
    t.shared.gate.stopped = true ∧
      t.shared.gate.inFlight ≤ s.shared.gate.inFlight ∧
      ∀ (p : ℕ) c', t.procs[p]? = some c' → c'.phase = .admitted →
        ∃ c, s.procs[p]? = some c ∧ c.phase = .admitted

/-- Another `Stop` changes nothing but the channel that nobody waits on: every
step a caller can take has the same outcome for it. -/
structure StopIdempotent (s : St GateState Caller) : Prop where
  gate : (stop s.shared).gate =
    { s.shared.gate with broadcast := (stop s.shared).gate.broadcast }
  metrics : (stop s.shared).metricsQueued = s.shared.metricsQueued
  channels : (stop s.shared).panicked = false
  callers : ∀ (p : ℕ) c a, s.procs[p]? = some c →
    (callerStep (stop s.shared) c a).map Prod.snd =
      (callerStep s.shared c a).map Prod.snd

/-! ## What a step does to the counters -/

@[simp] theorem renewBroadcast_inFlight (s : GateState) :
    (renewBroadcast s).gate.inFlight = s.gate.inFlight := by
  simp [renewBroadcast]

@[simp] theorem release_inFlight (s : GateState) :
    (release s).gate.inFlight = s.gate.inFlight - 1 := by
  unfold release
  simp only []
  split <;> simp

@[simp] theorem stop_inFlight (s : GateState) :
    (stop s).gate.inFlight = s.gate.inFlight := by
  unfold stop
  simp only []
  split <;> simp

theorem callerStep_inFlight {s : GateState} {c : Caller} {a : CallerAct}
    {r : GateState × Caller} (h : CallerMove s c a r) :
    r.1.gate.inFlight = s.gate.inFlight - c.slot + r.2.slot := by
  cases h with
  | enter hc =>
      unfold acquireEnter
      simp only []
      (repeat' split) <;> simp [Caller.slot, Verdict.phase, hc]
  | recheck hc =>
      unfold acquireRecheck leaveQueue
      (repeat' split) <;> simp [Caller.slot, Verdict.phase, hc]
  | takeBroadcast hc _ | takeDone hc _ | cancel hc | release hc =>
      simp [Caller.slot, leaveQueue, hc]
  | ctxCancel => simp [Caller.slot]

/-- What the counters are bounded by, and that `metrics.Queued` mirrors one of
them. -/
structure CountersWf (maxJobs maxQueued : Int) (s : GateState) : Prop where
  jobs : s.gate.maxJobs = maxJobs
  queue : s.gate.maxQueued = maxQueued
  inFlight : s.gate.inFlight ≤ max maxJobs 0
  queued : s.gate.queued ≤ max maxQueued 0
  metrics : s.metricsQueued = s.gate.queued

section

variable {maxJobs maxQueued : Int} {s : St GateState Caller}

theorem CountersWf.renew {sh : GateState} (h : CountersWf maxJobs maxQueued sh) :
    CountersWf maxJobs maxQueued (renewBroadcast sh) := by
  obtain ⟨hj, hq, hi, hn, hm⟩ := h
  refine ⟨?_, ?_, ?_, ?_, ?_⟩ <;> unfold renewBroadcast closeChan <;>
    simp only [] <;> split <;> assumption

theorem CountersWf.release {sh : GateState} (h : CountersWf maxJobs maxQueued sh) :
    CountersWf maxJobs maxQueued (release sh) := by
  have hless : CountersWf maxJobs maxQueued
      { sh with gate := { sh.gate with inFlight := sh.gate.inFlight - 1 } } :=
    { h with inFlight := by have := h.inFlight; simp only []; omega }
  unfold Api.release
  simp only []
  split
  · exact hless.renew
  · exact hless

theorem CountersWf.stop {sh : GateState} (h : CountersWf maxJobs maxQueued sh) :
    CountersWf maxJobs maxQueued (stop sh) := by
  have hstop : CountersWf maxJobs maxQueued
      { sh with gate := { sh.gate with stopped := true } } := { h with }
  unfold Api.stop
  simp only []
  split
  · exact hstop.renew
  · exact hstop

theorem CountersWf.leaveQueue {sh : GateState} (h : CountersWf maxJobs maxQueued sh) :
    CountersWf maxJobs maxQueued (leaveQueue sh) := by
  obtain ⟨hj, hq, hi, hn, hm⟩ := h
  exact ⟨hj, hq, hi, by simp only [Api.leaveQueue]; omega,
    by simp only [Api.leaveQueue]; omega⟩

theorem CountersWf.enter {sh : GateState} (h : CountersWf maxJobs maxQueued sh) :
    CountersWf maxJobs maxQueued (acquireEnter sh).1 := by
  obtain ⟨hj, hq, hi, hn, hm⟩ := h
  unfold acquireEnter
  simp only []
  repeat' split
  · exact ⟨hj, hq, hi, hn, hm⟩
  · exact ⟨hj, hq, by simp only []; omega, hn, hm⟩
  · exact ⟨hj, hq, hi, hn, hm⟩
  · exact ⟨hj, hq, hi, by simp only []; omega, by simp only []; omega⟩

theorem CountersWf.recheck {sh : GateState} (h : CountersWf maxJobs maxQueued sh) :
    CountersWf maxJobs maxQueued (acquireRecheck sh).1 := by
  unfold acquireRecheck
  repeat' split
  · exact h.leaveQueue
  · next hfree =>
      obtain ⟨hj, hq, -, hn, hm⟩ := h.leaveQueue
      rw [h.jobs] at hfree
      exact ⟨hj, hq, by simp only [Api.leaveQueue]; omega, hn, hm⟩
  · exact h

theorem CountersWf.move {sh : GateState} {c : Caller} {a : CallerAct}
    {r : GateState × Caller} (h : CountersWf maxJobs maxQueued sh)
    (hm : CallerMove sh c a r) : CountersWf maxJobs maxQueued r.1 := by
  cases hm with
  | enter => exact h.enter
  | recheck => exact h.recheck
  | takeBroadcast | takeDone | ctxCancel => exact h
  | cancel => exact h.leaveQueue
  | release => exact h.release

theorem countersWf (h : (admission maxJobs maxQueued).machine.Reachable s) :
    CountersWf maxJobs maxQueued s.shared := by
  refine Family.sharedInv ?_ ?_ ?_ h
  · rintro sh rfl
    exact ⟨rfl, rfl, Int.le_max_right _ _, Int.le_max_right _ _, rfl⟩
  · intro s p a c r _ hw _ hr
    exact hw.move (callerStep_move hr)
  · intro s e r _ hw hr
    cases e <;> cases hr
    · exact hw
    · exact hw.stop
    · exact hw.release

/-! ## No closed channel is closed -/

theorem renewBroadcast_panicked {sh : GateState} (h : ChansWf sh) :
    (renewBroadcast sh).panicked = sh.panicked := by
  simp [renewBroadcast, closeChan, h.open_]

theorem release_panicked {sh : GateState} (h : ChansWf sh) :
    (release sh).panicked = sh.panicked := by
  unfold release
  simp only []
  split
  · exact renewBroadcast_panicked ⟨h.open_, h.made, h.closed⟩
  · rfl

theorem stop_panicked {sh : GateState} (h : ChansWf sh) :
    (stop sh).panicked = sh.panicked := by
  unfold stop
  simp only []
  split
  · exact renewBroadcast_panicked ⟨h.open_, h.made, h.closed⟩
  · rfl

theorem acquireEnter_panicked (sh : GateState) :
    (acquireEnter sh).1.panicked = sh.panicked := by
  unfold acquireEnter
  simp only []
  (repeat' split) <;> rfl

theorem acquireRecheck_panicked (sh : GateState) :
    (acquireRecheck sh).1.panicked = sh.panicked := by
  unfold acquireRecheck leaveQueue
  (repeat' split) <;> rfl

theorem not_panicked (h : (admission maxJobs maxQueued).machine.Reachable s) :
    s.shared.panicked = false := by
  refine h.invariant (I := fun s => s.shared.panicked = false) ?_ ?_
  · rintro s ⟨hsh, -⟩
    rw [show s.shared = newAdmissionGate maxJobs maxQueued from hsh]
    rfl
  · intro s a t hreach hp _ hs
    have hwf := chansWf hreach
    cases a with
    | own p a =>
        obtain ⟨c, r, -, hr, rfl⟩ := step_own.mp hs
        cases callerStep_move hr with
        | enter => rw [acquireEnter_panicked, hp]
        | recheck => rw [acquireRecheck_panicked, hp]
        | takeBroadcast | takeDone | ctxCancel | cancel => exact hp
        | release => rw [release_panicked hwf, hp]
    | env e =>
        obtain ⟨r, hr, rfl⟩ := step_env.mp hs
        cases e <;> cases hr
        · exact hp
        · rw [stop_panicked hwf, hp]
        · rw [release_panicked hwf, hp]

/-! ## The counters are numbers of callers -/

theorem inFlight_eq_slots
    (h : (admission maxJobs maxQueued).machine.Reach OwnRelease s) :
    s.shared.gate.inFlight = total Caller.slot s.procs := by
  refine Family.accounting (q := fun sh => sh.gate.inFlight) ?_ ?_ ?_ h
  · rintro sh rfl
    rfl
  · exact fun s p a c r _ _ hr => callerStep_inFlight (callerStep_move hr)
  · intro s e r hown hr
    cases e <;> cases hr
    · simp [Caller.slot]
    · simp
    · exact absurd rfl hown

theorem admissionSafe
    (h : (admission maxJobs maxQueued).machine.Reach OwnRelease s) :
    AdmissionSafe maxJobs maxQueued s := by
  have hslots : s.shared.gate.inFlight =
      s.procs.countP fun c => c.phase = .admitted := by
    rw [inFlight_eq_slots h, ← total_eq_countP]
    simp only [decide_eq_true_eq]
    rfl
  have htickets : s.shared.gate.queued =
      s.procs.countP fun c => c.phase.holds.isSome :=
    (queued_eq_waiters h.reachable).trans (total_eq_countP _ _)
  obtain ⟨-, -, hi, hn, hm⟩ := countersWf h.reachable
  exact ⟨by omega, hi, by omega, hn, hm, hslots, htickets, not_panicked h.reachable⟩

theorem ticketReturned (maxJobs maxQueued : Int) (s : St GateState Caller) :
    TicketReturned maxJobs maxQueued s := by
  intro p a t c c' e hs hc hc' hne he
  obtain ⟨c₀, r, hc₀, hr, rfl⟩ := step_own.mp hs
  rw [hc] at hc₀
  cases hc₀
  rw [getElem?_set_self hc] at hc'
  cases hc'
  have hmove := callerStep_move hr
  have hq := callerStep_queued hmove
  have hi := callerStep_inFlight hmove
  have hw' : r.2.waits = 0 := by rw [Caller.waits, he]; rfl
  have hs' : r.2.slot = 0 := by rw [Caller.slot, he]; rfl
  refine ⟨by simp only []; omega, ?_⟩
  -- a caller with a slot does not come to an error
  have hslot : c.slot = 0 := by
    cases hmove with
    | release => cases he
    | ctxCancel => exact absurd rfl hne
    | enter h | takeBroadcast h | recheck h | takeDone h | cancel h =>
        rw [Caller.slot, h]
        rfl
  simp only []
  omega

/-! ## After `Stop` -/

theorem stopped_step {t : St GateState Caller} {a : Act CallerAct GateEvent}
    (hstop : s.shared.gate.stopped = true)
    (hs : (admission maxJobs maxQueued).machine.step s a = some t) :
    t.shared.gate.stopped = true ∧
      t.shared.gate.inFlight ≤ s.shared.gate.inFlight ∧
      ∀ (p : ℕ) c', t.procs[p]? = some c' → c'.phase = .admitted →
        ∃ c, s.procs[p]? = some c ∧ c.phase = .admitted := by
  cases a with
  | own p a =>
      obtain ⟨c, r, hc, hr, rfl⟩ := step_own.mp hs
      have hmove := callerStep_move hr
      have hstep : r.1.gate.stopped = true ∧
          r.1.gate.inFlight ≤ s.shared.gate.inFlight ∧
          (r.2.phase = .admitted → c.phase = .admitted) := by
        cases hmove with
        | enter => simp [acquireEnter, hstop, Verdict.phase]
        | recheck => simp [acquireRecheck, hstop, leaveQueue, Verdict.phase]
        | takeBroadcast | takeDone => simp [hstop]
        | cancel => simp [leaveQueue, hstop]
        | release => exact ⟨by simp [hstop], by rw [release_inFlight]; omega, by simp⟩
        | ctxCancel => simp [hstop]
      refine ⟨hstep.1, hstep.2.1, fun q c' hc' hadm => ?_⟩
      rcases getElem?_set_cases hc' with ⟨rfl, rfl⟩ | ⟨-, hq⟩
      · exact ⟨c, hc, hstep.2.2 hadm⟩
      · exact ⟨c', hq, hadm⟩
  | env e =>
      obtain ⟨r, hr, rfl⟩ := step_env.mp hs
      have hstep : r.1.gate.stopped = true ∧
          r.1.gate.inFlight ≤ s.shared.gate.inFlight ∧
          ∀ c ∈ r.2, c.phase ≠ .admitted := by
        cases e <;> cases hr
        · simp [hstop]
        · simp
        · exact ⟨by simp [hstop], by rw [release_inFlight]; omega, List.forall_mem_nil _⟩
      refine ⟨hstep.1, hstep.2.1, fun q c' hc' hadm => ?_⟩
      rcases getElem?_append_cases hc' with hq | ⟨k, -, hk⟩
      · exact ⟨c', hq, hadm⟩
      · exact absurd hadm (hstep.2.2 c' (List.mem_of_getElem? hk))

theorem closedForGood (hstop : s.shared.gate.stopped = true) :
    ClosedForGood maxJobs maxQueued s := by
  intro as
  induction as generalizing s with
  | nil =>
      intro t he
      cases he
      exact ⟨hstop, Int.le_refl _, fun p c' hc' hadm => ⟨c', hc', hadm⟩⟩
  | cons a as ih =>
      intro t he
      rw [Machine.exec_cons, Option.bind_eq_some_iff] at he
      obtain ⟨u, hu, he⟩ := he
      obtain ⟨hstop', hle, hadm⟩ := stopped_step hstop hu
      obtain ⟨ht, hle', hadm'⟩ := ih hstop' t he
      refine ⟨ht, Int.le_trans hle' hle, fun p c' hc' hph => ?_⟩
      obtain ⟨c, hc, hph'⟩ := hadm' p c' hc' hph
      exact hadm p c hc hph'

theorem stop_same_outcome {sh : GateState} {c : Caller} (a : CallerAct)
    (hstop : sh.gate.stopped = true)
    (hheld : ∀ b, c.phase.holds = some b → b ∈ sh.closed) :
    (callerStep (stop sh) c a).map Prod.snd = (callerStep sh c a).map Prod.snd := by
  have hheld' : ∀ b, c.phase.holds = some b → b ∈ (stop sh).closed := by
    intro b hb
    have hcl := hheld b hb
    unfold stop renewBroadcast
    simp only []
    split
    · exact mem_closeChan.mpr (.inr hcl)
    · exact hcl
  cases a with
  | enter =>
      simp only [callerStep]
      split
      · simp [acquireEnter, hstop]
      · rfl
  | takeBroadcast =>
      simp only [callerStep]
      split
      · next b hb =>
          have hmem : c.phase.holds = some b := by rw [hb]; rfl
          rw [if_pos (hheld b hmem), if_pos (hheld' b hmem)]
          rfl
      · rfl
  | recheck =>
      simp only [callerStep]
      split
      · simp [acquireRecheck, hstop]
      · rfl
  | takeDone =>
      simp only [callerStep]
      split
      · split <;> rfl
      · rfl
  | cancel | release =>
      simp only [callerStep]
      split <;> rfl
  | ctxCancel => rfl

theorem stopIdempotent (h : (admission maxJobs maxQueued).machine.Reachable s)
    (hstop : s.shared.gate.stopped = true) : StopIdempotent s := by
  refine ⟨?_, ?_, ?_, fun p c a hc => stop_same_outcome a hstop fun b hb => ?_⟩
  · unfold stop renewBroadcast
    simp only []
    split <;> simp [← hstop]
  · unfold stop renewBroadcast closeChan
    simp only []
    (repeat' split) <;> rfl
  · rw [stop_panicked (chansWf h), not_panicked h]
  · rcases held_covered h p c hc b hb with hcl | ⟨-, -, hopen⟩
    · exact hcl
    · rw [hstop] at hopen
      cases hopen

/-- Admission safety. In every run in which only admitted callers release, each
for itself, the counters of the gate are within their bounds and count the
callers they are meant to count, `metrics.Queued` mirrors the queue, and no
closed channel is closed. An `acquire` that returns an error has given its
ticket back. Once the gate is stopped nobody is admitted any more, whatever
happens, and stopping it again makes no difference to anyone. -/
theorem admission_safety
    (h : (admission maxJobs maxQueued).machine.Reach OwnRelease s) :
    AdmissionSafe maxJobs maxQueued s ∧ TicketReturned maxJobs maxQueued s ∧
      (s.shared.gate.stopped = true →
        ClosedForGood maxJobs maxQueued s ∧ StopIdempotent s) :=
  ⟨admissionSafe h, ticketReturned maxJobs maxQueued s,
    fun hstop => ⟨closedForGood hstop, stopIdempotent h.reachable hstop⟩⟩

end

/-- One slot, taken; a second caller is queued when the gate is stopped. -/
def stopRun : List (Act CallerAct GateEvent) :=
  [.env .call, .env .call, .own 0 .enter, .own 1 .enter, .env .stop,
    .own 1 .takeBroadcast, .own 1 .recheck]

def ownReleaseCheck (_ : St GateState Caller) : Act CallerAct GateEvent → Bool
  | .env .strayRelease => false
  | _ => true

theorem ownReleaseCheck_sound (s : St GateState Caller)
    (a : Act CallerAct GateEvent) (h : ownReleaseCheck s a = true) :
    OwnRelease s a := by
  rintro rfl
  cases h

theorem admission_safety_stopped :
    ∃ s, (admission 1 1).machine.exec ⟨newAdmissionGate 1 1, []⟩ stopRun = some s ∧
      s.procs.map Caller.phase = [.admitted, .failed .errShuttingDown] ∧
      AdmissionSafe 1 1 s ∧ ClosedForGood 1 1 s ∧ StopIdempotent s := by
  have hinit : (admission 1 1).machine.init ⟨newAdmissionGate 1 1, []⟩ :=
    ⟨rfl, rfl⟩
  have hr := Machine.reach_of_execIf ownReleaseCheck_sound stopRun
    (.start hinit) rfl
  have hsafe := admission_safety hr
  exact ⟨_, rfl, rfl, hsafe.1, hsafe.2.2 rfl⟩

end Goboxd.Api
