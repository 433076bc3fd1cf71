import Goboxd.Api.Admission

/-!
# No waiter of the gate sleeps through a wakeup

A queued caller waits on a channel it captured privately, under the mutex, at
some earlier time. The counters and the current channel have moved since, and
nothing in the caller records how. The invariant that ties them together is
that a channel held by a waiter is either closed already, or is the current
one and the gate is full and open for business: `release` and `Stop` are the
only sections that can end fullness, and both close the current channel when
anyone is queued.

That last condition reads `queued`, a counter, where the argument needs a
waiter. The two agree because every section of `acquire` that puts a caller in
the queue or takes it out moves the counter with it; this is the accounting
rule of `Family`, applied to the weight of a waiter.
-/

namespace Goboxd.Api

/-- One for a caller that is counted in `queued`, zero for any other. -/
def Caller.waits (c : Caller) : ℤ := if c.phase.holds.isSome then 1 else 0

theorem Caller.waits_nonneg (c : Caller) : 0 ≤ c.waits := by
  unfold Caller.waits
  split <;> omega

theorem Caller.waits_eq_one {c : Caller} {b : Chan}
    (h : c.phase.holds = some b) : c.waits = 1 := by
  rw [Caller.waits, h]
  rfl

/-! ## What the critical sections do to the queue and to the channels -/

@[simp] theorem closeChan_gate (s : GateState) (c : Chan) :
    (closeChan s c).gate = s.gate := by
  unfold closeChan
  split <;> rfl

@[simp] theorem closeChan_made (s : GateState) (c : Chan) :
    (closeChan s c).made = s.made := by
  unfold closeChan
  split <;> rfl

theorem mem_closeChan {s : GateState} {b c : Chan} :
    b ∈ (closeChan s c).closed ↔ b = c ∨ b ∈ s.closed := by
  unfold closeChan
  split
  · next hc => exact ⟨Or.inr, fun h => h.elim (fun h => h ▸ hc) id⟩
  · exact List.mem_cons

@[simp] theorem renewBroadcast_queued (s : GateState) :
    (renewBroadcast s).gate.queued = s.gate.queued := by
  simp [renewBroadcast]

@[simp] theorem release_queued (s : GateState) :
    (release s).gate.queued = s.gate.queued := by
  unfold release
  simp only []
  split <;> simp

@[simp] theorem stop_queued (s : GateState) :
    (stop s).gate.queued = s.gate.queued := by
  unfold stop
  simp only []
  split <;> simp

theorem enter_queued (s : GateState) (d : Bool) :
    (acquireEnter s).1.gate.queued =
      s.gate.queued + Caller.waits ⟨(acquireEnter s).2.phase, d⟩ := by
  unfold acquireEnter
  simp only []
  repeat' split
  all_goals simp [Caller.waits, Verdict.phase, Phase.holds]

theorem recheck_queued (s : GateState) (d : Bool) :
    (acquireRecheck s).1.gate.queued =
      s.gate.queued - 1 + Caller.waits ⟨(acquireRecheck s).2.phase, d⟩ := by
  unfold acquireRecheck leaveQueue
  repeat' split
  all_goals simp [Caller.waits, Verdict.phase, Phase.holds]

theorem callerStep_queued {s : GateState} {c : Caller} {a : CallerAct}
    {r : GateState × Caller} (h : CallerMove s c a r) :
    r.1.gate.queued = s.gate.queued - c.waits + r.2.waits := by
  cases h with
  | enter hc =>
      have hw : c.waits = 0 := by rw [Caller.waits, hc]; rfl
      rw [enter_queued s c.ctxDone, hw, Int.sub_zero]
  | takeBroadcast hc _ | takeDone hc _ =>
      simp [Caller.waits, hc, Phase.holds]
  | recheck hc =>
      have hw : c.waits = 1 := by rw [Caller.waits, hc]; rfl
      rw [recheck_queued s c.ctxDone, hw]
  | cancel hc => simp [leaveQueue, Caller.waits, hc, Phase.holds]
  | release hc => simp [Caller.waits, hc, Phase.holds]
  | ctxCancel => simp [Caller.waits]

/-- The channels are in order: the current one is open, and the next one made
will be new. -/
structure ChansWf (s : GateState) : Prop where
  open_ : s.gate.broadcast ∉ s.closed
  made : s.gate.broadcast < s.made
  closed : ∀ b ∈ s.closed, b < s.made

theorem ChansWf.renew {s : GateState} (h : ChansWf s) :
    ChansWf (renewBroadcast s) := by
  refine ⟨?_, ?_, ?_⟩
  · simp only [renewBroadcast, closeChan_made, mem_closeChan, not_or]
    exact ⟨fun hb => absurd h.made (hb ▸ Nat.lt_irrefl _),
      fun hb => absurd (h.closed _ hb) (Nat.lt_irrefl _)⟩
  · simp [renewBroadcast]
  · intro b hb
    simp only [renewBroadcast, closeChan_made, mem_closeChan] at hb ⊢
    rcases hb with rfl | hb
    · exact Nat.lt_succ_of_lt h.made
    · exact Nat.lt_succ_of_lt (h.closed b hb)

theorem ChansWf.release {s : GateState} (h : ChansWf s) :
    ChansWf (release s) := by
  unfold Api.release
  simp only []
  split
  · exact ChansWf.renew ⟨h.open_, h.made, h.closed⟩
  · exact ⟨h.open_, h.made, h.closed⟩

theorem ChansWf.stop {s : GateState} (h : ChansWf s) : ChansWf (stop s) := by
  unfold Api.stop
  simp only []
  split
  · exact ChansWf.renew ⟨h.open_, h.made, h.closed⟩
  · exact ⟨h.open_, h.made, h.closed⟩

/-- A channel a waiter may hold without being stranded: closed already, or
current while the gate is full and not stopped. -/
def Covered (s : GateState) (b : Chan) : Prop :=
  b ∈ s.closed ∨
    (b = s.gate.broadcast ∧ s.gate.maxJobs ≤ s.gate.inFlight ∧
      s.gate.stopped = false)

theorem Covered.renew {s t : GateState} {b : Chan} (h : Covered s b)
    (hc : t.closed = s.closed) (hb : t.gate.broadcast = s.gate.broadcast) :
    Covered (renewBroadcast t) b := by
  refine .inl ?_
  simp only [renewBroadcast, mem_closeChan, hc, hb]
  exact h.elim .inr fun h => .inl h.1

/-- `release` and `Stop` cover what they uncover, as long as the waiter that
holds the channel is counted. -/
theorem Covered.release {s : GateState} {b : Chan} (h : Covered s b)
    (hq : 0 < s.gate.queued) : Covered (release s) b := by
  unfold Api.release
  simp only []
  rw [if_pos hq]
  exact h.renew rfl rfl

theorem Covered.stop {s : GateState} {b : Chan} (h : Covered s b)
    (hq : 0 < s.gate.queued) : Covered (stop s) b := by
  unfold Api.stop
  simp only []
  rw [if_pos hq]
  exact h.renew rfl rfl

theorem Covered.enter {s : GateState} {b : Chan} (h : Covered s b) :
    Covered (acquireEnter s).1 b := by
  unfold acquireEnter
  simp only []
  repeat' split
  · exact h
  · exact h.imp id fun ⟨hb, hfull, hs⟩ => ⟨hb, by simp only []; omega, hs⟩
  · exact h
  · exact h

theorem Covered.recheck {s : GateState} {b : Chan} (h : Covered s b) :
    Covered (acquireRecheck s).1 b := by
  unfold acquireRecheck leaveQueue
  simp only []
  repeat' split
  · exact h
  · exact h.imp id fun ⟨hb, hfull, hs⟩ => ⟨hb, by simp only []; omega, hs⟩
  · exact h

/-- Only `acquire` can make its caller hold a channel, and the one it captures
is covered at that moment. -/
theorem enter_covered {s : GateState} {b : Chan}
    (h : (acquireEnter s).2.phase.holds = some b) :
    Covered (acquireEnter s).1 b := by
  unfold acquireEnter at h ⊢
  simp only [] at h ⊢
  split at h
  · cases h
  · next hs =>
      split at h
      · cases h
      · next hfull =>
          split at h
          · cases h
          · next hq =>
              rw [if_neg hs, if_neg hfull, if_neg hq]
              cases h
              exact .inr ⟨rfl, by simp only []; omega, by simpa using hs⟩

theorem recheck_covered {s : GateState} {b : Chan}
    (h : (acquireRecheck s).2.phase.holds = some b) :
    Covered (acquireRecheck s).1 b := by
  unfold acquireRecheck at h ⊢
  simp only [] at h ⊢
  split at h
  · cases h
  · next hs =>
      split at h
      · cases h
      · next hfull =>
          rw [if_neg hs, if_neg hfull]
          cases h
          exact .inr ⟨rfl, by simp only []; omega, by simpa using hs⟩

/-! ## The invariants of every run -/

section

variable {maxJobs maxQueued : Int} {s : Family.St GateState Caller}

/-- `queued` counts the waiters, nothing else. -/
theorem queued_eq_waiters (h : (admission maxJobs maxQueued).machine.Reachable s) :
    s.shared.gate.queued = Family.total Caller.waits s.procs := by
  refine Family.accounting (q := fun sh => sh.gate.queued) ?_ ?_ ?_ h
  · rintro sh rfl
    rfl
  · intro s p a c r _ _ hr
    exact callerStep_queued (callerStep_move hr)
  · intro s e r _ hr
    cases e <;> cases hr <;> simp [Caller.waits, Phase.holds]

theorem queued_pos (h : (admission maxJobs maxQueued).machine.Reachable s)
    {p : ℕ} {c : Caller} {b : Chan} (hp : s.procs[p]? = some c)
    (hb : c.phase.holds = some b) : 0 < s.shared.gate.queued := by
  rw [queued_eq_waiters h]
  have hle := Family.le_total Caller.waits_nonneg hp
  rw [Caller.waits_eq_one hb] at hle
  omega

theorem chansWf (h : (admission maxJobs maxQueued).machine.Reachable s) :
    ChansWf s.shared := by
  refine Family.sharedInv ?_ ?_ ?_ h
  · rintro sh rfl
    exact ⟨List.not_mem_nil, Nat.one_pos, fun b hb => absurd hb List.not_mem_nil⟩
  · intro s p a c r _ hwf _ hr
    cases callerStep_move hr with
    | enter =>
        unfold acquireEnter
        simp only []
        repeat' split
        all_goals exact ⟨hwf.open_, hwf.made, hwf.closed⟩
    | recheck =>
        unfold acquireRecheck leaveQueue
        repeat' split
        all_goals exact ⟨hwf.open_, hwf.made, hwf.closed⟩
    | takeBroadcast | takeDone | ctxCancel => exact hwf
    | cancel => exact ⟨hwf.open_, hwf.made, hwf.closed⟩
    | release => exact hwf.release
  · intro s e r _ hwf hr
    cases e <;> cases hr
    · exact hwf
    · exact hwf.stop
    · exact hwf.release

/-- Every channel a waiter holds is covered. -/
theorem held_covered (h : (admission maxJobs maxQueued).machine.Reachable s) :
    Family.Each
      (fun sh _ c => ∀ b, c.phase.holds = some b → Covered sh b) s := by
  refine Family.each ?_ ?_ ?_ ?_ h
  · intro s p a c r _ ih _ hc hr b hb
    cases callerStep_move hr with
    | enter => exact enter_covered hb
    | recheck => exact recheck_covered hb
    | takeBroadcast hp | takeDone hp =>
        cases hb
        exact ih p c hc _ (by rw [hp]; rfl)
    | cancel | release => cases hb
    | ctxCancel => exact ih p c hc b hb
  · intro s p a c r q m hreach ih _ hc hr _ hm b hb
    have hcov := ih q m hm b hb
    cases callerStep_move hr with
    | enter => exact hcov.enter
    | recheck => exact hcov.recheck
    | takeBroadcast | takeDone | cancel | ctxCancel => exact hcov
    | release => exact hcov.release (queued_pos hreach hm hb)
  · intro s e r q m hreach ih _ hr hm b hb
    have hcov := ih q m hm b hb
    have hq := queued_pos hreach hm hb
    cases e <;> cases hr
    · exact hcov
    · exact hcov.stop hq
    · exact hcov.release hq
  · intro s e r k m _ _ hr hm b hb
    cases e <;> cases hr
    · cases k with
      | zero => cases hm; cases hb
      | succ k => cases hm
    · cases hm
    · cases hm

/-! ## No lost wakeup -/

/-- The steps by which a queued caller gets to examine the gate again without
anyone's help: the `select` on a closed channel, and the critical section
behind it. -/
def Phase.nextSteps : Phase → List CallerAct
  | .selecting _ => [.takeBroadcast, .recheck]
  | .woken _ => [.recheck]
  | .cancelling _ => [.cancel]
  | _ => []

/-- No waiter is stranded: `queued` counts exactly the waiters, the current
channel is open, every waiter holds a channel that was closed already, and its
own next steps are enabled and take it out of the queue. -/
structure NoWaiterStranded (maxJobs maxQueued : Int)
    (s : Family.St GateState Caller) : Prop where
  counted : s.shared.gate.queued = Family.total Caller.waits s.procs
  current : s.shared.gate.broadcast ∉ s.shared.closed
  closed : ∀ (p : ℕ) c b, s.procs[p]? = some c → c.phase.holds = some b →
    b ∈ s.shared.closed ∧ b ≠ s.shared.gate.broadcast
  leaves : ∀ (p : ℕ) c b, s.procs[p]? = some c → c.phase.holds = some b →
    ∃ t, (admission maxJobs maxQueued).machine.exec s
        (c.phase.nextSteps.map (Family.Act.own p)) = some t ∧
      ∀ c', t.procs[p]? = some c' → c'.phase.holds = none

/-- At an open or a stopped gate the re-examination never parks the waiter
again. -/
theorem recheck_leaves {sh : GateState}
    (hopen : sh.gate.inFlight < sh.gate.maxJobs ∨ sh.gate.stopped = true) :
    (acquireRecheck sh).2.phase.holds = none := by
  unfold acquireRecheck
  split
  · rfl
  · next hs =>
      split
      · rfl
      · next hfull => exact absurd hopen (not_or.mpr ⟨hfull, hs⟩)

theorem exec_own {p : ℕ} {c : Caller} {a : CallerAct} {r : GateState × Caller}
    {as : List CallerAct} (hc : s.procs[p]? = some c)
    (hr : callerStep s.shared c a = some r) :
    (admission maxJobs maxQueued).machine.exec s
        ((a :: as).map (Family.Act.own p)) =
      (admission maxJobs maxQueued).machine.exec ⟨r.1, s.procs.set p r.2⟩
        (as.map (Family.Act.own p)) := by
  have hstep : (admission maxJobs maxQueued).machine.step s (.own p a) =
      some ⟨r.1, s.procs.set p r.2⟩ :=
    Family.step_own.mpr ⟨c, r, hc, hr, rfl⟩
  rw [List.map_cons, Machine.exec_cons, hstep, Option.bind_some]

theorem woken_leaves {p : ℕ} {c : Caller} {b : Chan}
    (hopen : s.shared.gate.inFlight < s.shared.gate.maxJobs ∨
      s.shared.gate.stopped = true)
    (hc : s.procs[p]? = some c) (hb : c.phase = .woken b) :
    ∃ t, (admission maxJobs maxQueued).machine.exec s
        ([CallerAct.recheck].map (Family.Act.own p)) = some t ∧
      ∀ c', t.procs[p]? = some c' → c'.phase.holds = none := by
  have hr : callerStep s.shared c .recheck =
      some ((acquireRecheck s.shared).1,
        { c with phase := (acquireRecheck s.shared).2.phase }) := by
    simp only [callerStep, hb]
  refine ⟨_, exec_own hc hr, ?_⟩
  intro c' hc'
  rw [Family.getElem?_set_self hc] at hc'
  cases hc'
  exact recheck_leaves hopen

/-- No lost wakeup. Whatever the order of arrivals, releases, stops, wakeups
and cancellations, once there is a free slot or the gate is stopped no waiter
is left on an open channel. -/
theorem acquire_no_lost_wakeup
    (h : (admission maxJobs maxQueued).machine.Reachable s)
    (hopen : s.shared.gate.inFlight < s.shared.gate.maxJobs ∨
      s.shared.gate.stopped = true) :
    NoWaiterStranded maxJobs maxQueued s := by
  have hclosed : ∀ (p : ℕ) c b, s.procs[p]? = some c →
      c.phase.holds = some b → b ∈ s.shared.closed := by
    intro p c b hc hb
    rcases held_covered h p c hc b hb with hcl | ⟨-, hfull, hs⟩
    · exact hcl
    · rcases hopen with hfree | hstop
      · omega
      · rw [hs] at hstop; cases hstop
  refine ⟨queued_eq_waiters h, (chansWf h).open_, ?_, ?_⟩
  · intro p c b hc hb
    have hcl := hclosed p c b hc hb
    exact ⟨hcl, fun heq => (chansWf h).open_ (heq ▸ hcl)⟩
  · intro p c b hc hb
    have hcl := hclosed p c b hc hb
    cases hph : c.phase with
    | selecting b' =>
        rw [hph] at hb
        cases hb
        -- the select takes the closed channel, and the gate has not moved
        rw [Phase.nextSteps, exec_own (r := (s.shared, { c with phase := .woken b }))
          hc (by simp only [callerStep, hph, if_pos hcl])]
        exact woken_leaves hopen (Family.getElem?_set_self hc) rfl
    | woken b' => exact woken_leaves hopen hc hph
    | cancelling b' =>
        have hr : callerStep s.shared c .cancel =
            some (leaveQueue s.shared, { c with phase := .failed .ctxErr }) := by
          simp only [callerStep, hph, acquireCancel, Verdict.phase]
        refine ⟨_, exec_own hc hr, ?_⟩
        intro c' hc'
        rw [Family.getElem?_set_self hc] at hc'
        cases hc'
        rfl
    | entering | admitted | failed | released =>
        rw [hph] at hb
        cases hb

end

/-- A run that ends with a waiter behind a slot it can have: one slot, one
caller holding it, one queued, and the holder releases. -/
def oneWaiterRun : List (Family.Act CallerAct GateEvent) :=
  [.env .call, .env .call, .own 0 .enter, .own 1 .enter, .own 0 .release]

theorem acquire_no_lost_wakeup_one_waiter :
    ∃ s, (admission 1 1).machine.exec ⟨newAdmissionGate 1 1, []⟩ oneWaiterRun =
        some s ∧
      s.procs[1]? = some ⟨.selecting 0, false⟩ ∧ NoWaiterStranded 1 1 s := by
  have hinit : (admission 1 1).machine.init ⟨newAdmissionGate 1 1, []⟩ :=
    ⟨rfl, rfl⟩
  exact ⟨_, rfl, rfl, acquire_no_lost_wakeup
    (Machine.reachable_of_exec oneWaiterRun hinit rfl) (.inl (by decide))⟩

end Goboxd.Api
