import Mathlib.Tactic.Push
import Goboxd.Cmd.Main

/-!
# The shutdown sweep and the runs it must wait for

`main` sweeps when its `drained` flag is true, and the flag stands for "every
run finished" in two different ways. `srv.Shutdown` answering nil says that the
server tracks no connection. `waitForDrain` answering true says that
`metrics.InFlight` read zero. Neither is the same as no `HandleRun` being
between `acquire` and `release`.

The first way is right as long as nobody empties the connection table under a
live run, which is what the second signal's `srv.Close()` does while `main` is
still in `Shutdown`. The second is right as long as the poll does not fall
between a handler's `acquire` and its increment, or between its decrement and
its `release`. What is proved is that these two are the whole list: a run that
avoids them never sweeps under a live handler, and a step that does not avoid
them can be followed by such a sweep.
-/

namespace Goboxd.Cmd

open Api

/-- The handler is between a successful `acquire` and its `release`. -/
def Handler.live (h : Handler) : Prop := h.caller.phase = .admitted

/-- The handler is live and `metrics.InFlight` does not show it. -/
def Handler.unseen (h : Handler) : Prop := h.live ∧ h.stage ≠ .counted

def MainPc.sweeping : MainPc → Prop
  | .sweepJails | .sweepCgroups => True
  | _ => False

def MainPc.draining : MainPc → Prop
  | .serving | .stopping | .arming | .armed | .shutdown => True
  | _ => False

/-- The sweeps find no live handler. -/
def SweepSafe (s : Family.St Server Handler) : Prop :=
  s.shared.main.sweeping →
    ∀ (p : ℕ) h, s.procs[p]? = some h → ¬ h.live

/-- The second signal does not close the server over a live handler while
`main` waits in `Shutdown`, and no poll that reads zero overlooks one. -/
def DrainClear (s : Family.St Server Handler)
    (a : Family.Act HandlerAct ServerEvent) : Prop :=
  (a = .env .secondSignal → s.shared.main.draining →
    ∀ (p : ℕ) h, s.procs[p]? = some h → ¬ h.live) ∧
  ∀ late, a = .env (.poll late) → s.shared.inFlight ≤ 0 →
    ∀ (p : ℕ) h, s.procs[p]? = some h → ¬ h.unseen

/-! ## What the gate's steps do to admission -/

theorem callerMove_stopped {s : GateState} {c : Caller} {a : CallerAct}
    {r : GateState × Caller} (h : CallerMove s c a r) :
    r.1.gate.stopped = s.gate.stopped := by
  cases h with
  | enter =>
      unfold acquireEnter
      simp only []
      repeat' split
      all_goals rfl
  | recheck =>
      unfold acquireRecheck leaveQueue
      simp only []
      repeat' split
      all_goals rfl
  | release => exact release_stopped s
  | takeBroadcast | takeDone | cancel | ctxCancel => rfl

theorem callerMove_admitted {s : GateState} {c : Caller} {a : CallerAct}
    {r : GateState × Caller} (h : CallerMove s c a r)
    (hstop : s.gate.stopped = true) (hr : r.2.phase = .admitted) :
    c.phase = .admitted := by
  cases h with
  | enter =>
      simp only [acquireEnter, hstop, if_true, Verdict.phase] at hr
      cases hr
  | recheck =>
      simp only [acquireRecheck, hstop, if_true, Verdict.phase] at hr
      cases hr
  | takeBroadcast | takeDone | cancel | release => cases hr
  | ctxCancel => exact hr

/-! ## Invariants of every run -/

/-- Admission is closed before the watcher is started. -/
structure ServerWf (s : Server) : Prop where
  stopped : s.main ≠ .serving → s.main ≠ .stopping →
    s.gs.gate.stopped = true
  watching : s.watching = true →
    s.main ≠ .serving ∧ s.main ≠ .stopping ∧ s.main ≠ .arming

/-- A handler's stage and its place in `acquire` agree. -/
def Handler.Wf (h : Handler) : Prop :=
  match h.stage with
  | .reading | .returning | .returned => ¬ h.live
  | .acquiring => True
  | .counted | .uncounted => h.live

def Handler.count (h : Handler) : ℤ := if h.stage = .counted then 1 else 0

theorem Handler.count_nonneg (h : Handler) : 0 ≤ h.count := by
  unfold Handler.count
  split <;> omega

theorem total_one (hs : List Handler) :
    Family.total (fun _ => 1) hs = hs.length := by
  induction hs with
  | nil => rfl
  | cons h hs ih =>
      rw [Family.total_cons, ih, List.length_cons]
      omega

section

variable {maxJobs maxQueued : Int} {s : Family.St Server Handler}
  {G : Family.St Server Handler → Family.Act HandlerAct ServerEvent → Prop}

theorem serverWf (h : (server maxJobs maxQueued).machine.Reach G s) :
    ServerWf s.shared := by
  refine Family.sharedInv ?_ ?_ ?_ h
  · rintro sh rfl
    exact ⟨fun h => absurd rfl h, fun h => by cases h⟩
  · intro s p a h r _ hwf _ hr
    cases handlerStep_move hr with
    | begin | count | uncount | reject | ret | drop =>
        exact ⟨hwf.stopped, hwf.watching⟩
    | gate _ _ hm =>
        refine ⟨fun h₁ h₂ => ?_, hwf.watching⟩
        rw [callerMove_stopped hm]
        exact hwf.stopped h₁ h₂
    | release =>
        refine ⟨fun h₁ h₂ => ?_, hwf.watching⟩
        rw [release_stopped]
        exact hwf.stopped h₁ h₂
  · intro s e r _ hwf hr
    cases serverEvent_move hr with
    | connect | drainExpires => exact ⟨hwf.stopped, hwf.watching⟩
    | signal hm =>
        exact ⟨fun _ h => absurd rfl h,
          fun hw => absurd hm (hwf.watching hw).1⟩
    | stopAdmission hm =>
        exact ⟨fun _ _ => stop_stopped _,
          fun hw => absurd hm (hwf.watching hw).2.1⟩
    | watch hm =>
        have hs := hwf.stopped (by simp [hm]) (by simp [hm])
        exact ⟨fun _ _ => hs, fun _ => by simp⟩
    | callShutdown hm | drained hm | timedOut hm | close hm | idle hm
        | sweepJails hm | sweepCgroups hm =>
        have hs := hwf.stopped (by simp [hm]) (by simp [hm])
        exact ⟨fun _ _ => hs, fun _ => by simp⟩
    | busy hm =>
        have hs := hwf.stopped (by simp [hm]) (by simp [hm])
        refine ⟨fun _ _ => hs, fun _ => ?_⟩
        simp only []
        split <;> simp
    | secondSignal => exact ⟨hwf.stopped, fun hw => by cases hw⟩

theorem handlerWf (h : (server maxJobs maxQueued).machine.Reach G s) :
    Family.Each (fun _ _ h => h.Wf) s := by
  refine Family.each ?_ ?_ ?_ ?_ h
  · intro s p a h r _ ih _ hh hr
    have hwf := ih p h hh
    cases handlerStep_move hr with
    | begin => trivial
    | gate _ hs => simp [Handler.Wf, hs]
    | count _ hp => exact hp
    | uncount hs => simpa [Handler.Wf, Handler.live, hs] using hwf
    | release | reject _ hp => simp_all [Handler.Wf, Handler.live]
    | ret hs | drop hs => simpa [Handler.Wf, Handler.live, hs] using hwf
  · exact fun s p a l r q m _ ih _ _ _ _ hm => ih q m hm
  · exact fun s e r q m _ ih _ _ hm => ih q m hm
  · intro s e r k m _ _ hr hm
    cases serverEvent_move hr with
    | connect =>
        cases k with
        | zero => cases hm; simp [Handler.Wf, Handler.fresh, Handler.live]
        | succ k => cases hm
    | _ => cases hm

theorem inFlight_eq_counted (h : (server maxJobs maxQueued).machine.Reach G s) :
    s.shared.inFlight = Family.total Handler.count s.procs := by
  refine Family.accounting (q := fun sh => sh.inFlight) ?_ ?_ ?_ h
  · rintro sh rfl
    rfl
  · intro s p a h r _ _ hr
    cases handlerStep_move hr with
    | begin hs | gate _ hs | count hs | uncount hs | release hs | reject hs
        | ret hs | drop hs => simp [Handler.count, hs]
  · intro s e r _ hr
    cases serverEvent_move hr <;> simp [Handler.count, Handler.fresh]

theorem accepted_eq_length (h : (server maxJobs maxQueued).machine.Reach G s) :
    (s.shared.accepted : ℤ) = s.procs.length := by
  rw [← total_one]
  refine Family.accounting (q := fun sh => (sh.accepted : ℤ)) ?_ ?_ ?_ h
  · rintro sh rfl
    rfl
  · intro s p a h r _ _ hr
    cases handlerStep_move hr <;> simp
  · intro s e r _ hr
    cases serverEvent_move hr <;> simp

/-- A live handler that the counter does not show is all that can hide behind
a zero. -/
theorem unseen_of_zero (h : (server maxJobs maxQueued).machine.Reach G s)
    (hz : s.shared.inFlight ≤ 0) {p : ℕ} {hd : Handler}
    (hh : s.procs[p]? = some hd) (hl : hd.live) : hd.unseen := by
  refine ⟨hl, fun hs => ?_⟩
  have hle := Family.le_total Handler.count_nonneg hh
  rw [← inFlight_eq_counted h, Handler.count, if_pos hs] at hle
  omega

/-- What the server tracks: every handler that has not returned while admission
is open, and every live one until `main` is past `Shutdown`. -/
structure Tracked (s : Server) (p : ℕ) (h : Handler) : Prop where
  early : s.gs.gate.stopped = false → h.stage ≠ .returned → p ∈ s.conns
  live : s.main.draining → h.live → p ∈ s.conns

theorem tracked_self {sh : Server} {p : ℕ} {h : Handler} {a : HandlerAct}
    {r : Server × Handler} (hm : HandlerMove p sh h a r) (hwf : h.Wf)
    (ht : Tracked sh p h) : Tracked r.1 p r.2 := by
  obtain ⟨hearly, hlive⟩ := ht
  cases hm with
  | begin hs => exact ⟨fun hst _ => hearly hst (by simp [hs]), hlive⟩
  | gate _ hs hm =>
      have hne : h.stage ≠ .returned := by simp [hs]
      refine ⟨fun hst _ => ?_, fun hd hl => ?_⟩
      · exact hearly (callerMove_stopped hm ▸ hst) hne
      · cases hst : sh.gs.gate.stopped with
        | false => exact hearly hst hne
        | true => exact hlive hd (callerMove_admitted hm hst hl)
  | count hs => exact ⟨fun hst _ => hearly hst (by simp [hs]), hlive⟩
  | uncount hs => exact ⟨fun hst _ => hearly hst (by simp [hs]), hlive⟩
  | release hs =>
      refine ⟨fun hst _ => hearly ?_ (by simp [hs]), fun _ hl => by cases hl⟩
      exact release_stopped _ ▸ hst
  | reject hs => exact ⟨fun hst _ => hearly hst (by simp [hs]), hlive⟩
  | ret hs | drop hs =>
      have hnl : ¬ h.live := by simpa [Handler.Wf, hs] using hwf
      exact ⟨fun _ hne => absurd rfl hne, fun _ hl => absurd hl hnl⟩

/-- A handler that returns takes only its own connection off the table. -/
theorem tracked_other {sh : Server} {p q : ℕ} {h m : Handler} {a : HandlerAct}
    {r : Server × Handler} (hm : HandlerMove p sh h a r) (hq : q ≠ p)
    (ht : Tracked sh q m) : Tracked r.1 q m := by
  obtain ⟨hearly, hlive⟩ := ht
  cases hm with
  | begin | count | uncount | reject => exact ⟨hearly, hlive⟩
  | gate _ _ hmv => exact ⟨fun hst => hearly (callerMove_stopped hmv ▸ hst), hlive⟩
  | release => exact ⟨fun hst => hearly (release_stopped _ ▸ hst), hlive⟩
  | ret | drop =>
      have hmem : ∀ {l : List ℕ}, q ∈ l.erase p ↔ q ∈ l :=
        List.mem_erase_of_ne hq
      exact ⟨fun hst hne => hmem.mpr (hearly hst hne),
        fun hd hl => hmem.mpr (hlive hd hl)⟩

theorem tracked_env {e : ServerEvent} {r : Server × List Handler} {q : ℕ}
    {m : Handler} (he : ServerMove s.shared e r) (hwf : ServerWf s.shared)
    (hG : DrainClear s (.env e)) (hm : s.procs[q]? = some m)
    (ht : Tracked s.shared q m) : Tracked r.1 q m := by
  obtain ⟨hearly, hlive⟩ := ht
  cases he with
  | connect =>
      exact ⟨fun hst hne => List.mem_cons_of_mem _ (hearly hst hne),
        fun hd hl => List.mem_cons_of_mem _ (hlive hd hl)⟩
  | stopAdmission hmain =>
      refine ⟨fun hst => ?_, fun _ => hlive (by simp [hmain, MainPc.draining])⟩
      rw [stop_stopped] at hst
      cases hst
  | signal hmain | watch hmain | callShutdown hmain | drainExpires hmain =>
      exact ⟨hearly, fun _ => hlive (by simp [hmain, MainPc.draining])⟩
  | drained | timedOut | idle | sweepJails | sweepCgroups =>
      exact ⟨hearly, fun hd => hd.elim⟩
  | busy =>
      refine ⟨hearly, fun hd => ?_⟩
      simp only [] at hd
      split at hd <;> exact hd.elim
  | close hmain =>
      have hst := hwf.stopped (by simp [hmain]) (by simp [hmain])
      exact ⟨fun h => by simp [hst] at h, fun hd => hd.elim⟩
  | secondSignal hw =>
      have ⟨h₁, h₂, _⟩ := hwf.watching hw
      refine ⟨fun h => ?_, fun hd hl => ?_⟩
      · rw [hwf.stopped h₁ h₂] at h
        cases h
      · exact absurd hl (hG.1 rfl hd q m hm)

/-- A new connection is tracked under the new handler's index. -/
theorem tracked_spawn {e : ServerEvent} {r : Server × List Handler} {k n : ℕ}
    {m : Handler} {sh : Server} (he : ServerMove sh e r) (hlen : sh.accepted = n)
    (hm : r.2[k]? = some m) : Tracked r.1 (n + k) m := by
  cases he with
  | connect =>
      cases k with
      | zero =>
          cases hm
          have hmem : n + 0 ∈ sh.accepted :: sh.conns :=
            List.mem_cons.mpr (.inl hlen.symm)
          exact ⟨fun _ _ => hmem, fun _ _ => hmem⟩
      | succ k => cases hm
  | _ => cases hm

theorem live_tracked (h : (server maxJobs maxQueued).machine.Reach DrainClear s) :
    Family.Each Tracked s := by
  refine Family.each ?_ ?_ ?_ ?_ h
  · intro s p a h r hreach ih _ hh hr
    exact tracked_self (handlerStep_move hr) (handlerWf hreach p h hh) (ih p h hh)
  · intro s p a h r q m _ ih _ _ hr hq hm
    exact tracked_other (handlerStep_move hr) hq (ih q m hm)
  · intro s e r q m hreach ih hG hr hm
    exact tracked_env (serverEvent_move hr) (serverWf hreach) hG hm (ih q m hm)
  · intro s e r k m hreach _ hr hm
    have hlen := accepted_eq_length hreach
    exact tracked_spawn (serverEvent_move hr) (by omega) hm

theorem sweepSafe_of_drainClear
    (h : (server maxJobs maxQueued).machine.Reach DrainClear s) :
    SweepSafe s := by
  intro hsw p hd hh
  refine Family.each
    (L := fun sh _ (h : Handler) => sh.main.sweeping → ¬ h.live)
    ?_ ?_ ?_ ?_ h p hd hh hsw
  · intro s p a h r hreach ih _ hh hr hsw
    have hstop : s.shared.main.sweeping → s.shared.gs.gate.stopped = true :=
      fun hsw => (serverWf hreach).stopped
        (by rintro heq; simp [heq, MainPc.sweeping] at hsw)
        (by rintro heq; simp [heq, MainPc.sweeping] at hsw)
    cases handlerStep_move hr with
    | begin | count | uncount | reject | ret | drop => exact ih p h hh hsw
    | gate _ _ hm =>
        exact fun hl => ih p h hh hsw (callerMove_admitted hm (hstop hsw) hl)
    | release => exact fun hl => by cases hl
  · intro s p a h r q m _ ih _ _ hr _ hm hsw
    refine ih q m hm ?_
    cases handlerStep_move hr <;> exact hsw
  · intro s e r q m hreach ih hG hr hm hsw
    cases serverEvent_move hr with
    | drained hmain hc =>
        -- an empty table leaves no live handler while `main` is in `Shutdown`
        intro hl
        have hmem := (live_tracked hreach q m hm).live
          (by simp [hmain, MainPc.draining]) hl
        rw [hc] at hmem
        cases hmem
    | idle hmain hz =>
        exact fun hl => hG.2 _ rfl hz q m hm (unseen_of_zero hreach hz hm hl)
    | busy =>
        simp only [] at hsw
        split at hsw <;> exact hsw.elim
    | sweepJails hmain => exact ih q m hm (by simp [hmain, MainPc.sweeping])
    | connect | drainExpires | secondSignal => exact ih q m hm hsw
    | signal | stopAdmission | watch | callShutdown | timedOut | close
        | sweepCgroups => exact hsw.elim
  · intro s e r k m _ _ hr hm _
    cases serverEvent_move hr with
    | connect =>
        cases k with
        | zero => cases hm; exact fun hl => by cases hl
        | succ k => cases hm
    | _ => cases hm

/-! ## What follows a step against the condition -/

/-- The steps that lead `main` from inside the drain to the sweep once the
connection table is empty. -/
def MainPc.toSweep : MainPc → List ServerEvent
  | .armed => [.callShutdown, .shutdownReturns none]
  | _ => [.shutdownReturns none]

/-- With an empty table `Shutdown` answers nil and the sweep is next. -/
theorem exec_toSweep (maxJobs maxQueued : Int)
    {s : Family.St Server Handler}
    (hw : s.shared.main = .armed ∨ s.shared.main = .shutdown)
    (hc : s.shared.conns = []) :
    ∃ u, (server maxJobs maxQueued).machine.exec s
        (s.shared.main.toSweep.map Family.Act.env) = some u ∧
      u.shared.main = .sweepJails ∧ u.procs = s.procs := by
  rcases hw with hm | hm
  · refine ⟨⟨{ s.shared with main := .sweepJails, listening := false }, s.procs⟩,
      ?_, rfl, rfl⟩
    simp [hm, hc, MainPc.toSweep, Machine.exec_cons, Family.machine, Family.step,
      server, serverEvent, shutdownAnswers]
  · refine ⟨⟨{ s.shared with main := .sweepJails }, s.procs⟩, ?_, rfl, rfl⟩
    simp [hm, hc, MainPc.toSweep, Machine.exec_cons, Family.machine, Family.step,
      server, serverEvent, shutdownAnswers]

/-- A step against the condition can be followed by a sweep under a live
handler. -/
theorem unsafe_of_not_drainClear {t : Family.St Server Handler}
    {a : Family.Act HandlerAct ServerEvent}
    (h : (server maxJobs maxQueued).machine.Reachable s)
    (hs : (server maxJobs maxQueued).machine.step s a = some t)
    (hnc : ¬ DrainClear s a) :
    ∃ as u, (server maxJobs maxQueued).machine.exec t as = some u ∧
      ¬ SweepSafe u := by
  rw [DrainClear, not_and_or] at hnc
  rcases hnc with hnc | hnc
  · push Not at hnc
    obtain ⟨rfl, hd, p, hh, hp, hl⟩ := hnc
    obtain ⟨r, hr, rfl⟩ := Family.step_env.mp hs
    have hmove : ServerMove s.shared .secondSignal r := serverEvent_move hr
    cases hmove with
    | secondSignal hw =>
        have ⟨h₁, h₂, h₃⟩ := (serverWf h).watching hw
        have hmain : s.shared.main = .armed ∨ s.shared.main = .shutdown := by
          cases hm : s.shared.main <;> simp_all [MainPc.draining]
        obtain ⟨u, hu, hum, hup⟩ := exec_toSweep maxJobs maxQueued
          (s := ⟨{ s.shared with
            watching := false, listening := false, conns := [] },
            s.procs ++ []⟩) hmain rfl
        refine ⟨_, u, hu, fun hsafe => ?_⟩
        refine hsafe (by simp [hum, MainPc.sweeping]) p hh ?_ hl
        rw [hup, List.append_nil]
        exact hp
  · push Not at hnc
    obtain ⟨late, rfl, hz, p, hh, hp, hl⟩ := hnc
    obtain ⟨r, hr, rfl⟩ := Family.step_env.mp hs
    have hmove : ServerMove s.shared (.poll late) r := serverEvent_move hr
    refine ⟨[], _, rfl, fun hsafe => ?_⟩
    cases hmove with
    | busy _ hn => omega
    | idle =>
        refine hsafe trivial p hh ?_ hl.1
        simpa using hp

/-- When the sweep is safe, and when it is not. A run in which no second signal
closes the server over a live handler during the drain, and no poll that reads
zero overlooks one, sweeps only after every handler has released its slot; any
step that does either can be followed by a sweep under a live handler. -/
theorem sweep_after_runs (h : (server maxJobs maxQueued).machine.Reachable s) :
    ((server maxJobs maxQueued).machine.Reach DrainClear s → SweepSafe s) ∧
    ∀ a t, (server maxJobs maxQueued).machine.step s a = some t →
      ¬ DrainClear s a →
      ∃ as u, (server maxJobs maxQueued).machine.exec t as = some u ∧
        ¬ SweepSafe u :=
  ⟨sweepSafe_of_drainClear, fun _ _ => unsafe_of_not_drainClear h⟩

end

/-! ## Two shutdowns

In both runs one request is executing when the signal arrives. In the first the
drain deadline passes and the handler returns before the poll. In the second a
second signal arrives. -/

def busyRun : List (Family.Act HandlerAct ServerEvent) :=
  [.env .connect, .own 0 .begin, .own 0 (.gate .enter), .own 0 .count,
    .env .signal, .env .stopAdmission, .env .watch, .env .callShutdown]

def timeoutRun : List (Family.Act HandlerAct ServerEvent) :=
  busyRun ++
    [.env .drainExpires, .env (.shutdownReturns (some .deadlineExceeded)),
      .env .close, .env (.poll false), .own 0 .uncount, .own 0 .release,
      .own 0 .ret, .env (.poll false)]

def secondSignalRun : List (Family.Act HandlerAct ServerEvent) :=
  busyRun ++ [.env .secondSignal, .env (.shutdownReturns none)]

/-- A simple way for a step to keep to the condition: it is neither of the two
events, or the poll reads more than zero, or no handler is live. -/
def drainCheck (s : Family.St Server Handler) :
    Family.Act HandlerAct ServerEvent → Bool
  | .env .secondSignal => s.procs.all fun h => h.caller.phase ≠ .admitted
  | .env (.poll _) =>
      s.shared.inFlight > 0 || s.procs.all fun h => h.caller.phase ≠ .admitted
  | _ => true

theorem drainCheck_sound (s : Family.St Server Handler)
    (a : Family.Act HandlerAct ServerEvent) (h : drainCheck s a = true) :
    DrainClear s a := by
  refine ⟨?_, ?_⟩
  · rintro rfl _ p hd hp
    simp only [drainCheck, List.all_eq_true, decide_eq_true_eq] at h
    exact h hd (List.mem_of_getElem? hp)
  · rintro late rfl hz p hd hp hun
    simp only [drainCheck, Bool.or_eq_true, List.all_eq_true,
      decide_eq_true_eq] at h
    rcases h with h | h
    · omega
    · exact h hd (List.mem_of_getElem? hp) hun.1

theorem sweep_after_runs_timeout :
    ∃ s, (server 1 0).machine.exec ⟨newServer 1 0, []⟩ timeoutRun = some s ∧
      SweepSafe s ∧ s.shared.main = .sweepJails := by
  have hinit : (server 1 0).machine.init ⟨newServer 1 0, []⟩ := ⟨rfl, rfl⟩
  have hr := Machine.reachable_of_exec timeoutRun hinit rfl
  have hclear := Machine.reach_of_execIf drainCheck_sound timeoutRun
    (.start hinit) rfl
  exact ⟨_, rfl, (sweep_after_runs hr).1 hclear, rfl⟩

theorem sweep_under_live_handler :
    ¬ ∀ s, (server 1 0).machine.Reachable s → SweepSafe s := by
  intro h
  have hinit : (server 1 0).machine.init ⟨newServer 1 0, []⟩ := ⟨rfl, rfl⟩
  have hr := Machine.reachable_of_exec secondSignalRun hinit rfl
  exact h _ hr trivial 0 _ rfl rfl

end Goboxd.Cmd
