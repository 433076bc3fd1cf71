import Goboxd.Proofs.FileNames
import Goboxd.Proofs.ResponseStatus
import Goboxd.Proofs.RunFaults

/-!
# What becomes of a run whose client is gone

Everything the handler does after `ExecuteRun` is careful about a client that
is gone, and so is the status of a program that was killed on its behalf. The
hole is the moment between the last look at the context and the start of the
process. `Cmd.Start` refuses to start anything on a context that is done, and
`execJail` calls every refusal a failure of the infrastructure: the test becomes
an internal error, and a build becomes one with an error, which the handler
counts and remembers although nobody will see it.

A build has nothing but such moments. Nothing looks at the context between the
gate and the start of the compiler, so any disconnect before that ends there.
-/

namespace Goboxd.Api

open Go Models Config Runner Family

variable {numCPU : Int} {req : RunRequest} {lc : LanguageConfig}
  {s : St RunState TestProc}

/-- An exec in which nothing fails but `Cmd.Start`, and that only with the
error of a context that the client's disconnect has ended. -/
structure OnlyRefused (c : ExecCall) : Prop where
  mkdirApp : c.w.mkdirApp = none
  args : ∃ args, nsjailArgs c.w.host c.j.appDir c.lim c.j.uid c.j.cg c.j.seccomp =
    .ok args
  stdoutPipe : c.w.stdoutPipe = none
  stderrPipe : c.w.stderrPipe = none
  start : ∀ args err, c.w.start args = some err →
    err = str "context canceled" ∧ c.ctxAfter = some .canceled

/-- No operation of the infrastructure fails for a reason other than the
client's disconnect. -/
def OnlyClient (req : RunRequest) (lc : LanguageConfig) (s : St RunState TestProc)
    (a : Act TestAct RunEvent) : Prop :=
  jailFails a = false ∧ ∀ c, execOf req lc s a = some c → OnlyRefused c

/-- `Cmd.Start` is not called on a context that is done. -/
def StartedInTime (req : RunRequest) (lc : LanguageConfig)
    (s : St RunState TestProc) (a : Act TestAct RunEvent) : Prop :=
  ∀ c args, execOf req lc s a = some c →
    nsjailArgs c.w.host c.j.appDir c.lim c.j.uid c.j.cg c.j.seccomp = .ok args →
    c.w.start (args ++ c.cmdArgs) = none

/-- No result is an internal error, and when the client is gone the run is
recorded as cancelled, not as an error, and no internal error is remembered. -/
structure ClientNotBlamed (req : RunRequest) (lc : LanguageConfig) (s : RunState) :
    Prop where
  internal : NoInternal req lc s
  recorded : ∀ build tests err, s.pc = .returned build tests err →
    s.cancelled = true →
    (finishRun s.cancelled req build tests err).record =
        (ResultStatus.cancelled.text, false) ∧
      (finishRun s.cancelled req build tests err).lastInternalErr = false

theorem works_of_started {a : Act TestAct RunEvent} (hc : OnlyClient req lc s a)
    (ht : StartedInTime req lc s a) : StepWorks req lc s a := by
  refine ⟨hc.1, fun c hcall hfails => ?_⟩
  obtain ⟨args, hargs⟩ := (hc.2 c hcall).args
  rcases hfails.2 args hargs with h | h | h
  · exact h (hc.2 c hcall).stdoutPipe
  · exact h (hc.2 c hcall).stderrPipe
  · exact h (ht c args hcall hargs)

theorem notBlamed_of_internal (h : NoInternal req lc s.shared) :
    ClientNotBlamed req lc s.shared := by
  refine ⟨h, fun build tests err hpc hgone => ?_⟩
  obtain ⟨rfl, -⟩ := h.returned build tests err hpc
  rw [hgone]
  exact ⟨rfl, rfl⟩

/-- A start that is refused is an internal error at once. -/
theorem blamed_of_refused {t : St RunState TestProc} {a : Act TestAct RunEvent}
    (hs : (executeRun numCPU req lc).machine.step s a = some t)
    (hg : OnlyClient req lc s a) (hlate : ¬ StartedInTime req lc s a) :
    ¬ ClientNotBlamed req lc t.shared := by
  intro h
  unfold StartedInTime at hlate
  push Not at hlate
  obtain ⟨c, args, hc, hargs, hstart⟩ := hlate
  have hexec := hg.2 c hc
  obtain ⟨err, herr⟩ := Option.ne_none_iff_exists'.mp hstart
  have hfails : c.fails := by
    refine ⟨hexec.mkdirApp, fun args' hargs' => .inr (.inr ?_)⟩
    rw [hargs] at hargs'
    cases hargs'
    exact hstart
  exact internal_of_fails hs hc hfails (by simp [(hexec.start _ _ herr).2]) h.internal

/-- A disconnect is no internal error, as long as no process is started on its
context. In every run, in both modes and whenever the client goes, in which
nothing fails but what the disconnect itself makes fail, it is so if every
`Cmd.Start` comes before the context is done; the first one that comes after
makes an internal error. A request that the gate refuses is recorded as
cancelled when its client is gone, unless the refusal is that the queue is
full. -/
theorem client_gone_not_internal :
    ((executeRun numCPU req lc).machine.Reach
        (fun s a => OnlyClient req lc s a ∧ StartedInTime req lc s a) s →
      ClientNotBlamed req lc s.shared) ∧
    (∀ a t, (executeRun numCPU req lc).machine.step s a = some t →
      OnlyClient req lc s a → ¬ StartedInTime req lc s a →
      ¬ ClientNotBlamed req lc t.shared) ∧
    ∀ err, ((refuseRun true err).record = (ResultStatus.cancelled.text, false) ∧
        (refuseRun true err).lastInternalErr = false ↔ err ≠ .errQueueFull) := by
  refine ⟨fun h => ?_, fun a t => blamed_of_refused, fun err => ?_⟩
  · exact notBlamed_of_internal (noInternal_of_works
      (h.mono fun s a hg => works_of_started hg.1 hg.2))
  · cases err <;> decide

/-! ## A client that leaves while a process is about to start -/

abbrev cConfig : LanguageConfig := newLanguageConfig cLang

/-- The process was refused, for the context it was to be started on. -/
def refused : ExecWorld :=
  { (printing []).exec with start := fun _ => some (str "context canceled") }

/-- The process was started, and killed when the client went. -/
def killed : TestWorld :=
  { printing [] with
    exec :=
      { (printing []).exec with
        run := fun args stdin =>
          { (printing []).exec.run args stdin with
            wait := some (str "signal: killed")
            ps := some (.signaled SIGKILL) } }
    ctxAfter := some .canceled }

/-- A step that runs nothing, and makes a jail if it is to make one. -/
def quietCheck (_ : St RunState TestProc) : Act TestAct RunEvent → Bool
  | .env (.build ..) | .env (.finish _) | .own _ (.finish _) => false
  | a => !jailFails a

theorem quietCheck_sound (req : RunRequest) (lc : LanguageConfig)
    (s : St RunState TestProc) (a : Act TestAct RunEvent)
    (h : quietCheck s a = true) :
    OnlyClient req lc s a ∧ StartedInTime req lc s a := by
  have hnone : execOf req lc s a = none := by
    unfold quietCheck at h
    split at h
    · cases h
    · cases h
    · cases h
    · next hb hf hg =>
        unfold execOf
        split
        · exact absurd rfl (hb _ _)
        · exact absurd rfl (hf _)
        · exact absurd rfl (hg _ _)
        · rfl
  have hjail : jailFails a = false := by
    unfold quietCheck at h
    split at h <;> first | cases h | simpa using h
  refine ⟨⟨hjail, fun c hc => ?_⟩, fun c args hc => ?_⟩ <;>
    (rw [hnone] at hc; cases hc)

theorem onlyRefused_refused (cmdArgs : List GoString) (lim : ExecLimits) :
    OnlyRefused ⟨refused, pyJail, cmdArgs, lim, some .canceled⟩ :=
  ⟨rfl, ⟨_, rfl⟩, rfl, rfl, fun _ _ h => ⟨(Option.some.inj h).symm, rfl⟩⟩

theorem client_gone_not_internal_killed :
    ∃ s, (executeRun 4 pairOfTests pyConfig).machine.exec ⟨startRun false, []⟩
        [.env (.newJail (.ok pyJail)), .env .next, .env .begin, .env .cancel,
          .env (.finish killed), .env .next] = some s ∧
      ClientNotBlamed pairOfTests pyConfig s.shared ∧
      s.shared.results.map TestResult.status = [.cancelled] := by
  have hsound := quietCheck_sound pairOfTests pyConfig
  have hstart := Machine.reach_of_execIf hsound
    [.env (.newJail (.ok pyJail)), .env .next, .env .begin, .env .cancel]
    (.start init_executeRun) rfl
  have hfinish := hstart.next (a := .env (.finish killed))
    ⟨⟨rfl, fun c hc => by
        cases hc; exact ⟨rfl, ⟨_, rfl⟩, rfl, rfl, fun _ _ h => nomatch h⟩⟩,
      fun c args hc _ => by cases hc; rfl⟩ rfl
  exact ⟨_, rfl, client_gone_not_internal.1
    (Machine.reach_of_execIf hsound [.env .next] hfinish rfl), rfl⟩

theorem client_gone_blamed :
    (¬ ∀ s, (executeRun 4 (cRequest []) cConfig).machine.Reach
        (OnlyClient (cRequest []) cConfig) s →
      ClientNotBlamed (cRequest []) cConfig s.shared) ∧
    ¬ ∀ s, (executeRun 4 pairOfTests pyConfig).machine.Reach
        (OnlyClient pairOfTests pyConfig) s →
      ClientNotBlamed pairOfTests pyConfig s.shared := by
  refine ⟨fun h => ?_, fun h => ?_⟩
  · have hinit : (executeRun 4 (cRequest []) cConfig).machine.init
        ⟨startRun false, []⟩ := ⟨⟨false, rfl⟩, rfl⟩
    have hstart := Machine.reach_of_execIf
      (fun s a hq => (quietCheck_sound (cRequest []) cConfig s a hq).1)
      [.env (.newJail (.ok pyJail)), .env .cancel] (.start hinit) rfl
    have hbuild := hstart.next (a := .env (.build ⟨refused, some .canceled⟩ 0))
      ⟨rfl, fun c hc => by cases hc; exact onlyRefused_refused _ _⟩ rfl
    exact absurd ((h _ hbuild).internal.returned _ _ _ rfl).1 (by decide)
  · have hstart := Machine.reach_of_execIf
      (fun s a hq => (quietCheck_sound pairOfTests pyConfig s a hq).1)
      [.env (.newJail (.ok pyJail)), .env .next, .env .begin, .env .cancel]
      (.start init_executeRun) rfl
    have hfinish := hstart.next
      (a := .env (.finish { printing [] with exec := refused, ctxAfter := some .canceled }))
      ⟨rfl, fun c hc => by cases hc; exact onlyRefused_refused _ _⟩ rfl
    exact (h _ hfinish).internal.results _ (List.mem_singleton.mpr rfl) rfl

end Goboxd.Api
