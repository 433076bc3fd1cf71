import Goboxd.Runner.Status

/-!
# Two ways to die of a signal

A jailed program that dies of a signal makes nsjail exit with 128 and the number;
nsjail itself can die of a signal too. The exit facts read the same number off
both. The status does not come out of that number: one function looks at the wait
status, another for one exit code, a third for a piece of the error's text.

The wall deadline is asked for before any of them except the cpu limit's signal, so
once it has passed both deaths are the deadline's. Before it, they are told apart
for SIGKILL, where only an exit with 137 asks how much cpu time was used, and for
SIGSEGV and SIGABRT, where only the wait status of nsjail's own death is looked at.
-/

namespace Goboxd.Runner

open Go Models

/-- The text of the `ExitError` of a process that exited. -/
def exitText (code : Int) : GoString := str "exit status " ++ itoa code

/-- The status of a run whose nsjail died of the signal. `text` is the error's. -/
def ownVerdict (s : Int) (ctxErr : Option CtxErr) (text stdout expected : GoString)
    (limitUS timeUS : Int) : ResultStatus :=
  computeTestStatus ctxErr (some text) stdout expected (some (.signaled s)) false
    ⟨limitUS, timeUS, false⟩

/-- The status of a run whose jailed program did. -/
def passedOnVerdict (s : Int) (ctxErr : Option CtxErr) (stdout expected : GoString)
    (limitUS timeUS : Int) : ResultStatus :=
  computeTestStatus ctxErr (some (exitText (128 + s))) stdout expected
    (some (.exited (128 + s))) false ⟨limitUS, timeUS, false⟩

/-- What the documentation calls a death by the signal. -/
def documentedStatus (s limitUS timeUS : Int) : ResultStatus :=
  if s = SIGSEGV ∨ s = SIGABRT then .memoryExceeded
  else if s = SIGXCPU then .cpuTimeExceeded
  else if s = SIGKILL then
    (if 0 < limitUS ∧ limitUS ≤ timeUS then .cpuTimeExceeded else .timeExceeded)
  else .runtimeError

variable {s limitUS timeUS : Int} {ctxErr : Option CtxErr}
  {text stdout expected : GoString}

theorem exitFacts_own (s : Int) : (exitFacts (some (.signaled s))).2 = s := rfl

theorem exitFacts_passedOn (hs : 1 ≤ s ∧ s ≤ 64) :
    (exitFacts (some (.exited (128 + s)))).2 = s := by
  have hwindow : 128 + s ≥ 129 ∧ 128 + s ≤ 192 := by omega
  show (if 128 + s ≥ 129 ∧ 128 + s ≤ 192 then (128 + s, 128 + s - 128)
    else (128 + s, 0)).2 = s
  rw [if_pos hwindow]
  show 128 + s - 128 = s
  omega

/-- Of these texts, only that of SIGKILL has the code of SIGKILL in it. -/
theorem contains_exitText (hs : 1 ≤ s ∧ s ≤ 64) :
    contains (exitText (128 + s)) (str "exit status 137") = true ↔ s = SIGKILL := by
  have hall : ∀ k : Fin 64, contains (exitText (129 + (k : ℕ))) (str "exit status 137") =
      decide (k = 8) := by
    decide +kernel
  obtain ⟨k, hk⟩ : ∃ k : Fin 64, s = 1 + (k : ℕ) := by
    refine ⟨⟨(s - 1).toNat, by omega⟩, ?_⟩
    show s = 1 + ((s - 1).toNat : Int)
    omega
  have hcode : 128 + s = 129 + (k : ℕ) := by omega
  rw [hcode, hall, decide_eq_true_iff]
  constructor
  · intro h
    rw [hk, h]
    rfl
  · intro h
    have hval : (k : ℕ) = 8 := by
      unfold SIGKILL at h
      omega
    exact Fin.ext hval

/-! ## The deadline has passed -/

theorem signalKillReason_own (s : Int) :
    signalKillReason (some (.signaled s)) =
      if s = SIGKILL then .timeExceeded
      else if s = SIGSEGV ∨ s = SIGABRT then .memoryExceeded
      else if s = SIGXCPU then .cpuTimeExceeded
      else .runtimeError := rfl

theorem signalKillReason_passedOn (s : Int) :
    signalKillReason (some (.exited (128 + s))) =
      if s = SIGXCPU then .cpuTimeExceeded else .unset := by
  show (if 128 + s = 128 + SIGXCPU then _ else _) = _
  by_cases h : s = SIGXCPU
  · rw [if_pos h, if_pos (by rw [h])]
  · rw [if_neg h, if_neg (by omega)]

theorem ownVerdict_deadline :
    ownVerdict s (some .deadlineExceeded) text stdout expected limitUS timeUS =
      if s = SIGXCPU then .cpuTimeExceeded else .timeExceeded := by
  by_cases h : s = SIGXCPU
  · rw [h]
    rfl
  · have hreason : signalKillReason (some (.signaled s)) ≠ .cpuTimeExceeded := by
      rw [signalKillReason_own, if_neg h]
      (repeat' split) <;> exact ResultStatus.noConfusion
    unfold ownVerdict computeTestStatus
    simp [h, hreason]

theorem passedOnVerdict_deadline :
    passedOnVerdict s (some .deadlineExceeded) stdout expected limitUS timeUS =
      if s = SIGXCPU then .cpuTimeExceeded else .timeExceeded := by
  unfold passedOnVerdict computeTestStatus
  rw [signalKillReason_passedOn]
  by_cases h : s = SIGXCPU
  · simp [h]
  · simp [h]

/-! ## Before the deadline -/

theorem ownVerdict_before :
    ownVerdict s none text stdout expected limitUS timeUS =
      if s = SIGKILL then .timeExceeded else documentedStatus s limitUS timeUS := by
  unfold ownVerdict computeTestStatus errorStatus documentedStatus
  rw [signalKillReason_own]
  by_cases hkill : s = SIGKILL
  · simp [hkill]
  · by_cases hmem : s = SIGSEGV ∨ s = SIGABRT
    · simp [hkill, hmem]
    · by_cases hcpu : s = SIGXCPU
      · rw [hcpu]
        rfl
      · simp [hkill, hmem, hcpu]

theorem memory_signal_ne (h : s = SIGSEGV ∨ s = SIGABRT) : s ≠ SIGKILL ∧ s ≠ SIGXCPU := by
  unfold SIGSEGV SIGABRT at h
  unfold SIGKILL SIGXCPU
  omega

theorem passedOnVerdict_before (hs : 1 ≤ s ∧ s ≤ 64) :
    passedOnVerdict s none stdout expected limitUS timeUS =
      if s = SIGSEGV ∨ s = SIGABRT then .runtimeError
      else documentedStatus s limitUS timeUS := by
  have htext := contains_exitText hs
  unfold passedOnVerdict computeTestStatus errorStatus documentedStatus
  rw [signalKillReason_passedOn]
  by_cases hmem : s = SIGSEGV ∨ s = SIGABRT
  · obtain ⟨hkill, hcpu⟩ := memory_signal_ne hmem
    have h137 : ¬ contains (exitText (128 + s)) (str "exit status 137") = true :=
      fun h => hkill (htext.mp h)
    rw [if_pos hmem]
    simp [hcpu, h137]
  · rw [if_neg hmem, if_neg hmem]
    by_cases hcpu : s = SIGXCPU
    · simp [hcpu]
    · rw [if_neg hcpu, if_neg hcpu]
      by_cases hkill : s = SIGKILL
      · have h137 := htext.mpr hkill
        rw [if_pos hkill]
        simp [h137]
      · have h137 : ¬ contains (exitText (128 + s)) (str "exit status 137") = true :=
          fun h => hkill (htext.mp h)
        simp [hkill, h137]

/-! ## The two together -/

/-- What is said of a signal: the exit facts show it either way; once the deadline
has passed the status is the deadline's, or the cpu limit's for its signal; before it,
nsjail's own death by SIGKILL is the wall limit's, and everything else is as documented.
Of SIGSEGV and SIGABRT that are passed on, nothing is said. -/
structure SignalVerdicts (s : Int) (ctxErr : Option CtxErr) (limitUS timeUS : Int)
    (own passedOn : ResultStatus) : Prop where
  signal : (exitFacts (some (.signaled s))).2 = s ∧
    (exitFacts (some (.exited (128 + s)))).2 = s
  deadline : ctxErr = some .deadlineExceeded →
    own = (if s = SIGXCPU then .cpuTimeExceeded else .timeExceeded) ∧ passedOn = own
  own_before : ctxErr = none →
    own = if s = SIGKILL then .timeExceeded else documentedStatus s limitUS timeUS
  passedOn_before : ctxErr = none → s ≠ SIGSEGV → s ≠ SIGABRT →
    passedOn = documentedStatus s limitUS timeUS

theorem signal_verdicts (hs : 1 ≤ s ∧ s ≤ 64) (ctxErr : Option CtxErr)
    (text stdout expected : GoString) (limitUS timeUS : Int) :
    SignalVerdicts s ctxErr limitUS timeUS
      (ownVerdict s ctxErr text stdout expected limitUS timeUS)
      (passedOnVerdict s ctxErr stdout expected limitUS timeUS) where
  signal := ⟨exitFacts_own s, exitFacts_passedOn hs⟩
  deadline := by
    intro h
    rw [h, ownVerdict_deadline, passedOnVerdict_deadline]
    exact ⟨rfl, rfl⟩
  own_before := by
    intro h
    rw [h]
    exact ownVerdict_before
  passedOn_before := by
    intro h hsegv habrt
    rw [h, passedOnVerdict_before hs, if_neg (not_or.mpr ⟨hsegv, habrt⟩)]

theorem signal_verdicts_term :
    SignalVerdicts 15 none 1000000 2000000
      (ownVerdict 15 none (str "signal: terminated") [] [] 1000000 2000000)
      (passedOnVerdict 15 none [] [] 1000000 2000000) :=
  signal_verdicts (by decide) none _ _ _ _ _

/-- One verdict for both deaths, and the documented one. -/
def OneVerdict (s limitUS timeUS : Int) (own passedOn : ResultStatus) : Prop :=
  (exitFacts (some (.signaled s))).2 = (exitFacts (some (.exited (128 + s)))).2 ∧
    own = passedOn ∧ own = documentedStatus s limitUS timeUS

/-- Exactly when there is one. -/
theorem oneVerdict_iff (hs : 1 ≤ s ∧ s ≤ 64) (hctx : ctxErr ≠ some .canceled) :
    OneVerdict s limitUS timeUS (ownVerdict s ctxErr text stdout expected limitUS timeUS)
        (passedOnVerdict s ctxErr stdout expected limitUS timeUS) ↔
      s = SIGXCPU ∨ (s = SIGKILL ∧ ¬ (0 < limitUS ∧ limitUS ≤ timeUS)) ∨
        (ctxErr = none ∧ s ≠ SIGKILL ∧ s ≠ SIGSEGV ∧ s ≠ SIGABRT) := by
  unfold OneVerdict
  rw [exitFacts_own, exitFacts_passedOn hs, and_iff_right rfl]
  have hdoc : s ≠ SIGXCPU → (ResultStatus.timeExceeded = documentedStatus s limitUS timeUS ↔
      s = SIGKILL ∧ ¬ (0 < limitUS ∧ limitUS ≤ timeUS)) := by
    intro hcpu
    unfold documentedStatus
    by_cases hmem : s = SIGSEGV ∨ s = SIGABRT
    · simp [hmem, (memory_signal_ne hmem).1]
    · rw [if_neg hmem, if_neg hcpu]
      by_cases hkill : s = SIGKILL
      · rw [if_pos hkill]
        split
        · next h => simp [h]
        · next h => simp [hkill, h]
      · simp [hkill]
  cases ctxErr with
  | none =>
      rw [ownVerdict_before, passedOnVerdict_before hs]
      by_cases hkill : s = SIGKILL
      · have hcpu : s ≠ SIGXCPU := by
          rw [hkill]
          decide
        have hmem : ¬ (s = SIGSEGV ∨ s = SIGABRT) := fun h =>
          (memory_signal_ne h).1 hkill
        rw [if_pos hkill, if_neg hmem, and_self_iff, hdoc hcpu]
        exact ⟨fun h => .inr (.inl h), fun h =>
          h.elim (fun h => absurd h hcpu) fun h => h.elim id fun h => absurd hkill h.2.1⟩
      · rw [if_neg hkill]
        by_cases hmem : s = SIGSEGV ∨ s = SIGABRT
        · rw [if_pos hmem, documentedStatus, if_pos hmem]
          have hcpu := (memory_signal_ne hmem).2
          constructor
          · intro h
            cases h.1
          · intro h
            rcases h with h | h | ⟨_, _, hsegv, habrt⟩
            · exact absurd h hcpu
            · exact absurd h.1 hkill
            · exact absurd hmem (not_or.mpr ⟨hsegv, habrt⟩)
        · rw [if_neg hmem, and_iff_right rfl]
          exact ⟨fun _ => .inr (.inr ⟨rfl, hkill, not_or.mp hmem⟩), fun _ => rfl⟩
  | some e =>
      cases e with
      | canceled => exact absurd rfl hctx
      | deadlineExceeded =>
          rw [ownVerdict_deadline, passedOnVerdict_deadline, and_iff_right rfl]
          by_cases hcpu : s = SIGXCPU
          · rw [if_pos hcpu, hcpu]
            exact ⟨fun _ => .inl rfl, fun _ => rfl⟩
          · rw [if_neg hcpu, hdoc hcpu]
            simp [hcpu]

/-- A SIGTERM that the wall deadline overtakes. -/
theorem deadline_overtakes_signal :
    ¬ ∀ (s : Int) (ctxErr : Option CtxErr) (text stdout expected : GoString)
      (limitUS timeUS : Int), 1 ≤ s ∧ s ≤ 64 → ctxErr ≠ some .canceled →
      OneVerdict s limitUS timeUS (ownVerdict s ctxErr text stdout expected limitUS timeUS)
        (passedOnVerdict s ctxErr stdout expected limitUS timeUS) := by
  intro h
  have hone := (h 15 (some .deadlineExceeded) (str "signal: terminated") [] [] 0 0
    (by decide) (by decide)).2.2
  exact absurd hone (by decide)

end Goboxd.Runner
