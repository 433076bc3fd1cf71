import Goboxd.Api.Validate
import Goboxd.Runner.Exec

/-!
# A verdict is about the output, up to the truncation marker

`computeTestStatus` compares the expected text with what `readCapped` kept of
the output. Up to the cap the two are the same. Beyond it `readCapped` answers
the first bytes and a marker, in band, and a test whose expected text is just
that is accepted although the program printed something else.

The cap matters only through its size. An admitted cap is positive, and a test's
expected text is short, so the one cap whose increment overflows never accepts
anything.
-/

namespace Goboxd.Runner

open Go Models Config Api

/-- A status is sound for an output: accepted only if the output is the
expected text, and never beyond the cap. -/
structure VerdictSound (output expected : GoString) (cap : Int)
    (status : ResultStatus) : Prop where
  equal : status = .accepted → output = expected
  short : status = .accepted → (output.length : Int) ≤ cap

/-- The expected text is what is left of an output beyond the cap. -/
def MatchesTruncated (output expected : GoString) (cap : Int) : Prop :=
  cap < output.length ∧ expected = output.take cap.toNat ++ truncationMarker

/-! ## What `readCapped` keeps -/

theorem readBudget_of_lt {limit : Int} (h0 : 0 < limit) (h : limit < maxInt) :
    readBudget limit = limit.toNat + 1 := by
  unfold maxInt at h
  rw [readBudget, wrap_of_inRange]
  · omega
  · constructor <;> unfold maxInt <;> omega

theorem readCapped_of_le {stream : GoString} {limit : Int} (h0 : 0 < limit)
    (h : limit < maxInt) (hlen : (stream.length : Int) ≤ limit) :
    readCapped stream limit = stream := by
  rw [readCapped, readBudget_of_lt h0 h, List.take_of_length_le (by omega),
    truncateRead, if_neg (by omega)]

theorem readCapped_of_gt {stream : GoString} {limit : Int} (h0 : 0 < limit)
    (h : limit < maxInt) (hlen : limit < stream.length) :
    readCapped stream limit = stream.take limit.toNat ++ truncationMarker := by
  have htake : (stream.take (limit.toNat + 1)).length = limit.toNat + 1 := by
    rw [List.length_take]
    omega
  rw [readCapped, readBudget_of_lt h0 h, truncateRead, if_pos (by omega), List.take_take,
    Nat.min_eq_left (Nat.le_succ _)]

/-- At the largest cap the budget overflows and nothing is read. -/
theorem readCapped_maxInt (stream : GoString) : readCapped stream maxInt = [] := by
  have hbudget : readBudget maxInt = 0 := by decide
  rw [readCapped, hbudget, List.take_zero]
  rfl

/-! ## An admitted cap -/

theorem atoi_le_maxInt {s : GoString} {n : Int} (h : atoi s = some n) :
    n ≤ maxInt := by
  unfold atoi at h
  split at h
  · cases h
  · obtain ⟨m, -, h⟩ := Option.bind_eq_some_iff.mp h
    obtain ⟨⟨-, hle⟩, heq⟩ := Option.ite_none_right_eq_some.mp h
    cases heq
    exact hle

theorem outputCeiling_le (getenv : Env) : outputCeiling getenv ≤ maxInt := by
  unfold outputCeiling
  split
  · next v hv =>
      split
      · exact atoi_le_maxInt hv
      · decide
  · decide

theorem outputCap_bounds {getenv : Env} {reg : Registry} {req : RunRequest}
    {lc : LanguageConfig} (h : Validated getenv reg req lc) :
    0 < outputCap req ∧ outputCap req ≤ maxInt := by
  unfold outputCap
  split
  · next n hn =>
      split
      · next hpos => exact ⟨hpos, (h.outputCap n hn hpos).trans (outputCeiling_le _)⟩
      · decide
  · decide

/-- The comparison of what was kept, against the output itself. -/
theorem kept_sound_iff (output : GoString) {expected : GoString} {cap : Int}
    (hexp : expected ≠ []) (hshort : expected.length ≤ maxFieldBytes)
    (h0 : 0 < cap) (hmax : cap ≤ maxInt) :
    VerdictSound output expected cap
        (compareOutput (readCapped output cap) expected) ↔
      ¬ MatchesTruncated output expected cap := by
  have hacc := compareOutput_accepted_iff (readCapped output cap) hexp
  rcases Int.lt_or_eq_of_le hmax with hlt | rfl
  · rcases lt_or_ge cap (output.length : Int) with hlong | hfits
    · rw [readCapped_of_gt h0 hlt hlong] at hacc ⊢
      constructor
      · rintro hs ⟨-, heq⟩
        exact absurd (hs.short (hacc.mpr heq.symm)) (Int.not_le.mpr hlong)
      · intro hno
        have hrej := fun ha => hno ⟨hlong, (hacc.mp ha).symm⟩
        exact ⟨fun ha => absurd ha hrej, fun ha => absurd ha hrej⟩
    · rw [readCapped_of_le h0 hlt hfits] at hacc ⊢
      exact ⟨fun _ h => absurd h.1 (Int.not_lt.mpr hfits),
        fun _ => ⟨fun ha => hacc.mp ha, fun _ => hfits⟩⟩
  · -- nothing is read, and no expected text is that long
    rw [readCapped_maxInt] at hacc ⊢
    have hrej := fun ha => hexp (hacc.mp ha).symm
    refine ⟨fun _ => ?_, fun _ => ⟨fun ha => absurd ha hrej, fun ha => absurd ha hrej⟩⟩
    rintro ⟨hlong, heq⟩
    have hlen := congrArg List.length heq
    rw [List.length_append, List.length_take] at hlen
    unfold maxInt at hlong hlen
    unfold maxFieldBytes at hshort
    omega

/-! ## The verdict of a test -/

/-- When a verdict is about the output. For every test of an admitted request
whose exec ended without an error, a kill or a cancellation, the status is
sound for the program's output, unless the output is longer than the cap and
the expected text is its beginning with the truncation marker. -/
theorem accepted_sound_iff {getenv : Env} {reg : Registry}
    {decoded : Except GoString RunRequest} {req : RunRequest}
    {lc : LanguageConfig} {w : TestWorld} {j : JailFields} {tc : TestCase}
    {args : List GoString}
    (hval : validateRun getenv reg decoded = .ok (req, lc))
    (htc : tc ∈ req.tests) (hexp : tc.expectedStdout ≠ [])
    (hbefore : w.ctxBefore = none)
    (hstart : execStart w.exec j (runCmdArgs req lc)
      (stageLimits lc.runLimits req.run) = .ok args)
    (hwait : (w.exec.run args tc.stdin).wait = none)
    (hoom : (testOutcome w tc lc j req).oomKilled = false)
    (hcpu : (testOutcome w tc lc j req).cpuKilled = false)
    (hafter : w.ctxAfter ≠ some .canceled) :
    VerdictSound (w.exec.run args tc.stdin).stdout tc.expectedStdout
        (outputCap req) (runSingleTest w tc lc j req).status ↔
      w.ctxAfter = some .deadlineExceeded ∨
        ¬ MatchesTruncated (w.exec.run args tc.stdin).stdout tc.expectedStdout
          (outputCap req) := by
  obtain ⟨-, hv⟩ := validateRun_ok hval
  have ⟨h0, hmax⟩ := outputCap_bounds hv
  have hkept := kept_sound_iff (w.exec.run args tc.stdin).stdout hexp
    (hv.fields tc htc).2 h0 hmax
  rw [runSingleTest_status hbefore hstart, hwait, hoom, hcpu]
  cases hctx : w.ctxAfter with
  | none =>
      have hstatus : ∀ stdout ps timeUS, computeTestStatus none none stdout
          tc.expectedStdout ps false
          ⟨cpuLimitUS (stageLimits lc.runLimits req.run).cpuLimit, timeUS, false⟩ =
            compareOutput stdout tc.expectedStdout := by
        intro stdout ps timeUS
        simp [computeTestStatus]
      rw [hstatus, hkept]
      simp
  | some e =>
      cases e with
      | canceled => exact absurd hctx hafter
      | deadlineExceeded =>
          have hrej : ∀ stdout ps cpu, computeTestStatus (some .deadlineExceeded)
              none stdout tc.expectedStdout ps false cpu ≠ .accepted := by
            intro stdout ps cpu ha
            cases (computeTestStatus_accepted_iff.mp ha).1
          exact ⟨fun _ => .inl rfl, fun _ =>
            ⟨fun ha => absurd ha (hrej _ _ _), fun ha => absurd ha (hrej _ _ _)⟩⟩

/-! ## A program that prints more than its cap -/

def pyLang : LanguageYAML where
  id := str "py3"
  name := str "Python 3"
  sourceFilename := str "solution.py"
  artifact := []
  build := none
  run :=
    { cmd := str "/usr/bin/python3"
      args := [str "{{source}}"]
      limits := ⟨9, 1048576, 100, 11⟩
      ceiling := .zero
      hasCeiling := false
      flagAllowlist := [] }
  smokeCmd := []
  smokeArgs := []
  sourceFilenameStrategy := []
  seccomp := []

def pyRequest (expected : GoString) : RunRequest where
  language := str "py3"
  source := str "print('abcdef')"
  sourceFilename := []
  artifactFilename := []
  build := none
  run := none
  tests := [⟨[], expected⟩]
  maxParallel := none
  maxOutputBytes := some 4

def pyJail : JailFields where
  dir := str "/tmp/goboxd-jail-1"
  uid := 10000
  cg := none
  seccomp := []

def calmHost : Host where
  getenv := fun _ => []
  policyPath := .ok (str "/tmp/goboxd-seccomp-1.policy")
  combinedWith := fun _ => .ok []
  maskedHostsPath := .ok (str "/tmp/goboxd-hosts-1.masked")
  maskedResolvPath := .ok (str "/tmp/goboxd-resolv-1.masked")
  maskedNsswitchPath := .ok (str "/tmp/goboxd-nsswitch-1.masked")
  isDir := fun _ => false
  ccache := false

def emptyDir : Cgroupv2.Dir := ⟨none, .error [], none⟩

def noUsage : Rusage := ⟨⟨0, 0⟩, ⟨0, 0⟩, 0⟩

def printing (stdout : GoString) : TestWorld where
  ctxBefore := none
  exec :=
    { host := calmHost
      mkdirApp := none
      stdoutPipe := none
      stderrPipe := none
      dirBefore := emptyDir
      rusageBefore := noUsage
      start := fun _ => none
      run := fun _ _ =>
        { stdout := stdout
          stderr := []
          isOOMKill := false
          isCPUKill := false
          wait := none
          ps := some (.exited 0)
          dirAfter := emptyDir
          rusageAfter := noUsage } }
  ctxAfter := none
  durationMs := 0
  peakDir := emptyDir
  rusage := none

def pyRegistry : Registry := [(str "py3", newLanguageConfig pyLang)]

theorem accepted_sound_short :
    VerdictSound (str "abcd") (str "abcd") 4
      (runSingleTest (printing (str "abcd")) ⟨[], str "abcd"⟩
        (newLanguageConfig pyLang) pyJail (pyRequest (str "abcd"))).status := by
  have hval : validateRun (fun _ => []) pyRegistry (.ok (pyRequest (str "abcd"))) =
      .ok (pyRequest (str "abcd"), newLanguageConfig pyLang) := rfl
  have hno : ¬ MatchesTruncated (str "abcd") (str "abcd") 4 := by
    rintro ⟨hlong, -⟩
    exact absurd hlong (by decide)
  exact (accepted_sound_iff (w := printing (str "abcd")) (j := pyJail) hval
    List.mem_cons_self (by decide) rfl rfl rfl rfl rfl (by decide)).mpr (.inr hno)

theorem truncated_output_accepted :
    ∃ output expected : GoString, expected ≠ [] ∧
      validateRun (fun _ => []) pyRegistry (.ok (pyRequest expected)) =
        .ok (pyRequest expected, newLanguageConfig pyLang) ∧
      (runSingleTest (printing output) ⟨[], expected⟩ (newLanguageConfig pyLang)
        pyJail (pyRequest expected)).status = .accepted ∧
      output ≠ expected ∧ 4 < output.length := by
  refine ⟨str "abcdef", str "abcd\n... [output truncated]", by decide, rfl, rfl,
    by decide, by decide⟩

end Goboxd.Runner
