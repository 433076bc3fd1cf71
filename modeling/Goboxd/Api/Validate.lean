import Goboxd.Lib.GoError
import Goboxd.Runner.Command

/-!
# Validation of a request

Everything `HandleRun` checks before it asks the gate for a slot, in the order
of the source. A check that fails answers 400 with the error given here and
nothing after it is looked at. The JSON decoder is outside the repository, so
its result is an argument.
-/

namespace Goboxd.Api

open Go Models Config Runner

def maxTests : Int := 50

def maxFieldBytes : Nat := 64 * 1024

/-- `writeError` when a check fails. -/
def reject (bad : Prop) [Decidable bad] (code : String) (message : GoString) :
    Except ErrorDetail Unit :=
  if bad then .error ⟨str code, message⟩ else .ok ()

def isValidFilename (name : GoString) : Bool :=
  if name = [] then true
  else if name.length > 64 then false
  else
    !(containsAny name (str "/\\") || hasPrefix name (str ".") ||
      contains name (str ".."))

/-- One pattern of an allowlist: a trailing star matches any suffix. -/
def flagMatches (flag pattern : GoString) : Bool :=
  if hasSuffix pattern (str "*") then
    hasPrefix flag (trimSuffix pattern (str "*"))
  else flag = pattern

/-- The first flag the allowlist does not allow. -/
def validateFlags (flags allowlist : List GoString) : Option GoString :=
  if allowlist = [] then none
  else flags.find? fun flag => !allowlist.any (flagMatches flag)

/-- The ceiling of one field, which the stage maximum stands in for. -/
def ceilingAt (fieldCeiling fieldMax : Int) : Int :=
  if fieldCeiling = 0 then fieldMax else fieldCeiling

/-- `build.limits.wall_time_s` and the like. -/
def limitPath (stageName : String) (field : GoString) : GoString :=
  str stageName ++ str ".limits." ++ field

def checkPositive (stageName : String) (field : GoString) (value : Int) :
    Except ErrorDetail Unit :=
  reject (value ≤ 0) "invalid_limit"
    (limitPath stageName field ++ str " must be positive")

def checkCeiling (stageName : String) (field : GoString)
    (value maximum fieldCeiling : Int) : Except ErrorDetail Unit :=
  let effective := ceilingAt fieldCeiling maximum
  reject (value > effective) "limit_exceeded"
    (limitPath stageName field ++ str " of " ++ itoa value ++
      str " exceeds ceiling of " ++ itoa effective)

/-- The closure `check` of `validateStageLimits`. -/
def checkLimit (stageName : String) (field : GoString) (value : Option Int)
    (maximum fieldCeiling : Int) : Except ErrorDetail Unit :=
  match value with
  | none => .ok ()
  | some value => do
      checkPositive stageName field value
      checkCeiling stageName field value maximum fieldCeiling

/-- The cpu limit, which a language without one refuses altogether. -/
def checkCpuLimit (stageName : String) (value : Option Int)
    (maximum fieldCeiling : Int) : Except ErrorDetail Unit :=
  match value with
  | none => .ok ()
  | some value => do
      let field := str "cpu_time_s"
      checkPositive stageName field value
      reject (maximum = 0) "invalid_limit"
        (limitPath stageName field ++
          str " is not allowed: this language has no cpu limit configured")
      checkCeiling stageName field value maximum fieldCeiling

def validateStageLimits (stage : Option StageConfig)
    (max ceiling : Config.Limits) (hasBuild : Bool) (stageName : String) :
    Except ErrorDetail Unit :=
  match stage.bind StageConfig.limits with
  | none => .ok ()
  | some l => do
      reject (hasBuild = false) "invalid_limit"
        (str stageName ++
          str ".limits are not allowed: this language has no " ++
          str stageName ++ str " stage")
      checkLimit stageName (str "wall_time_s") l.wallTimeS
        max.wallTimeS ceiling.wallTimeS
      checkLimit stageName (str "memory_kb") l.memoryKB
        max.memoryKB ceiling.memoryKB
      checkLimit stageName (str "max_processes") l.maxProcesses
        max.maxProcesses ceiling.maxProcesses
      checkCpuLimit stageName l.cpuTimeS max.cpuTimeS ceiling.cpuTimeS

def checkTestField (i : Nat) (field : String) (value : GoString) :
    Except ErrorDetail Unit :=
  reject (value.length > maxFieldBytes) "test_too_large"
    (str "tests[" ++ itoa i ++ str "]." ++ str field ++ str " exceeds " ++
      itoa maxFieldBytes ++ str " bytes")

def checkTests : Nat → List TestCase → Except ErrorDetail Unit
  | _, [] => .ok ()
  | i, tc :: rest => do
      checkTestField i "stdin" tc.stdin
      checkTestField i "expected_stdout" tc.expectedStdout
      checkTests (i + 1) rest

def checkFlags (flags allowlist : List GoString) (stageName : String) :
    Except ErrorDetail Unit :=
  match validateFlags flags allowlist with
  | none => .ok ()
  | some bad =>
      .error ⟨str "invalid_flags",
        str "disallowed " ++ str stageName ++ str " flag: " ++ bad⟩

def outputCeiling (getenv : Env) : Int :=
  match atoi (getenv "GOBOXD_MAX_OUTPUT_BYTES") with
  | some v => if v > 0 then v else 1048576
  | none => 1048576

def checkOutputCap (getenv : Env) (maxOutputBytes : Option Int) :
    Except ErrorDetail Unit :=
  match maxOutputBytes with
  | none => .ok ()
  | some n =>
      reject (n > 0 ∧ n > outputCeiling getenv) "limit_exceeded"
        (str "max_output_bytes of " ++ itoa n ++ str " exceeds ceiling of " ++
          itoa (outputCeiling getenv))

def checkMaxParallel (maxParallel : Option Int) : Except ErrorDetail Unit :=
  match maxParallel with
  | none => .ok ()
  | some n =>
      reject (n > 0 ∧ n > maxTests) "invalid_max_parallel"
        (str "max_parallel of " ++ itoa n ++ str " exceeds maximum of " ++
          itoa maxTests)

def decodeRequest (decoded : Except GoString RunRequest) :
    Except ErrorDetail RunRequest :=
  match decoded with
  | .ok req => .ok req
  | .error err =>
      .error ⟨str "invalid_request",
        if err = str "http: request body too large" then
          str "request payload exceeds 256 KiB limit"
        else str "invalid json payload"⟩

def validateFields (req : RunRequest) : Except ErrorDetail Unit := do
  reject (req.language = []) "missing_language" (str "language field is required")
  reject (req.source = []) "missing_source" (str "source field is required")
  reject (req.tests = []) "missing_tests" (str "at least one test is required")
  reject (req.tests.length > maxTests) "too_many_tests"
    (str "test count exceeds maximum of " ++ itoa maxTests)
  checkMaxParallel req.maxParallel
  checkTests 0 req.tests
  reject (!isValidFilename req.sourceFilename ∨
      !isValidFilename req.artifactFilename) "invalid_filename"
    (str "filename must be a single path component without traversal characters")

def lookupLanguage (reg : Registry) (language : GoString) :
    Except ErrorDetail LanguageConfig :=
  match reg.lookup language with
  | some lc => .ok lc
  | none =>
      .error ⟨str "unknown_language",
        str "language '" ++ language ++ str "' is not in the registry"⟩

def validateAgainst (getenv : Env) (req : RunRequest) (lc : LanguageConfig) :
    Except ErrorDetail Unit := do
  validateStageLimits req.build lc.buildLimits lc.buildCeiling
    (lc.buildCmd ≠ []) "build"
  validateStageLimits req.run lc.runLimits lc.runCeiling true "run"
  checkFlags (stageFlags req.build) lc.flagAllowlist "build"
  checkFlags (stageFlags req.run) lc.flagAllowlist "run"
  checkOutputCap getenv req.maxOutputBytes

/-- `HandleRun` up to the admission gate: the request and its language, or the
error it answers. -/
def validateRun (getenv : Env) (reg : Registry)
    (decoded : Except GoString RunRequest) :
    Except ErrorDetail (RunRequest × LanguageConfig) := do
  let req ← decodeRequest decoded
  validateFields req
  let lc ← lookupLanguage reg req.language
  validateAgainst getenv req lc
  return (req, lc)

/-! ## What a request that passes has -/

theorem reject_ok {bad : Prop} [Decidable bad] {code : String}
    {message : GoString} {u : Unit} (h : reject bad code message = .ok u) :
    ¬ bad := by
  unfold reject at h
  split at h
  · cases h
  · next hb => exact hb

theorem checkOutputCap_ok {getenv : Env} {n : Int} {u : Unit}
    (h : checkOutputCap getenv (some n) = .ok u) (hn : 0 < n) :
    n ≤ outputCeiling getenv := by
  have hb := reject_ok h
  omega

theorem lookupLanguage_ok {reg : Registry} {language : GoString}
    {lc : LanguageConfig} (h : lookupLanguage reg language = .ok lc) :
    reg.lookup language = some lc := by
  unfold lookupLanguage at h
  split at h
  · next hl => cases h; exact hl
  · cases h

theorem decodeRequest_ok {decoded : Except GoString RunRequest}
    {req : RunRequest} (h : decodeRequest decoded = .ok req) :
    decoded = .ok req := by
  cases decoded with
  | ok req' => cases h; rfl
  | error err => cases h

theorem checkTests_ok : ∀ {tests : List TestCase} {i : Nat} {u : Unit},
    checkTests i tests = .ok u → ∀ tc ∈ tests,
    tc.stdin.length ≤ maxFieldBytes ∧ tc.expectedStdout.length ≤ maxFieldBytes := by
  intro tests
  induction tests with
  | nil => intro i u _ tc htc; cases htc
  | cons t rest ih =>
      intro i u h tc htc
      rw [checkTests] at h
      obtain ⟨_, hstdin, h⟩ := bind_eq_ok h
      obtain ⟨_, hexpected, h⟩ := bind_eq_ok h
      rcases List.mem_cons.mp htc with rfl | hmem
      · exact ⟨Nat.not_lt.mp (reject_ok hstdin), Nat.not_lt.mp (reject_ok hexpected)⟩
      · exact ih h tc hmem

theorem validateFields_ok {req : RunRequest} {u : Unit}
    (h : validateFields req = .ok u) :
    req.tests ≠ [] ∧ (req.tests.length : Int) ≤ maxTests ∧
      (∀ tc ∈ req.tests, tc.stdin.length ≤ maxFieldBytes ∧
        tc.expectedStdout.length ≤ maxFieldBytes) ∧
      isValidFilename req.sourceFilename = true ∧
      isValidFilename req.artifactFilename = true := by
  unfold validateFields at h
  obtain ⟨_, _, h⟩ := bind_eq_ok h
  obtain ⟨_, _, h⟩ := bind_eq_ok h
  obtain ⟨_, hsome, h⟩ := bind_eq_ok h
  obtain ⟨_, hfew, h⟩ := bind_eq_ok h
  obtain ⟨_, _, h⟩ := bind_eq_ok h
  obtain ⟨_, htests, hnames⟩ := bind_eq_ok h
  have hnames := reject_ok hnames
  simp only [Bool.not_eq_true', not_or, Bool.not_eq_false] at hnames
  exact ⟨reject_ok hsome, Int.not_lt.mp (reject_ok hfew), checkTests_ok htests,
    hnames⟩

theorem validateAgainst_ok {getenv : Env} {req : RunRequest}
    {lc : LanguageConfig} {u : Unit}
    (h : validateAgainst getenv req lc = .ok u) {n : Int}
    (hn : req.maxOutputBytes = some n) (hpos : 0 < n) :
    n ≤ outputCeiling getenv := by
  unfold validateAgainst at h
  obtain ⟨_, _, h⟩ := bind_eq_ok h
  obtain ⟨_, _, h⟩ := bind_eq_ok h
  obtain ⟨_, _, h⟩ := bind_eq_ok h
  obtain ⟨_, _, h⟩ := bind_eq_ok h
  rw [hn] at h
  exact checkOutputCap_ok h hpos

theorem checkFlags_ok {flags allowlist : List GoString} {stageName : String}
    {u : Unit} (h : checkFlags flags allowlist stageName = .ok u) :
    validateFlags flags allowlist = none := by
  unfold checkFlags at h
  split at h
  · next hnone => exact hnone
  · cases h

theorem validateAgainst_flags {getenv : Env} {req : RunRequest}
    {lc : LanguageConfig} {u : Unit} (h : validateAgainst getenv req lc = .ok u) :
    validateFlags (stageFlags req.build) lc.flagAllowlist = none ∧
      validateFlags (stageFlags req.run) lc.flagAllowlist = none := by
  unfold validateAgainst at h
  obtain ⟨_, _, h⟩ := bind_eq_ok h
  obtain ⟨_, _, h⟩ := bind_eq_ok h
  obtain ⟨_, hbuild, h⟩ := bind_eq_ok h
  obtain ⟨_, hrun, _⟩ := bind_eq_ok h
  exact ⟨checkFlags_ok hbuild, checkFlags_ok hrun⟩

/-- What the rest of the program may rely on in a request that passed. -/
structure Validated (getenv : Env) (reg : Registry) (req : RunRequest)
    (lc : LanguageConfig) : Prop where
  language : reg.lookup req.language = some lc
  someTest : req.tests ≠ []
  fewTests : (req.tests.length : Int) ≤ maxTests
  fields : ∀ tc ∈ req.tests, tc.stdin.length ≤ maxFieldBytes ∧
    tc.expectedStdout.length ≤ maxFieldBytes
  sourceFilename : isValidFilename req.sourceFilename = true
  artifactFilename : isValidFilename req.artifactFilename = true
  outputCap : ∀ n, req.maxOutputBytes = some n → 0 < n →
    n ≤ outputCeiling getenv

theorem validateRun_ok {getenv : Env} {reg : Registry}
    {decoded : Except GoString RunRequest} {req : RunRequest}
    {lc : LanguageConfig}
    (h : validateRun getenv reg decoded = .ok (req, lc)) :
    decoded = .ok req ∧ Validated getenv reg req lc := by
  unfold validateRun at h
  obtain ⟨req', hdec, h⟩ := bind_eq_ok h
  obtain ⟨_, hfields, h⟩ := bind_eq_ok h
  obtain ⟨lc', hlang, h⟩ := bind_eq_ok h
  obtain ⟨_, hagainst, h⟩ := bind_eq_ok h
  cases h
  have ⟨hsome, hfew, htests, hsrc, hart⟩ := validateFields_ok hfields
  exact ⟨decodeRequest_ok hdec, lookupLanguage_ok hlang, hsome, hfew, htests,
    hsrc, hart, fun _ => validateAgainst_ok hagainst⟩

/-- The flags of both stages passed the one allowlist that the language kept. -/
theorem validateRun_flags {getenv : Env} {reg : Registry}
    {decoded : Except GoString RunRequest} {req : RunRequest}
    {lc : LanguageConfig}
    (h : validateRun getenv reg decoded = .ok (req, lc)) :
    validateFlags (stageFlags req.build) lc.flagAllowlist = none ∧
      validateFlags (stageFlags req.run) lc.flagAllowlist = none := by
  unfold validateRun at h
  obtain ⟨_, _, h⟩ := bind_eq_ok h
  obtain ⟨_, _, h⟩ := bind_eq_ok h
  obtain ⟨_, _, h⟩ := bind_eq_ok h
  obtain ⟨_, hagainst, h⟩ := bind_eq_ok h
  cases h
  exact validateAgainst_flags hagainst

end Goboxd.Api
