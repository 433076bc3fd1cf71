import Goboxd.Proofs.FileNames
import Goboxd.Proofs.OutputVerdict

/-!
# The limits of a stage, from the check to the exec

The same four fields go through three places: `validateStageLimits` compares
them with the stage's limits and ceilings, `resolveCeiling` has made the ceilings
when the registry was loaded, and `runBuild` and `runSingleTest` put the
request's values over the configured ones. A field is a name here, and each of
the three is read field by field.

The check is four checks in a row. It passes when all of them do, and what it
answers otherwise is what the first one that fails answers.
-/

namespace Goboxd.Runner

open Go Models Config

/-- A limit of a stage. -/
inductive LimitField where
  | wallTime
  | memory
  | processes
  | cpuTime
deriving DecidableEq, Repr

/-- What the request gives. -/
def LimitField.asked : LimitField → Models.Limits → Option Int
  | .wallTime => Models.Limits.wallTimeS
  | .memory => Models.Limits.memoryKB
  | .processes => Models.Limits.maxProcesses
  | .cpuTime => Models.Limits.cpuTimeS

/-- What a stage is configured with. -/
def LimitField.value : LimitField → Config.Limits → Int
  | .wallTime => Config.Limits.wallTimeS
  | .memory => Config.Limits.memoryKB
  | .processes => Config.Limits.maxProcesses
  | .cpuTime => Config.Limits.cpuTimeS

/-- What `execJail` is passed. -/
def LimitField.passed : LimitField → ExecLimits → Int
  | .wallTime => ExecLimits.wallTime
  | .memory => ExecLimits.memKB
  | .processes => ExecLimits.procs
  | .cpuTime => ExecLimits.cpuLimit

/-- The field of the request's limits, absent when the stage or its limits
are. -/
def LimitField.given (f : LimitField) (stage : Option StageConfig) : Option Int :=
  (stage.bind StageConfig.limits).bind f.asked

/-- Positive limits, with ceilings that are not below them; a cpu limit of zero
stands for none. -/
structure StageSound (limits ceiling : Config.Limits) : Prop where
  positive : ∀ f : LimitField, f ≠ .cpuTime → 0 < f.value limits
  cpu : 0 ≤ limits.cpuTimeS
  ceiling : ∀ f : LimitField, f.value limits ≤ f.value ceiling

/-- The limits of an exec are the client's where it gave them and the configured
ones elsewhere, and they are in their bounds. -/
structure Enforced (limits ceiling : Config.Limits) (stage : Option StageConfig)
    (lim : ExecLimits) : Prop where
  client : ∀ (f : LimitField) (v : Int), f.given stage = some v → f.passed lim = v
  configured : ∀ f : LimitField, f.given stage = none → f.passed lim = f.value limits
  positive : ∀ f : LimitField, f ≠ .cpuTime → 0 < f.passed lim
  bounded : ∀ f : LimitField, f.passed lim ≤ f.value ceiling
  noCpuLimit : lim.cpuLimit = 0 ↔ limits.cpuTimeS = 0
  cpuLimit : limits.cpuTimeS ≠ 0 → 0 < lim.cpuLimit

/-! ## What the request's values are put over -/

theorem stageLimits_passed (f : LimitField) (limits : Config.Limits)
    (stage : Option StageConfig) :
    f.passed (stageLimits limits stage) = (f.given stage).getD (f.value limits) := by
  cases f <;> rfl

/-! ## The ceilings of a loaded entry -/

theorem resolveCeiling_value (f : LimitField) (ceiling limits : Config.Limits) :
    f.value (resolveCeiling ceiling limits true) =
      orMax (f.value ceiling) (f.value limits) := by
  cases f <;> rfl

/-- A ceiling that the YAML leaves unset, or does not set below the limit,
resolves to one that is not below it. -/
theorem resolveCeiling_sound {limits ceiling : Config.Limits} {hasCeiling : Bool}
    (hpos : ∀ f : LimitField, f ≠ .cpuTime → 0 < f.value limits)
    (hcpu : 0 ≤ limits.cpuTimeS)
    (hceil : hasCeiling = true → ∀ f : LimitField,
      f.value ceiling = 0 ∨ f.value limits ≤ f.value ceiling) :
    StageSound limits (resolveCeiling ceiling limits hasCeiling) := by
  refine ⟨hpos, hcpu, fun f => ?_⟩
  cases hasCeiling with
  | false => exact Int.le_refl _
  | true =>
      rw [resolveCeiling_value, orMax]
      split
      · exact Int.le_refl _
      · next hne => exact (hceil rfl f).resolve_left hne

end Goboxd.Runner

namespace Goboxd.Api

open Go Models Config Runner

/-! ## The check, field by field -/

theorem reject_ok_iff {bad : Prop} [Decidable bad] {code : String}
    {message : GoString} {u : Unit} :
    reject bad code message = .ok u ↔ ¬ bad := by
  unfold reject
  split
  · next h => simp [h]
  · next h => simp [h]

theorem bind_unit_ok_iff {x : Except ErrorDetail Unit}
    {y : Unit → Except ErrorDetail Unit} {u : Unit} :
    x >>= y = .ok u ↔ x = .ok () ∧ y () = .ok u := by
  cases x with
  | error d => simp [bind, Except.bind]
  | ok v => simp [bind, Except.bind]

theorem bind_unit_error {x : Except ErrorDetail Unit}
    {y : Unit → Except ErrorDetail Unit} {d : ErrorDetail} (h : x = .ok ()) :
    x >>= y = .error d ↔ y () = .error d := by
  rw [h]
  rfl

/-- The check of one field of `validateStageLimits`. -/
def checkField (stageName : String) (limits ceiling : Config.Limits)
    (l : Models.Limits) : LimitField → Except ErrorDetail Unit
  | .wallTime =>
      checkLimit stageName (str "wall_time_s") l.wallTimeS limits.wallTimeS
        ceiling.wallTimeS
  | .memory =>
      checkLimit stageName (str "memory_kb") l.memoryKB limits.memoryKB
        ceiling.memoryKB
  | .processes =>
      checkLimit stageName (str "max_processes") l.maxProcesses
        limits.maxProcesses ceiling.maxProcesses
  | .cpuTime => checkCpuLimit stageName l.cpuTimeS limits.cpuTimeS ceiling.cpuTimeS

/-- A value that the check of its field lets pass. -/
structure Allowed (limits ceiling : Config.Limits) (f : LimitField) (v : Int) :
    Prop where
  positive : 0 < v
  cpuLimit : f = .cpuTime → limits.cpuTimeS ≠ 0
  ceiling : v ≤ ceilingAt (f.value ceiling) (f.value limits)

theorem checkPositive_ok_iff {stageName : String} {field : GoString} {v : Int}
    {u : Unit} : checkPositive stageName field v = .ok u ↔ 0 < v := by
  rw [checkPositive, reject_ok_iff, Int.not_le]

theorem checkCeiling_ok_iff {stageName : String} {field : GoString}
    {v maximum fieldCeiling : Int} {u : Unit} :
    checkCeiling stageName field v maximum fieldCeiling = .ok u ↔
      v ≤ ceilingAt fieldCeiling maximum := by
  rw [checkCeiling, reject_ok_iff, Int.not_lt]

theorem checkLimit_ok_iff {stageName : String} {field : GoString}
    {value : Option Int} {maximum fieldCeiling : Int} :
    checkLimit stageName field value maximum fieldCeiling = .ok () ↔
      ∀ v, value = some v → 0 < v ∧ v ≤ ceilingAt fieldCeiling maximum := by
  cases value with
  | none => simp [checkLimit]
  | some v =>
      rw [checkLimit, bind_unit_ok_iff, checkPositive_ok_iff, checkCeiling_ok_iff]
      simp

theorem checkCpuLimit_ok_iff {stageName : String} {value : Option Int}
    {maximum fieldCeiling : Int} :
    checkCpuLimit stageName value maximum fieldCeiling = .ok () ↔
      ∀ v, value = some v →
        0 < v ∧ maximum ≠ 0 ∧ v ≤ ceilingAt fieldCeiling maximum := by
  cases value with
  | none => simp [checkCpuLimit]
  | some v =>
      rw [checkCpuLimit, bind_unit_ok_iff, checkPositive_ok_iff, bind_unit_ok_iff,
        reject_ok_iff, checkCeiling_ok_iff]
      simp

theorem checkField_ok_iff {stageName : String} {limits ceiling : Config.Limits}
    {l : Models.Limits} {f : LimitField} :
    checkField stageName limits ceiling l f = .ok () ↔
      ∀ v, f.asked l = some v → Allowed limits ceiling f v := by
  have hplain : ∀ {g : LimitField} {v : Int}, g ≠ .cpuTime →
      (Allowed limits ceiling g v ↔
        0 < v ∧ v ≤ ceilingAt (g.value ceiling) (g.value limits)) := by
    intro g v hg
    exact ⟨fun h => ⟨h.positive, h.ceiling⟩,
      fun h => ⟨h.1, fun heq => absurd heq hg, h.2⟩⟩
  cases f with
  | wallTime =>
      simp only [hplain (by decide : LimitField.wallTime ≠ .cpuTime)]
      exact checkLimit_ok_iff
  | memory =>
      simp only [hplain (by decide : LimitField.memory ≠ .cpuTime)]
      exact checkLimit_ok_iff
  | processes =>
      simp only [hplain (by decide : LimitField.processes ≠ .cpuTime)]
      exact checkLimit_ok_iff
  | cpuTime =>
      refine checkCpuLimit_ok_iff.trans ?_
      constructor
      · exact fun h v hv => ⟨(h v hv).1, fun _ => (h v hv).2.1, (h v hv).2.2⟩
      · exact fun h v hv =>
          ⟨(h v hv).positive, (h v hv).cpuLimit rfl, (h v hv).ceiling⟩

/-- The stage's limits are checked one after the other. -/
theorem validateStageLimits_fields {stage : Option StageConfig}
    {l : Models.Limits} (h : stage.bind StageConfig.limits = some l)
    (limits ceiling : Config.Limits) (stageName : String) :
    validateStageLimits stage limits ceiling true stageName =
      (do checkField stageName limits ceiling l .wallTime
          checkField stageName limits ceiling l .memory
          checkField stageName limits ceiling l .processes
          checkField stageName limits ceiling l .cpuTime) := by
  rw [validateStageLimits, h]
  rfl

theorem validateStageLimits_noStage {stage : Option StageConfig}
    {l : Models.Limits} (h : stage.bind StageConfig.limits = some l)
    (limits ceiling : Config.Limits) (stageName : String) :
    validateStageLimits stage limits ceiling false stageName ≠ .ok () := by
  rw [validateStageLimits, h]
  intro hok
  exact reject_ok (bind_unit_ok_iff.mp hok).1 rfl

/-- The limits of a stage pass when the language has the stage and every given
field passes. -/
theorem validateStageLimits_ok_iff {stage : Option StageConfig}
    {limits ceiling : Config.Limits} {hasBuild : Bool} {stageName : String} :
    validateStageLimits stage limits ceiling hasBuild stageName = .ok () ↔
      ∀ l, stage.bind StageConfig.limits = some l →
        hasBuild = true ∧
          ∀ f v, f.asked l = some v → Allowed limits ceiling f v := by
  cases hl : stage.bind StageConfig.limits with
  | none =>
      rw [validateStageLimits, hl]
      simp
  | some l =>
      cases hasBuild with
      | false =>
          constructor
          · exact fun h => absurd h (validateStageLimits_noStage hl limits ceiling stageName)
          · intro h
            cases (h l rfl).1
      | true =>
          rw [validateStageLimits_fields hl]
          simp only [bind_unit_ok_iff, checkField_ok_iff]
          constructor
          · rintro ⟨hwall, hmem, hprocs, hcpu⟩ _ heq
            cases heq
            refine ⟨trivial, fun f => ?_⟩
            cases f with
            | wallTime => exact hwall
            | memory => exact hmem
            | processes => exact hprocs
            | cpuTime => exact hcpu
          · intro h
            have hf := (h l rfl).2
            exact ⟨hf .wallTime, hf .memory, hf .processes, hf .cpuTime⟩

/-- Of a stage whose other fields pass, the check answers what the check of the
remaining field answers. -/
theorem validateStageLimits_error {stage : Option StageConfig}
    {l : Models.Limits} (hl : stage.bind StageConfig.limits = some l)
    {limits ceiling : Config.Limits} {stageName : String} {f : LimitField}
    {d : ErrorDetail} (hf : checkField stageName limits ceiling l f = .error d)
    (hothers : ∀ g, g ≠ f → checkField stageName limits ceiling l g = .ok ()) :
    validateStageLimits stage limits ceiling true stageName = .error d := by
  rw [validateStageLimits_fields hl]
  cases f with
  | wallTime =>
      rw [hf]
      rfl
  | memory =>
      rw [hothers .wallTime (by decide), hf]
      rfl
  | processes =>
      rw [hothers .wallTime (by decide), hothers .memory (by decide), hf]
      rfl
  | cpuTime =>
      rw [hothers .wallTime (by decide), hothers .memory (by decide),
        hothers .processes (by decide), hf]
      rfl

/-! ## A request that passes -/

/-- The limits that a stage of a request which passes the check runs under. -/
theorem enforced_of_validated {limits ceiling : Config.Limits}
    {stage : Option StageConfig} {hasBuild : Bool} {stageName : String}
    (hsound : StageSound limits ceiling)
    (hok : validateStageLimits stage limits ceiling hasBuild stageName = .ok ()) :
    Enforced limits ceiling stage (stageLimits limits stage) := by
  have hgiven : ∀ (f : LimitField) (v : Int), f.given stage = some v →
      Allowed limits ceiling f v := by
    intro f v hv
    obtain ⟨l, hl, hv⟩ := Option.bind_eq_some_iff.mp hv
    exact (validateStageLimits_ok_iff.mp hok l hl).2 f v hv
  have hceil : ∀ f : LimitField, f.value limits ≠ 0 →
      ceilingAt (f.value ceiling) (f.value limits) = f.value ceiling := by
    intro f hf
    have hle := hsound.ceiling f
    have hnonneg : 0 ≤ f.value limits := by
      by_cases hcpu : f = .cpuTime
      · rw [hcpu]
        exact hsound.cpu
      · exact Int.le_of_lt (hsound.positive f hcpu)
    rw [ceilingAt, if_neg (by omega)]
  have hne : ∀ {f : LimitField} {v : Int}, Allowed limits ceiling f v →
      f.value limits ≠ 0 := by
    intro f v hv
    by_cases hcpu : f = .cpuTime
    · rw [hcpu]
      exact hv.cpuLimit hcpu
    · have := hsound.positive f hcpu
      omega
  have hclient : ∀ (f : LimitField) (v : Int), f.given stage = some v →
      f.passed (stageLimits limits stage) = v := by
    intro f v hv
    rw [stageLimits_passed, hv]
    rfl
  have hconfigured : ∀ f : LimitField, f.given stage = none →
      f.passed (stageLimits limits stage) = f.value limits := by
    intro f hv
    rw [stageLimits_passed, hv]
    rfl
  refine
    { client := hclient
      configured := hconfigured
      positive := fun f hf => ?_
      bounded := fun f => ?_
      noCpuLimit := ?_
      cpuLimit := fun hcpu => ?_ }
  · cases hv : f.given stage with
    | none => rw [hconfigured f hv]; exact hsound.positive f hf
    | some v => rw [hclient f v hv]; exact (hgiven f v hv).positive
  · cases hv : f.given stage with
    | none => rw [hconfigured f hv]; exact hsound.ceiling f
    | some v =>
        have hallowed := hgiven f v hv
        rw [hclient f v hv, ← hceil f (hne hallowed)]
        exact hallowed.ceiling
  · show LimitField.passed .cpuTime _ = 0 ↔ _
    cases hv : LimitField.given .cpuTime stage with
    | none => rw [hconfigured _ hv]; rfl
    | some v =>
        have hallowed := hgiven _ v hv
        have hpos := hallowed.positive
        have hcpu : limits.cpuTimeS ≠ 0 := hallowed.cpuLimit rfl
        rw [hclient _ v hv]
        omega
  · show 0 < LimitField.passed .cpuTime _
    cases hv : LimitField.given .cpuTime stage with
    | none =>
        have hlim : LimitField.value .cpuTime limits = limits.cpuTimeS := rfl
        have hnonneg := hsound.cpu
        rw [hconfigured _ hv, hlim]
        omega
    | some v => rw [hclient _ v hv]; exact (hgiven _ v hv).positive

/-- Why a stage's limits are refused. -/
inductive Refused (limits ceiling : Config.Limits) (hasBuild : Bool)
    (stage : Option StageConfig) : Prop where
  | nonPositive {f : LimitField} {v : Int} (hv : f.given stage = some v)
      (h : v ≤ 0)
  | aboveCeiling {f : LimitField} {v : Int} (hv : f.given stage = some v)
      (h : f.value ceiling < v)
  | noCpuLimit {v : Int} (hv : LimitField.given .cpuTime stage = some v)
      (h : limits.cpuTimeS = 0)
  /-- The limits may be an object without a field. -/
  | noStage {l : Models.Limits} (hl : stage.bind StageConfig.limits = some l)
      (h : hasBuild = false)

theorem refused_of_error {limits ceiling : Config.Limits}
    {stage : Option StageConfig} {hasBuild : Bool} {stageName : String}
    {d : ErrorDetail}
    (hsound : hasBuild = true → StageSound limits ceiling)
    (h : validateStageLimits stage limits ceiling hasBuild stageName = .error d) :
    Refused limits ceiling hasBuild stage := by
  have hbad : ¬ validateStageLimits stage limits ceiling hasBuild stageName = .ok () := by
    rw [h]
    intro hok
    cases hok
  rw [validateStageLimits_ok_iff] at hbad
  simp only [not_forall] at hbad
  obtain ⟨l, hl, hbad⟩ := hbad
  cases hasBuild with
  | false => exact .noStage hl rfl
  | true =>
      have hceil := (hsound rfl).ceiling
      simp only [true_and, not_forall] at hbad
      obtain ⟨f, v, hv, hbad⟩ := hbad
      have hgiven : f.given stage = some v := by
        rw [LimitField.given, hl]
        exact hv
      by_cases hpos : v ≤ 0
      · exact .nonPositive hgiven hpos
      · by_cases hcpu : f = .cpuTime ∧ limits.cpuTimeS = 0
        · rw [hcpu.1] at hgiven
          exact .noCpuLimit hgiven hcpu.2
        · refine .aboveCeiling hgiven (Int.not_le.mp fun hle => hbad ?_)
          refine ⟨Int.not_le.mp hpos, fun hf h0 => hcpu ⟨hf, h0⟩, ?_⟩
          have := hceil f
          unfold ceilingAt
          split
          · next h0 => omega
          · exact hle

/-- The two checks of `HandleRun`, as `validateAgainst` makes them first. -/
theorem validateAgainst_limits {getenv : Env} {req : RunRequest}
    {lc : LanguageConfig} {u : Unit} (h : validateAgainst getenv req lc = .ok u) :
    validateStageLimits req.build lc.buildLimits lc.buildCeiling
        (lc.buildCmd ≠ []) "build" = .ok () ∧
      validateStageLimits req.run lc.runLimits lc.runCeiling true "run" = .ok () := by
  unfold validateAgainst at h
  obtain ⟨_, hbuild, h⟩ := bind_eq_ok h
  obtain ⟨_, hrun, _⟩ := bind_eq_ok h
  exact ⟨hbuild, hrun⟩

theorem validateRun_against {getenv : Env} {reg : Registry}
    {decoded : Except GoString RunRequest} {req : RunRequest}
    {lc : LanguageConfig}
    (h : validateRun getenv reg decoded = .ok (req, lc)) :
    validateAgainst getenv req lc = .ok () := by
  unfold validateRun at h
  obtain ⟨_, _, h⟩ := bind_eq_ok h
  obtain ⟨_, _, h⟩ := bind_eq_ok h
  obtain ⟨_, _, h⟩ := bind_eq_ok h
  obtain ⟨_, hagainst, h⟩ := bind_eq_ok h
  cases h
  exact hagainst

/-- The limits that a request asks for are the ones it runs under. Of every
entry with sound limits: a request that is accepted has its build and all its
tests executed under the client's values where it gave them and the configured
ones elsewhere, in their bounds; and the check of the limits refuses a request
for a value that is out of bounds only, for a cpu limit where the language has
none, or for limits of a build stage that the language does not have. -/
theorem limits_enforced {lc : LanguageConfig}
    (hbuild : lc.buildCmd ≠ [] → StageSound lc.buildLimits lc.buildCeiling)
    (hrun : StageSound lc.runLimits lc.runCeiling) :
    (∀ (getenv : Env) (reg : Registry) (decoded : Except GoString RunRequest)
        (req : RunRequest), validateRun getenv reg decoded = .ok (req, lc) →
      (lc.buildCmd ≠ [] → ∃ lim,
        Enforced lc.buildLimits lc.buildCeiling req.build lim ∧
          ∀ w j, runBuild w j req lc =
            buildVerdict w.ctxAfter
              (execJail w.exec j (buildCmdArgs req lc) lim [] (outputCap req))) ∧
      ∃ lim, Enforced lc.runLimits lc.runCeiling req.run lim ∧
        ∀ w tc j, testOutcome w tc lc j req =
          execJail w.exec j (runCmdArgs req lc) lim tc.stdin (outputCap req)) ∧
    ∀ (req : RunRequest) (d : ErrorDetail),
      (validateStageLimits req.build lc.buildLimits lc.buildCeiling
          (lc.buildCmd ≠ []) "build" = .error d →
        Refused lc.buildLimits lc.buildCeiling (lc.buildCmd ≠ []) req.build) ∧
      (validateStageLimits req.run lc.runLimits lc.runCeiling true "run" =
          .error d →
        Refused lc.runLimits lc.runCeiling true req.run) := by
  constructor
  · intro getenv reg decoded req hval
    obtain ⟨hb, hr⟩ := validateAgainst_limits (validateRun_against hval)
    exact ⟨fun hcmd =>
        ⟨_, enforced_of_validated (hbuild hcmd) hb, fun w j => rfl⟩,
      _, enforced_of_validated hrun hr, fun _ _ _ => rfl⟩
  · intro req d
    exact ⟨refused_of_error fun hcmd => hbuild (of_decide_eq_true hcmd),
      refused_of_error fun _ => hrun⟩

/-! ## The entries for C and Python -/

theorem cLang_build_sound :
    StageSound ⟨5, 1048576, 100, 40⟩ (resolveCeiling .zero ⟨5, 1048576, 100, 40⟩ false) :=
  resolveCeiling_sound (by intro f; cases f <;> decide) (by decide)
    (by intro h; cases h)

theorem cLang_run_sound :
    StageSound ⟨5, 524288, 64, 20⟩ (resolveCeiling .zero ⟨5, 524288, 64, 20⟩ false) :=
  resolveCeiling_sound (by intro f; cases f <;> decide) (by decide)
    (by intro h; cases h)

/-- A request with limits of its own for both stages. -/
def cLimited : RunRequest :=
  { cRequest [] with
    build := some ⟨some ⟨some 3, none, none, some 40⟩, []⟩
    run := some ⟨some ⟨none, some 262144, some 64, some 5⟩, []⟩ }

theorem limits_enforced_c :
    (∃ lim, Enforced ⟨5, 1048576, 100, 40⟩ ⟨5, 1048576, 100, 40⟩ cLimited.build lim) ∧
      ∃ lim, Enforced ⟨5, 524288, 64, 20⟩ ⟨5, 524288, 64, 20⟩ cLimited.run lim := by
  have hval : validateRun (fun _ => []) cRegistry (.ok cLimited) =
      .ok (cLimited, newLanguageConfig cLang) := rfl
  have h := (limits_enforced (fun _ => cLang_build_sound) cLang_run_sound).1
    (fun _ => []) cRegistry (.ok cLimited) cLimited hval
  obtain ⟨lim, hbuild, -⟩ := h.1 (by decide)
  obtain ⟨lim', hrun, -⟩ := h.2
  exact ⟨⟨lim, hbuild⟩, lim', hrun⟩

theorem pyLang_run_sound :
    StageSound ⟨9, 1048576, 100, 11⟩
      (resolveCeiling .zero ⟨9, 1048576, 100, 11⟩ false) :=
  resolveCeiling_sound (by intro f; cases f <;> decide) (by decide)
    (by intro h; cases h)

/-- A build section with an empty object of limits. -/
def pyNoLimits : RunRequest :=
  { pyRequest [] with build := some ⟨some ⟨none, none, none, none⟩, []⟩ }

theorem empty_build_limits_refused :
    StageSound (newLanguageConfig pyLang).runLimits
        (newLanguageConfig pyLang).runCeiling ∧
      (newLanguageConfig pyLang).buildCmd = [] ∧
      validateRun (fun _ => []) pyRegistry (.ok pyNoLimits) =
        .error ⟨str "invalid_limit",
          str "build.limits are not allowed: this language has no build stage"⟩ ∧
      ∀ f : LimitField,
        f.given pyNoLimits.build = none ∧ f.given pyNoLimits.run = none := by
  refine ⟨pyLang_run_sound, rfl, rfl, fun f => ?_⟩
  cases f <;> exact ⟨rfl, rfl⟩

end Goboxd.Api
