import Goboxd.Api.Info
import Goboxd.Proofs.StageLimits

/-!
# What `/info` reports of the limits, and what the check accepts

An entry of `/info` has one set of limits and one of ceilings, and a language
may have two stages. The registry keeps the build stage's pair for a language
that has a build, and the run stage's for one that has none. So the values are
right for the stage they were taken from, and only for that one: C's reported
ceilings are those of its compiler, and the run stage refuses them.

Within that stage the reported and the checked ceilings are the same numbers.
What can still go wrong is in the YAML: a ceiling below the limit or below zero,
and a cpu ceiling where the stage has no cpu limit.
-/

namespace Goboxd.Api

open Go Models Config Runner

/-- Every limit asked for is the reported one, which is not zero. -/
def Asks (reported : Config.Limits) (l : Models.Limits) : Prop :=
  ∀ (f : LimitField) (v : Int), f.asked l = some v → v = f.value reported ∧ v ≠ 0

/-- One of the limits raised by one. -/
def raise (l : Models.Limits) : LimitField → Models.Limits
  | .wallTime => { l with wallTimeS := l.wallTimeS.map fun v => v + 1 }
  | .memory => { l with memoryKB := l.memoryKB.map fun v => v + 1 }
  | .processes => { l with maxProcesses := l.maxProcesses.map fun v => v + 1 }
  | .cpuTime => { l with cpuTimeS := l.cpuTimeS.map fun v => v + 1 }

/-- The check that `HandleRun` makes of the limits for the stage that the
entry's values were taken from. -/
def checkReported (lc : LanguageConfig) (l : Models.Limits) (flags : List GoString) :
    Except ErrorDetail Unit :=
  if lc.buildCmd ≠ [] then
    validateStageLimits (some ⟨some l, flags⟩) lc.buildLimits lc.buildCeiling
      (lc.buildCmd ≠ []) "build"
  else
    validateStageLimits (some ⟨some l, flags⟩) lc.runLimits lc.runCeiling true "run"

/-! ## The stage of the reported values -/

theorem checkReported_eq (lang : LanguageYAML) :
    ∃ stageName, ∀ (l : Models.Limits) (flags : List GoString),
      checkReported (newLanguageConfig lang) l flags =
        validateStageLimits (some ⟨some l, flags⟩)
          (newLanguageConfig lang).defaultLimits
          (newLanguageConfig lang).defaultCeiling true stageName := by
  unfold checkReported newLanguageConfig
  cases lang.build with
  | none => exact ⟨"run", fun l flags => if_neg (by simp)⟩
  | some build => exact ⟨"build", fun l flags => if_pos (by simp [expandCmd])⟩

/-- A ceiling that resolves to zero is the ceiling of a limit of zero. -/
theorem defaultCeiling_zero {lang : LanguageYAML} {f : LimitField}
    (h : f.value (newLanguageConfig lang).defaultCeiling = 0) :
    f.value (newLanguageConfig lang).defaultLimits = 0 := by
  have hresolve : ∀ (ceiling limits : Config.Limits) (hasCeiling : Bool),
      f.value (resolveCeiling ceiling limits hasCeiling) = 0 →
      f.value limits = 0 := by
    intro ceiling limits hasCeiling h
    cases hasCeiling with
    | false => exact h
    | true =>
        rw [resolveCeiling_value, orMax] at h
        split at h
        · exact h
        · next hne => exact absurd h hne
  unfold newLanguageConfig at h ⊢
  cases hb : lang.build with
  | none => rw [hb] at h; exact hresolve _ _ _ h
  | some build => rw [hb] at h; exact hresolve _ _ _ h

theorem raise_asked (l : Models.Limits) (f : LimitField) :
    f.asked (raise l f) = (f.asked l).map fun v => v + 1 := by
  cases f <;> rfl

theorem raise_asked_other {l : Models.Limits} {f g : LimitField} (h : g ≠ f) :
    g.asked (raise l f) = g.asked l := by
  cases f <;> cases g <;> first | rfl | exact absurd rfl h

/-! ## The check at its limits -/

theorem checkCeiling_exceeded {stageName : String} {field : GoString}
    {v maximum fieldCeiling : Int} (h : ceilingAt fieldCeiling maximum < v) :
    ∃ message, checkCeiling stageName field v maximum fieldCeiling =
      .error ⟨str "limit_exceeded", message⟩ :=
  ⟨_, if_pos h⟩

theorem checkLimit_exceeded {stageName : String} {field : GoString}
    {value : Option Int} {v maximum fieldCeiling : Int} (hv : value = some v)
    (hpos : 0 < v) (h : ceilingAt fieldCeiling maximum < v) :
    ∃ message, checkLimit stageName field value maximum fieldCeiling =
      .error ⟨str "limit_exceeded", message⟩ := by
  obtain ⟨message, herr⟩ := @checkCeiling_exceeded stageName field _ _ _ h
  refine ⟨message, ?_⟩
  rw [hv, checkLimit, bind_unit_error (checkPositive_ok_iff.mpr hpos)]
  exact herr

theorem checkCpuLimit_exceeded {stageName : String} {value : Option Int}
    {v maximum fieldCeiling : Int} (hv : value = some v) (hpos : 0 < v)
    (hmax : maximum ≠ 0) (h : ceilingAt fieldCeiling maximum < v) :
    ∃ message, checkCpuLimit stageName value maximum fieldCeiling =
      .error ⟨str "limit_exceeded", message⟩ := by
  obtain ⟨message, herr⟩ :=
    @checkCeiling_exceeded stageName (str "cpu_time_s") _ _ _ h
  refine ⟨message, ?_⟩
  rw [hv, checkCpuLimit, bind_unit_error (checkPositive_ok_iff.mpr hpos),
    bind_unit_error (reject_ok_iff.mpr hmax)]
  exact herr

theorem checkField_exceeded {stageName : String} {limits ceiling : Config.Limits}
    {l : Models.Limits} {f : LimitField} {v : Int} (hv : f.asked l = some v)
    (hpos : 0 < v) (hcpu : f = .cpuTime → limits.cpuTimeS ≠ 0)
    (h : ceilingAt (f.value ceiling) (f.value limits) < v) :
    ∃ message, checkField stageName limits ceiling l f =
      .error ⟨str "limit_exceeded", message⟩ := by
  cases f with
  | wallTime => exact checkLimit_exceeded hv hpos h
  | memory => exact checkLimit_exceeded hv hpos h
  | processes => exact checkLimit_exceeded hv hpos h
  | cpuTime => exact checkCpuLimit_exceeded hv hpos (hcpu rfl) h

/-- A request that passes with its values at the ceilings is refused when one
of them is raised. -/
theorem validateStageLimits_raised {limits ceiling : Config.Limits}
    {l : Models.Limits} {flags : List GoString} {stageName : String}
    {f : LimitField} {v : Int} (hasks : Asks ceiling l)
    (hok : validateStageLimits (some ⟨some l, flags⟩) limits ceiling true stageName =
      .ok ())
    (hv : f.asked l = some v) :
    ∃ message,
      validateStageLimits (some ⟨some (raise l f), flags⟩) limits ceiling true
        stageName = .error ⟨str "limit_exceeded", message⟩ := by
  have hallowed := (validateStageLimits_ok_iff.mp hok l rfl).2
  have hf := hallowed f v hv
  have hceil : ceilingAt (f.value ceiling) (f.value limits) = v := by
    obtain ⟨heq, hne⟩ := hasks f v hv
    rw [ceilingAt, ← heq, if_neg hne]
  have hpos := hf.positive
  have hraised : f.asked (raise l f) = some (v + 1) := by
    rw [raise_asked, hv]
    rfl
  obtain ⟨message, herr⟩ := @checkField_exceeded stageName limits ceiling _ f _ hraised
    (by omega) hf.cpuLimit (by omega)
  refine ⟨message, validateStageLimits_error rfl herr fun g hg => ?_⟩
  rw [checkField_ok_iff]
  intro x hx
  rw [raise_asked_other hg] at hx
  exact hallowed g x hx

/-- What `/info` reports is accepted for the stage it was taken from. Of every
language of a loaded registry, with positive limits: a request with the reported
ceilings passes that stage's check exactly when they are positive and no cpu
limit is asked for where there is none; one with the reported limits exactly
when these are not over the ceilings; and from a request that passes with the
reported ceilings no field can be raised by one. -/
theorem reported_limits_accepted {path : GoString} {getenv : Env}
    {file : Except GoString GoString}
    {unmarshal : GoString → Except GoString ConfigYAML} {reg : Registry}
    {id : GoString} {lc : LanguageConfig}
    (hload : loadRegistry path getenv file unmarshal = .ok reg)
    (hid : reg.lookup id = some lc) (probe : Option GoString)
    (hpos : ∀ f : LimitField, f ≠ .cpuTime →
      0 < f.value (languageInfo probe lc).defaultRunLimits)
    (hcpu : 0 ≤ (languageInfo probe lc).defaultRunLimits.cpuTimeS)
    (l : Models.Limits) (flags : List GoString) :
    (Asks (languageInfo probe lc).ceilingRunLimits l →
      (checkReported lc l flags = .ok () ↔
        ∀ (f : LimitField) (v : Int), f.asked l = some v → 0 < v ∧
          (f = .cpuTime → (languageInfo probe lc).defaultRunLimits.cpuTimeS ≠ 0))) ∧
    (Asks (languageInfo probe lc).defaultRunLimits l →
      (checkReported lc l flags = .ok () ↔
        ∀ (f : LimitField) (v : Int), f.asked l = some v →
          v ≤ f.value (languageInfo probe lc).ceilingRunLimits)) ∧
    (Asks (languageInfo probe lc).ceilingRunLimits l →
      checkReported lc l flags = .ok () →
      ∀ (f : LimitField) (v : Int), f.asked l = some v → ∃ message,
        checkReported lc (raise l f) flags =
          .error ⟨str "limit_exceeded", message⟩) := by
  obtain ⟨_, _, _, _, lang, _, _, rfl⟩ := lookup_loadRegistry hload hid
  obtain ⟨stageName, hcheck⟩ := checkReported_eq lang
  rw [hcheck, validateStageLimits_ok_iff]
  refine ⟨fun hasks => ?_, fun hasks => ?_, fun hasks hok f v hv => ?_⟩
  · constructor
    · intro h f v hv
      have hf := (h l rfl).2 f v hv
      exact ⟨hf.positive, hf.cpuLimit⟩
    · rintro h _ heq
      cases heq
      refine ⟨rfl, fun f v hv => ?_⟩
      obtain ⟨heq, hne⟩ := hasks f v hv
      refine ⟨(h f v hv).1, (h f v hv).2, ?_⟩
      rw [ceilingAt, show f.value (newLanguageConfig lang).defaultCeiling = v from heq.symm,
        if_neg hne]
  · have hceil : ∀ f : LimitField, ∀ v, f.asked l = some v →
        ceilingAt (f.value (newLanguageConfig lang).defaultCeiling)
          (f.value (newLanguageConfig lang).defaultLimits) =
        f.value (newLanguageConfig lang).defaultCeiling := by
      intro f v hv
      obtain ⟨heq, hne⟩ := hasks f v hv
      rw [ceilingAt, if_neg fun h0 => hne (heq.trans (defaultCeiling_zero h0))]
    constructor
    · intro h f v hv
      rw [languageInfo, ← hceil f v hv]
      exact ((h l rfl).2 f v hv).ceiling
    · rintro h _ heq
      cases heq
      refine ⟨rfl, fun f v hv => ?_⟩
      obtain ⟨heq, hne⟩ := hasks f v hv
      refine ⟨?_, fun hf h0 => ?_, ?_⟩
      · by_cases hf : f = .cpuTime
        · rw [hf] at heq
          have : v = (languageInfo probe (newLanguageConfig lang)).defaultRunLimits.cpuTimeS :=
            heq
          omega
        · rw [heq]
          exact hpos f hf
      · rw [hf] at heq
        exact hne (heq.trans h0)
      · rw [hceil f v hv]
        exact h f v hv
  · rw [hcheck]
    exact validateStageLimits_raised hasks (validateStageLimits_ok_iff.mpr hok) hv

/-! ## The entry for C -/

/-- The reported limits of C, all four of them. -/
def cReported : Models.Limits := ⟨some 5, some 1048576, some 100, some 40⟩

theorem reported_limits_accepted_c :
    checkReported (newLanguageConfig cLang) cReported [] = .ok () ∧
      ∃ message, checkReported (newLanguageConfig cLang) (raise cReported .memory) [] =
        .error ⟨str "limit_exceeded", message⟩ := by
  have hasks : Asks (newLanguageConfig cLang).defaultCeiling cReported := by
    intro f v hv
    cases f <;> (cases hv; decide)
  have hc : cRegistry.lookup (str "c") = some (newLanguageConfig cLang) := rfl
  have h := reported_limits_accepted load_cRegistry hc none
    (by intro f; cases f <;> decide) (by decide) cReported []
  have hok : checkReported (newLanguageConfig cLang) cReported [] = .ok () :=
    (h.1 hasks).mpr (by intro f v hv; cases f <;> (cases hv; decide))
  exact ⟨hok, h.2.2 hasks hok .memory 1048576 rfl⟩

theorem reported_ceiling_refused :
    loadRegistry (str "config/languages.yml") (fun _ => []) (.ok [])
        (fun _ => .ok ⟨[cLang]⟩) = .ok cRegistry ∧
      Asks (languageInfo none (newLanguageConfig cLang)).ceilingRunLimits cReported ∧
      validateRun (fun _ => []) cRegistry
          (.ok { cRequest [] with run := some ⟨some cReported, []⟩ }) =
        .error ⟨str "limit_exceeded",
          str "run.limits.memory_kb of 1048576 exceeds ceiling of 524288"⟩ := by
  refine ⟨rfl, ?_, rfl⟩
  intro f v hv
  cases f <;> (cases hv; decide)

end Goboxd.Api
