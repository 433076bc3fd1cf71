import Goboxd.Proofs.RegistryReload
import Goboxd.Proofs.StageLimits

/-!
# What a registry that was loaded can be used for

`LoadRegistry` looks at the ids and at nothing else of a language. A key that is
missing from the file decodes to zero, and the zero is published: as a limit, as a
file name, as a command. So a registry that was loaded is usable exactly when its
file is, language by language, of those that the filters keep.

A load that fails is another matter. It has built its own map, or none, and it has
not stored it: every reader still sees what was there before.
-/

namespace Goboxd.Config

open Go Runner

/-! ## Usable -/

/-- A published language can be run, and a request that gives no limits gets some. -/
structure LanguageConfig.Usable (lc : LanguageConfig) : Prop where
  run : ∀ f : LimitField, f ≠ .cpuTime → 0 < f.value lc.runLimits
  build : lc.buildCmd ≠ [] → ∀ f : LimitField, f ≠ .cpuTime → 0 < f.value lc.buildLimits
  runCeiling : ∀ f : LimitField, f.value lc.runLimits ≤ f.value lc.runCeiling
  buildCeiling : ∀ f : LimitField, f.value lc.buildLimits ≤ f.value lc.buildCeiling
  source : lc.sourceFilename ≠ []
  command : ∃ cmd args, lc.runCmd = cmd :: args ∧ cmd ≠ []

/-- A stage of the file has positive limits, and no ceiling that it sets is below its
limit. -/
structure StageCmd.Bounded (stage : StageCmd) : Prop where
  positive : ∀ f : LimitField, f ≠ .cpuTime → 0 < f.value stage.limits
  ceiling : stage.hasCeiling = true → ∀ f : LimitField,
    f.value stage.ceiling = 0 ∨ f.value stage.limits ≤ f.value stage.ceiling

/-- Nothing but `{{artifact}}`, any number of times. -/
def OnlyArtifacts (s : GoString) : Prop :=
  ∃ n, s = (List.replicate n (str "{{artifact}}")).flatten

/-- A language of the file has bounded stages, a source file name, and a command that
is not nothing but the name of an artifact that has none. -/
structure LanguageYAML.Complete (lang : LanguageYAML) : Prop where
  run : lang.run.Bounded
  build : ∀ stage, lang.build = some stage → stage.Bounded
  source : lang.sourceFilename ≠ []
  command : lang.run.cmd ≠ []
  artifact : lang.artifact = [] →
    ¬ OnlyArtifacts (expandSource lang.sourceFilename lang.run.cmd)

/-- Every language of the file that the filters keep is complete. -/
def LoadArgs.Complete (a : LoadArgs) : Prop :=
  ∀ lang ∈ a.languages, Kept a.langs lang.id → lang.id ∉ items a.excludeLangs →
    lang.Complete

/-! ## From the file to the entry -/

theorem resolveCeiling_le_iff {ceiling limits : Limits} {hasCeiling : Bool} :
    (∀ f : LimitField, f.value limits ≤ f.value (resolveCeiling ceiling limits hasCeiling)) ↔
      (hasCeiling = true → ∀ f : LimitField,
        f.value ceiling = 0 ∨ f.value limits ≤ f.value ceiling) := by
  cases hasCeiling with
  | false =>
      have hself : resolveCeiling ceiling limits false = limits := rfl
      simp [hself]
  | true =>
      have hfield : ∀ f : LimitField,
          f.value limits ≤ f.value (resolveCeiling ceiling limits true) ↔
            f.value ceiling = 0 ∨ f.value limits ≤ f.value ceiling := by
        intro f
        rw [resolveCeiling_value, orMax]
        split
        · next h => simp [h]
        · next h => simp [h]
      simp [hfield]

theorem expandArg_ne_nil_iff {srcName artifact cmd : GoString} (hsrc : srcName ≠ []) :
    expandArg srcName artifact cmd ≠ [] ↔
      cmd ≠ [] ∧ (artifact = [] → ¬ OnlyArtifacts (expandSource srcName cmd)) := by
  have hsource : expandSource srcName cmd = [] ↔ cmd = [] := by
    rw [expandSource, replaceAll_eq_nil_iff (by decide)]
    simp [hsrc]
  rw [expandArg, expandArtifact, ne_eq, replaceAll_eq_nil_iff (by decide), not_or, hsource,
    not_and]
  rfl

theorem runCmd_newLanguageConfig (lang : LanguageYAML) :
    (newLanguageConfig lang).runCmd =
      expandArg lang.sourceFilename lang.artifact lang.run.cmd ::
        lang.run.args.map (expandArg lang.sourceFilename lang.artifact) := by
  unfold newLanguageConfig
  cases lang.build <;> rfl

theorem bounded_iff {stage : StageCmd} :
    stage.Bounded ↔ (∀ f : LimitField, f ≠ .cpuTime → 0 < f.value stage.limits) ∧
      ∀ f : LimitField, f.value stage.limits ≤
        f.value (resolveCeiling stage.ceiling stage.limits stage.hasCeiling) := by
  rw [resolveCeiling_le_iff]
  exact ⟨fun h => ⟨h.positive, h.ceiling⟩, fun h => ⟨h.1, h.2⟩⟩

theorem command_iff {lang : LanguageYAML} (hsrc : lang.sourceFilename ≠ []) :
    (∃ cmd args, (newLanguageConfig lang).runCmd = cmd :: args ∧ cmd ≠ []) ↔
      lang.run.cmd ≠ [] ∧ (lang.artifact = [] →
        ¬ OnlyArtifacts (expandSource lang.sourceFilename lang.run.cmd)) := by
  rw [← expandArg_ne_nil_iff hsrc, runCmd_newLanguageConfig]
  constructor
  · rintro ⟨cmd, args, heq, hne⟩
    rw [(List.cons.inj heq).1]
    exact hne
  · intro hne
    exact ⟨_, _, rfl, hne⟩

theorem run_iff {lang : LanguageYAML} :
    ((∀ f : LimitField, f ≠ .cpuTime → 0 < f.value (newLanguageConfig lang).runLimits) ∧
      ∀ f : LimitField, f.value (newLanguageConfig lang).runLimits ≤
        f.value (newLanguageConfig lang).runCeiling) ↔ lang.run.Bounded := by
  have hrun : (newLanguageConfig lang).runLimits = lang.run.limits ∧
      (newLanguageConfig lang).runCeiling =
        resolveCeiling lang.run.ceiling lang.run.limits lang.run.hasCeiling := by
    unfold newLanguageConfig
    cases lang.build <;> exact ⟨rfl, rfl⟩
  rw [hrun.1, hrun.2, bounded_iff]

theorem build_iff {lang : LanguageYAML} :
    (((newLanguageConfig lang).buildCmd ≠ [] →
        ∀ f : LimitField, f ≠ .cpuTime → 0 < f.value (newLanguageConfig lang).buildLimits) ∧
      ∀ f : LimitField, f.value (newLanguageConfig lang).buildLimits ≤
        f.value (newLanguageConfig lang).buildCeiling) ↔
      ∀ stage, lang.build = some stage → stage.Bounded := by
  cases hb : lang.build with
  | none =>
      have hnew : (newLanguageConfig lang).buildCmd = [] ∧
          (newLanguageConfig lang).buildLimits = .zero ∧
          (newLanguageConfig lang).buildCeiling = .zero := by
        unfold newLanguageConfig
        rw [hb]
        exact ⟨rfl, rfl, rfl⟩
      rw [hnew.1, hnew.2.1, hnew.2.2]
      simp
  | some stage =>
      have hnew : (newLanguageConfig lang).buildCmd ≠ [] ∧
          (newLanguageConfig lang).buildLimits = stage.limits ∧
          (newLanguageConfig lang).buildCeiling =
            resolveCeiling stage.ceiling stage.limits stage.hasCeiling := by
        unfold newLanguageConfig
        rw [hb]
        exact ⟨List.cons_ne_nil _ _, rfl, rfl⟩
      rw [hnew.2.1, hnew.2.2]
      constructor
      · intro h stage' heq
        cases heq
        exact bounded_iff.mpr ⟨h.1 hnew.1, h.2⟩
      · intro h
        exact (bounded_iff.mp (h stage rfl)).imp_left fun hpos _ => hpos

/-- An entry is usable exactly when it was made from a complete language. -/
theorem usable_newLanguageConfig_iff {lang : LanguageYAML} :
    (newLanguageConfig lang).Usable ↔ lang.Complete := by
  have hsrc : (newLanguageConfig lang).sourceFilename = lang.sourceFilename := by
    unfold newLanguageConfig
    cases lang.build <;> rfl
  constructor
  · intro h
    have hne : lang.sourceFilename ≠ [] := hsrc ▸ h.source
    obtain ⟨hcmd, hart⟩ := (command_iff hne).mp h.command
    exact ⟨run_iff.mp ⟨h.run, h.runCeiling⟩, build_iff.mp ⟨h.build, h.buildCeiling⟩, hne,
      hcmd, hart⟩
  · intro h
    obtain ⟨hrun, hrunCeiling⟩ := run_iff.mpr h.run
    obtain ⟨hbuild, hbuildCeiling⟩ := build_iff.mpr h.build
    exact ⟨hrun, hbuild, hrunCeiling, hbuildCeiling, hsrc ▸ h.source,
      (command_iff h.source).mpr ⟨h.command, h.artifact⟩⟩

theorem mem_result_iff {a : LoadArgs} (h : Loadable a.languages)
    {e : GoString × LanguageConfig} :
    e ∈ a.result ↔ ∃ lang ∈ a.languages, Kept a.langs lang.id ∧
      lang.id ∉ items a.excludeLangs ∧ e = (lang.id, newLanguageConfig lang) := by
  rw [LoadArgs.result, excludeLangs_eq_filter, keepLangs_eq_filter, List.mem_filter,
    List.mem_filter, entries, List.mem_map]
  simp only [decide_eq_true_eq]
  constructor
  · rintro ⟨⟨⟨lang, hmem, rfl⟩, hk⟩, hx⟩
    have hid := h.ids lang hmem
    rw [mem_idList hid] at hk hx
    exact ⟨lang, hmem, hk, hx, rfl⟩
  · rintro ⟨lang, hmem, hk, hx, rfl⟩
    have hid := h.ids lang hmem
    rw [mem_idList hid, mem_idList hid]
    exact ⟨⟨⟨lang, hmem, rfl⟩, hk⟩, hx⟩

theorem result_usable_iff {a : LoadArgs} (h : Loadable a.languages) :
    (∀ e ∈ a.result, e.2.Usable) ↔ a.Complete := by
  constructor
  · intro hu lang hmem hk hx
    exact usable_newLanguageConfig_iff.mp
      (hu _ ((mem_result_iff h).mpr ⟨lang, hmem, hk, hx, rfl⟩))
  · rintro hc e he
    obtain ⟨lang, hmem, hk, hx, rfl⟩ := (mem_result_iff h).mp he
    exact usable_newLanguageConfig_iff.mpr (hc lang hmem hk hx)

/-! ## What a request without limits is given -/

/-- The exec of a stage is passed positive limits where the request gives none. -/
def GivenPositive (limits : Limits) (stage : Option Models.StageConfig) : Prop :=
  ∀ f : LimitField, f ≠ .cpuTime → f.given stage = none →
    0 < f.passed (stageLimits limits stage)

theorem givenPositive {limits : Limits}
    (h : ∀ f : LimitField, f ≠ .cpuTime → 0 < f.value limits)
    (stage : Option Models.StageConfig) : GivenPositive limits stage := by
  intro f hf hnone
  rw [stageLimits_passed, hnone]
  exact h f hf

/-! ## A load that fails -/

/-- The call is the load of what was decoded. -/
def RegistryCall.Loads : RegistryCall → Except LoadErr LoadArgs → Prop
  | .load a _, d => d = .ok a
  | .refused err, d => d = .error err
  | .read _, _ => False

/-- A load of this has nothing to store. -/
def Fails (d : Except LoadErr LoadArgs) : Prop :=
  ∀ a, d = .ok a → ¬ Loadable a.languages

theorem fails_of_error {path : GoString} {getenv : Env} {file : Except GoString GoString}
    {unmarshal : GoString → Except GoString ConfigYAML} {err : LoadErr}
    (h : loadRegistry path getenv file unmarshal = .error err) :
    Fails (decodeLoad path getenv file unmarshal) := by
  intro a ha hl
  have hok := loadRegistry_ok_iff.mpr ⟨a, ha, hl, rfl⟩
  rw [h] at hok
  cases hok

/-- A call of a load that fails neither succeeds nor does anything that a reader
could see. -/
theorem failing_keeps {d : Except LoadErr LoadArgs} (hd : Fails d)
    {s : Family.St RegistryHeap RegistryCall} (h : registryCalls.machine.Reachable s)
    {p : ℕ} {c : RegistryCall} (hc : s.procs[p]? = some c) (hload : c.Loads d) :
    c.view s.shared ≠ .loaded ∧
      ∀ key t, registryCalls.machine.step s (.own p key) = some t →
        t.shared.registry = s.shared.registry ∧ t.shared.current = s.shared.current := by
  have hi := registrySound h
  cases c with
  | read r => cases hload
  | refused err =>
      refine ⟨fun hv => ?_, fun key t hs => ?_⟩
      · cases hv
      · obtain ⟨c, r, hc', hr, -⟩ := Family.step_own.mp hs
        rw [hc] at hc'
        cases hc'
        cases hr
  | load a pc =>
      have hfail := hd a hload
      have hsound := hi.load p a pc hc
      refine ⟨fun hv => ?_, fun key t hs => ?_⟩
      · have hret : pc = .returned none := by
          cases pc with
          | returned err =>
              cases err with
              | none => rfl
              | some err => cases hv
          | _ => cases hv
        subst hret
        exact hfail hsound.1
      · obtain ⟨c, r, hc', hr, rfl⟩ := Family.step_own.mp hs
        have hr' : registryStep p s.shared c key = some r := hr
        have hm := registryStep_move hr'
        rw [hc] at hc'
        cases hc'
        have hreg : r.1.registry = s.shared.registry := by
          cases hm with
          | load hs => rfl
          | store => exact absurd hsound.1 hfail
        exact ⟨hreg, current_of_move hi hc hm hreg⟩

/-- A load that succeeds publishes usable languages only, exactly when every language
that the filters keep is complete; then a request is given positive limits where it
gives none. A load that fails leaves to every reader what was published before. -/
theorem load_usable_iff (path : GoString) (getenv : Env) (file : Except GoString GoString)
    (unmarshal : GoString → Except GoString ConfigYAML) :
    (∀ a reg, decodeLoad path getenv file unmarshal = .ok a →
      loadRegistry path getenv file unmarshal = .ok reg →
      ((∀ e ∈ reg, e.2.Usable) ↔ a.Complete) ∧
      (a.Complete → ∀ e ∈ reg, ∀ stage, GivenPositive e.2.runLimits stage ∧
        (e.2.buildCmd ≠ [] → GivenPositive e.2.buildLimits stage))) ∧
    (∀ err, loadRegistry path getenv file unmarshal = .error err →
      ∀ s, registryCalls.machine.Reachable s → ∀ (p : ℕ) c, s.procs[p]? = some c →
        c.Loads (decodeLoad path getenv file unmarshal) →
        c.view s.shared ≠ .loaded ∧
        ∀ key t, registryCalls.machine.step s (.own p key) = some t →
          t.shared.registry = s.shared.registry ∧ t.shared.current = s.shared.current) := by
  constructor
  · intro a reg ha hreg
    obtain ⟨a', ha', hl, rfl⟩ := loadRegistry_ok_iff.mp hreg
    rw [ha] at ha'
    cases ha'
    have hiff := result_usable_iff hl
    refine ⟨hiff, fun hc e he stage => ?_⟩
    have hu := hiff.mpr hc e he
    exact ⟨givenPositive hu.run stage, fun hb => givenPositive (hu.build hb) stage⟩
  · intro err herr s hs p c hc hload
    exact failing_keeps (fails_of_error herr) hs hc hload

/-- A file whose one language has nothing but an id: every other key is missing. -/
def bareLang : LanguageYAML where
  id := str "py3"
  name := []
  sourceFilename := []
  artifact := []
  build := none
  run := { cmd := [], args := [], limits := .zero, ceiling := .zero,
           hasCeiling := false, flagAllowlist := [] }
  smokeCmd := []
  smokeArgs := []
  sourceFilenameStrategy := []
  seccomp := []

/-- The load succeeds, and a request without limits gets a wall time of zero. -/
theorem bare_language_loaded :
    loadRegistry (str "languages.yml") (fun _ => []) (.ok []) (fun _ => .ok ⟨[bareLang]⟩) =
        .ok [(str "py3", newLanguageConfig bareLang)] ∧
      ¬ (newLanguageConfig bareLang).Usable ∧
      (stageLimits (newLanguageConfig bareLang).runLimits none).wallTime = 0 := by
  refine ⟨by decide +kernel, fun h => ?_, rfl⟩
  exact h.source rfl

end Goboxd.Config
