import Goboxd.Proofs.FileNames

/-!
# The allowlist of a stage and the flags that reach it

The YAML has an allowlist in each of the two stages. The registry keeps one a
language, and it keeps the build's. So the flags of the run stage are checked
against a list that was declared for another command, and in a language without
a build against none at all, which lets everything pass.

What the build's list does for its own stage has no gap. The run stage's list is
respected when no flag can get past the list that is checked without being on
it, and otherwise there is a request that passes with a flag that is not.
-/

namespace Goboxd.Api

open Go Models Config Runner

/-- The flag equals an entry, or starts with one that ends in a star. -/
def Listed (allowlist : List GoString) (flag : GoString) : Prop :=
  ∃ pattern ∈ allowlist, flag = pattern ∨
    hasSuffix pattern (str "*") = true ∧
      hasPrefix flag (trimSuffix pattern (str "*")) = true

/-- In each stage that declares an allowlist, every flag of the request that is
put into the command is listed in it. -/
structure FlagsListed (lang : LanguageYAML) (req : RunRequest)
    (lc : LanguageConfig) : Prop where
  build : ∀ stage, lang.build = some stage → stage.flagAllowlist ≠ [] →
    ∀ flag ∈ splicedFlags lc.buildCmd (stageFlags req.build),
      Listed stage.flagAllowlist flag
  run : lang.run.flagAllowlist ≠ [] →
    ∀ flag ∈ splicedFlags lc.runCmd (stageFlags req.run),
      Listed lang.run.flagAllowlist flag

/-- Where the run stage declares a list and takes flags, the list that is
checked lets no other flag pass. -/
def RunListCovered (lang : LanguageYAML) (lc : LanguageConfig) : Prop :=
  lang.run.flagAllowlist ≠ [] → str "{{flags}}" ∈ lc.runCmd →
    ∀ flag, validateFlags [flag] lc.flagAllowlist = none →
      Listed lang.run.flagAllowlist flag

/-! ## What passes an allowlist -/

theorem hasPrefix_trimSuffix (s p : GoString) :
    hasPrefix s (trimSuffix s p) = true := by
  unfold hasPrefix trimSuffix
  rw [List.isPrefixOf_iff_prefix]
  split
  · exact List.take_prefix _ _
  · exact List.prefix_refl s

/-- A flag that is the pattern itself also starts with it less its star. -/
theorem flagMatches_iff (flag pattern : GoString) :
    flagMatches flag pattern = true ↔ flag = pattern ∨
      hasSuffix pattern (str "*") = true ∧
        hasPrefix flag (trimSuffix pattern (str "*")) = true := by
  unfold flagMatches
  split
  · next hstar =>
      constructor
      · exact fun h => .inr ⟨hstar, h⟩
      · rintro (rfl | ⟨-, h⟩)
        · exact hasPrefix_trimSuffix _ _
        · exact h
  · next hstar =>
      constructor
      · exact fun h => .inl (of_decide_eq_true h)
      · rintro (rfl | ⟨h, -⟩)
        · exact decide_eq_true rfl
        · exact absurd h hstar

theorem validateFlags_none_iff {flags allowlist : List GoString} :
    validateFlags flags allowlist = none ↔
      allowlist = [] ∨ ∀ flag ∈ flags, Listed allowlist flag := by
  unfold validateFlags
  split
  · next hnil => simp [hnil]
  · next hne =>
      simp only [List.find?_eq_none, Bool.not_eq_true, Bool.not_eq_false', hne,
        false_or, List.any_eq_true, flagMatches_iff, Listed]

/-- A flag passes in company exactly when it would alone. -/
theorem validateFlags_singleton {flags allowlist : List GoString} {flag : GoString}
    (h : validateFlags flags allowlist = none) (hmem : flag ∈ flags) :
    validateFlags [flag] allowlist = none := by
  rw [validateFlags_none_iff] at h ⊢
  refine h.imp_right fun hall f hf => ?_
  rw [List.mem_singleton.mp hf]
  exact hall flag hmem

/-! ## When the lists are respected -/

theorem flagAllowlist_of_build {lang : LanguageYAML} {stage : StageCmd}
    (h : lang.build = some stage) :
    (newLanguageConfig lang).flagAllowlist = stage.flagAllowlist := by
  rw [newLanguageConfig, h]

theorem flagsListed_of_covered {getenv : Env} {reg : Registry}
    {decoded : Except GoString RunRequest} {req : RunRequest} {lang : LanguageYAML}
    (hval : validateRun getenv reg decoded = .ok (req, newLanguageConfig lang))
    (h : RunListCovered lang (newLanguageConfig lang)) :
    FlagsListed lang req (newLanguageConfig lang) := by
  obtain ⟨hbuild, hrun⟩ := validateRun_flags hval
  constructor
  · intro stage hstage hne flag hflag
    rw [flagAllowlist_of_build hstage, validateFlags_none_iff] at hbuild
    exact hbuild.resolve_left hne flag (mem_splicedFlags.mp hflag).2
  · intro hne flag hflag
    obtain ⟨hplace, hmem⟩ := mem_splicedFlags.mp hflag
    exact h hne hplace flag (validateFlags_singleton hrun hmem)

/-- A request for one run flag and nothing else. -/
def flagRequest (language flag : GoString) : RunRequest where
  language := language
  source := str "x"
  sourceFilename := []
  artifactFilename := []
  build := none
  run := some ⟨none, [flag]⟩
  tests := [⟨[], []⟩]
  maxParallel := none
  maxOutputBytes := none

theorem validate_flagRequest {reg : Registry} {id flag : GoString}
    {lc : LanguageConfig} (getenv : Env) (hid : id ≠ []) (hlc : reg.lookup id = some lc)
    (hflag : validateFlags [flag] lc.flagAllowlist = none) :
    validateRun getenv reg (.ok (flagRequest id flag)) = .ok (flagRequest id flag, lc) := by
  have hfields : validateFields (flagRequest id flag) = .ok () := by
    change (reject (id = []) _ _).bind _ = _
    rw [reject, if_neg hid]
    rfl
  have hlookup : lookupLanguage reg (flagRequest id flag).language = .ok lc := by
    rw [lookupLanguage, show reg.lookup (flagRequest id flag).language = _ from hlc]
  have hbuild : checkFlags [] lc.flagAllowlist "build" = .ok () := by
    have hnone : validateFlags [] lc.flagAllowlist = none :=
      validateFlags_none_iff.mpr (.inr (List.forall_mem_nil _))
    rw [checkFlags, hnone]
  have hrun : checkFlags [flag] lc.flagAllowlist "run" = .ok () := by
    rw [checkFlags, hflag]
  have hagainst : validateAgainst getenv (flagRequest id flag) lc = .ok () := by
    change (checkFlags [] lc.flagAllowlist "build").bind _ = _
    rw [hbuild]
    change (checkFlags [flag] lc.flagAllowlist "run").bind _ = _
    rw [hrun]
    rfl
  change (validateFields (flagRequest id flag)).bind _ = _
  rw [hfields]
  change (lookupLanguage reg (flagRequest id flag).language).bind _ = _
  rw [hlookup]
  change (validateAgainst getenv (flagRequest id flag) lc).bind _ = _
  rw [hagainst]
  rfl

/-- Which flags reach a command. Of every registry that loads and every language
in it: in each stage that declares an allowlist, every request that passes puts
only flags into the command that its list allows, exactly when the one list the
language kept lets no flag pass that the run stage's list does not allow. -/
theorem flags_listed_iff {path : GoString} {getenv : Env}
    {file : Except GoString GoString}
    {unmarshal : GoString → Except GoString ConfigYAML} {reg : Registry}
    {id : GoString} {lc : LanguageConfig}
    (hload : loadRegistry path getenv file unmarshal = .ok reg)
    (hid : reg.lookup id = some lc) :
    ∃ data cfg, file = .ok data ∧ unmarshal data = .ok cfg ∧
      ∃ lang ∈ cfg.languages, lang.id = id ∧ lc = newLanguageConfig lang ∧
        ((∀ getenv decoded req, validateRun getenv reg decoded = .ok (req, lc) →
            FlagsListed lang req lc) ↔
          RunListCovered lang lc) := by
  obtain ⟨data, cfg, hf, hu, lang, hlang, hlid, rfl⟩ := lookup_loadRegistry hload hid
  refine ⟨data, cfg, hf, hu, lang, hlang, hlid, rfl, fun h => ?_, fun h _ _ _ hval =>
    flagsListed_of_covered hval h⟩
  intro hne hplace flag hflag
  have hnil : id ≠ [] := id_ne_nil_loadRegistry hload (mem_of_lookup hid)
  have hval := validate_flagRequest (fun _ => []) hnil hid hflag
  exact (h _ _ _ hval).run hne flag
    (mem_splicedFlags.mpr ⟨hplace, List.mem_singleton.mpr rfl⟩)

/-! ## An interpreter with an allowlist of its own -/

def optLang : LanguageYAML where
  id := str "py3"
  name := str "Python 3"
  sourceFilename := str "solution.py"
  artifact := []
  build := none
  run :=
    { cmd := str "/usr/bin/python3"
      args := [str "{{flags}}", str "{{source}}"]
      limits := ⟨9, 1048576, 100, 11⟩
      ceiling := .zero
      hasCeiling := false
      flagAllowlist := [str "-O"] }
  smokeCmd := []
  smokeArgs := []
  sourceFilenameStrategy := []
  seccomp := []

theorem flags_listed_c :
    RunListCovered cLang (newLanguageConfig cLang) ∧
      ∀ getenv decoded req,
        validateRun getenv cRegistry decoded = .ok (req, newLanguageConfig cLang) →
        FlagsListed cLang req (newLanguageConfig cLang) := by
  have hid : cRegistry.lookup (str "c") = some (newLanguageConfig cLang) := rfl
  obtain ⟨_, cfg, _, hu, lang, hlang, -, -, hiff⟩ := flags_listed_iff load_cRegistry hid
  cases hu
  rw [List.mem_singleton.mp hlang] at hiff
  have hcovered : RunListCovered cLang (newLanguageConfig cLang) :=
    fun hne => absurd rfl hne
  exact ⟨hcovered, hiff.mpr hcovered⟩

theorem run_list_dropped :
    loadRegistry (str "config/languages.yml") (fun _ => []) (.ok [])
        (fun _ => .ok ⟨[optLang]⟩) = .ok [(str "py3", newLanguageConfig optLang)] ∧
      ¬ ∀ getenv decoded req,
        validateRun getenv [(str "py3", newLanguageConfig optLang)] decoded =
          .ok (req, newLanguageConfig optLang) →
        FlagsListed optLang req (newLanguageConfig optLang) := by
  refine ⟨rfl, fun h => ?_⟩
  have hval : validateRun (fun _ => []) [(str "py3", newLanguageConfig optLang)]
      (.ok (flagRequest (str "py3") (str "-c"))) =
        .ok (flagRequest (str "py3") (str "-c"), newLanguageConfig optLang) := rfl
  have hlisted := (h _ _ _ hval).run (by decide) (str "-c")
    (mem_splicedFlags.mpr ⟨by decide, List.mem_singleton.mpr rfl⟩)
  obtain ⟨pattern, hmem, hmatch⟩ := hlisted
  rw [List.mem_singleton.mp hmem] at hmatch
  exact absurd hmatch (by decide)

end Goboxd.Api
