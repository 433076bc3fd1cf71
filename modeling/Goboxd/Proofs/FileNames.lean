import Goboxd.Api.Validate

/-!
# The file that is written and the file that is run

The commands of a language are expanded when the registry is loaded, with the
names of the configuration file. The name the source is written under is
resolved when the request runs, with the request's override. The two meet in
the arguments handed to `execJail`.

A substitution by itself says nothing about the name that was put in: two
different names could give the same argument. They cannot where the
placeholder occurs, by `Go.replaceAll_inj`, so the arguments agree with the
written file exactly when the names do, or when no argument mentions a file.
-/

namespace Goboxd.Api

open Go Models Config Runner

def stageTemplates (stage : StageCmd) : List GoString := stage.cmd :: stage.args

/-- The templates of the commands a request executes: the build's when there
is a build, and the run's. -/
def templates (lang : LanguageYAML) : List GoString :=
  (lang.build.elim [] stageTemplates) ++ stageTemplates lang.run

/-- The templates that end up as an argument of their own: `expandFlags`
removes the ones that are `{{flags}}` once they are expanded. -/
def handed (lang : LanguageYAML) : List GoString :=
  (templates lang).filter fun t =>
    expandArg lang.sourceFilename lang.artifact t ≠ str "{{flags}}"

/-- In every argument handed to `execJail`, `{{source}}` became the name the
source is written under, and `{{artifact}}` became the request's artifact name
when it gives one. -/
structure NamesAgree (lang : LanguageYAML) (req : RunRequest)
    (lc : LanguageConfig) : Prop where
  source : ∀ t ∈ handed lang,
    expandSource lang.sourceFilename t =
      expandSource (resolveSourceName req lc) t
  artifact : req.artifactFilename ≠ [] → ∀ t ∈ handed lang,
    expandArtifact lang.artifact (expandSource lang.sourceFilename t) =
      expandArtifact req.artifactFilename (expandSource lang.sourceFilename t)

def MentionsSource (lang : LanguageYAML) : Prop :=
  ∃ t ∈ handed lang, contains t (str "{{source}}") = true

def MentionsArtifact (lang : LanguageYAML) : Prop :=
  ∃ t ∈ handed lang,
    contains (expandSource lang.sourceFilename t) (str "{{artifact}}") = true

/-- The request leaves the configured names in force, as far as an argument
mentions them. -/
structure NamesConfigured (lang : LanguageYAML) (req : RunRequest) : Prop where
  source : MentionsSource lang →
    lang.sourceFilenameStrategy = str "fixed" ∨ req.sourceFilename = [] ∨
      req.sourceFilename = lang.sourceFilename
  artifact : MentionsArtifact lang →
    req.artifactFilename = [] ∨ req.artifactFilename = lang.artifact

/-! ## What is handed to `execJail` -/

theorem expandFlags_expandCmd (cmd : GoString) (args : List GoString)
    (srcName artifact : GoString) :
    expandFlags (expandCmd cmd args srcName artifact) [] =
      ((cmd :: args).filter fun t =>
        expandArg srcName artifact t ≠ str "{{flags}}").map
          (expandArg srcName artifact) := by
  rw [expandCmd, ← List.map_cons, expandFlags]
  induction cmd :: args with
  | nil => rfl
  | cons t ts ih =>
      rw [List.map_cons, List.flatMap_cons, ih, List.filter_cons]
      by_cases h : expandArg srcName artifact t = str "{{flags}}" <;> simp [h]

/-- The handed templates, expanded, are the arguments the two commands have
besides the flags. -/
theorem handed_args (lang : LanguageYAML) :
    (handed lang).map (expandArg lang.sourceFilename lang.artifact) =
      expandFlags (newLanguageConfig lang).buildCmd [] ++
        expandFlags (newLanguageConfig lang).runCmd [] := by
  rw [handed, templates, List.filter_append, List.map_append]
  cases hb : lang.build with
  | none =>
      simp only [newLanguageConfig, hb, expandFlags_expandCmd]
      rfl
  | some build =>
      simp only [newLanguageConfig, hb, expandFlags_expandCmd]
      rfl

/-! ## When the names agree -/

theorem str_ne_nil_source : str "{{source}}" ≠ [] := by decide

theorem str_ne_nil_artifact : str "{{artifact}}" ≠ [] := by decide

/-- Two names give the same expansion of every template when they are the same
or no template mentions the file, and only then. -/
theorem replaceAll_agree_iff {ts : List GoString} {f : GoString → GoString}
    {old a b : GoString} (hne : old ≠ []) :
    (∀ t ∈ ts, replaceAll (f t) old a = replaceAll (f t) old b) ↔
      ((∃ t ∈ ts, contains (f t) old = true) → a = b) := by
  constructor
  · rintro h ⟨t, ht, hocc⟩
    exact replaceAll_inj hne hocc (h t ht)
  · intro h t ht
    cases hocc : contains (f t) old with
    | true => rw [h ⟨t, ht, hocc⟩]
    | false =>
        rw [replaceAll_of_not_contains hocc, replaceAll_of_not_contains hocc]

theorem resolveSourceName_eq_iff (lang : LanguageYAML) (req : RunRequest) :
    lang.sourceFilename = resolveSourceName req (newLanguageConfig lang) ↔
      lang.sourceFilenameStrategy = str "fixed" ∨ req.sourceFilename = [] ∨
        req.sourceFilename = lang.sourceFilename := by
  have hsrc : (newLanguageConfig lang).sourceFilename = lang.sourceFilename := by
    unfold newLanguageConfig
    cases lang.build <;> rfl
  have hstrat : (newLanguageConfig lang).sourceFilenameStrategy =
      lang.sourceFilenameStrategy := by
    unfold newLanguageConfig
    cases lang.build <;> rfl
  rw [resolveSourceName, hsrc, hstrat]
  split
  · next hfixed => simp [hfixed]
  · next hfixed =>
      split
      · next hname => simp [hfixed, hname, eq_comm]
      · next hname => simp [not_not.mp hname]

theorem namesAgree_iff (lang : LanguageYAML) (req : RunRequest) :
    NamesAgree lang req (newLanguageConfig lang) ↔ NamesConfigured lang req := by
  have hsource : (∀ t ∈ handed lang, expandSource lang.sourceFilename t =
      expandSource (resolveSourceName req (newLanguageConfig lang)) t) ↔ _ :=
    replaceAll_agree_iff (f := id) str_ne_nil_source
  have hartifact : (∀ t ∈ handed lang,
      expandArtifact lang.artifact (expandSource lang.sourceFilename t) =
        expandArtifact req.artifactFilename
          (expandSource lang.sourceFilename t)) ↔ _ :=
    replaceAll_agree_iff str_ne_nil_artifact
  rw [resolveSourceName_eq_iff] at hsource
  constructor
  · rintro ⟨hs, ha⟩
    refine ⟨hsource.mp hs, fun hm => ?_⟩
    by_cases hname : req.artifactFilename = []
    · exact .inl hname
    · exact .inr (hartifact.mp (ha hname) hm).symm
  · rintro ⟨hs, ha⟩
    refine ⟨hsource.mpr hs, fun hname => hartifact.mpr fun hm => ?_⟩
    exact ((ha hm).resolve_left hname).symm

/-- Which file is compiled and run. Of every loaded registry and every request
that passes validation, the language is one of the file's, the arguments
handed to `execJail` are its expanded templates, and they name the written
file, and the requested artifact, exactly when the request leaves the
configured names in force as far as an argument mentions them. -/
theorem written_file_is_run_iff {path : GoString} {getenv : Env}
    {file : Except GoString GoString}
    {unmarshal : GoString → Except GoString ConfigYAML} {reg : Registry}
    {decoded : Except GoString RunRequest} {req : RunRequest}
    {lc : LanguageConfig}
    (hload : loadRegistry path getenv file unmarshal = .ok reg)
    (hval : validateRun getenv reg decoded = .ok (req, lc)) :
    ∃ data cfg, file = .ok data ∧ unmarshal data = .ok cfg ∧
      ∃ lang ∈ cfg.languages, lang.id = req.language ∧
        lc = newLanguageConfig lang ∧
        (handed lang).map (expandArg lang.sourceFilename lang.artifact) =
          expandFlags lc.buildCmd [] ++ expandFlags lc.runCmd [] ∧
        (NamesAgree lang req lc ↔ NamesConfigured lang req) := by
  obtain ⟨-, hv⟩ := validateRun_ok hval
  obtain ⟨data, cfg, hf, hu, lang, hlang, hid, rfl⟩ :=
    lookup_loadRegistry hload hv.language
  exact ⟨data, cfg, hf, hu, lang, hlang, hid, rfl, handed_args lang,
    namesAgree_iff lang req⟩

/-! ## The entry for C, with and without an override -/

def cLang : LanguageYAML where
  id := str "c"
  name := str "C"
  sourceFilename := str "solution.c"
  artifact := str "solution"
  build := some
    { cmd := str "/usr/bin/gcc"
      args := [str "-x", str "c", str "{{flags}}", str "-o",
        str "{{artifact}}", str "{{source}}"]
      limits := ⟨5, 1048576, 100, 40⟩
      ceiling := .zero
      hasCeiling := false
      flagAllowlist := [str "-O2", str "-Wall", str "-std=*"] }
  run :=
    { cmd := str "./{{artifact}}"
      args := []
      limits := ⟨5, 524288, 64, 20⟩
      ceiling := .zero
      hasCeiling := false
      flagAllowlist := [] }
  smokeCmd := []
  smokeArgs := []
  sourceFilenameStrategy := []
  seccomp := []

def cRequest (sourceFilename : GoString) : RunRequest where
  language := str "c"
  source := str "int main;"
  sourceFilename := sourceFilename
  artifactFilename := []
  build := none
  run := none
  tests := [⟨[], []⟩]
  maxParallel := none
  maxOutputBytes := none

def cRegistry : Registry := [(str "c", newLanguageConfig cLang)]

theorem load_cRegistry :
    loadRegistry (str "config/languages.yml") (fun _ => []) (.ok [])
      (fun _ => .ok ⟨[cLang]⟩) = .ok cRegistry := rfl

theorem written_file_is_run_c :
    ∃ lang ∈ [cLang],
      NamesAgree lang (cRequest []) (newLanguageConfig cLang) := by
  have hval : validateRun (fun _ => []) cRegistry (.ok (cRequest [])) =
      .ok (cRequest [], newLanguageConfig cLang) := rfl
  obtain ⟨_, cfg, _, hu, lang, hlang, -, -, -, hiff⟩ :=
    written_file_is_run_iff load_cRegistry hval
  cases hu
  exact ⟨lang, hlang,
    hiff.mpr ⟨fun _ => .inr (.inl rfl), fun _ => .inl rfl⟩⟩

theorem override_not_expanded :
    ∃ reg lc,
      loadRegistry (str "config/languages.yml") (fun _ => []) (.ok [])
        (fun _ => .ok ⟨[cLang]⟩) = .ok reg ∧
      validateRun (fun _ => []) reg (.ok (cRequest (str "prog.c"))) =
        .ok (cRequest (str "prog.c"), lc) ∧
      ¬ NamesAgree cLang (cRequest (str "prog.c")) lc := by
  refine ⟨_, _, load_cRegistry, by rfl, fun h => ?_⟩
  have hne : expandSource (str "solution.c") (str "{{source}}") ≠
      expandSource (str "prog.c") (str "{{source}}") := by decide
  exact hne (h.source (str "{{source}}") (by decide))

end Goboxd.Api
