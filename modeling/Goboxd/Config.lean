import Goboxd.Lib.GoString

/-!
# The language registry

`loadRegistry` builds the registry from the decoded YAML file and the
environment. Reading the file and decoding it are outside the repository, so
both results are arguments. The map is a list of entries in the order they were
added; only `delete` ever walks it, and deleting does not depend on an order.

The commands are expanded here, once, with the file's own names. Only
`{{flags}}` is left in them for the request to fill in.
-/

namespace Goboxd.Config

open Go

structure Limits where
  wallTimeS : Int
  memoryKB : Int
  maxProcesses : Int
  cpuTimeS : Int
deriving DecidableEq, Repr

def Limits.zero : Limits := ⟨0, 0, 0, 0⟩

/-- A build or run command with its template variables. `hasCeiling` records
whether the YAML had the key. -/
structure StageCmd where
  cmd : GoString
  args : List GoString
  limits : Limits
  ceiling : Limits
  hasCeiling : Bool
  flagAllowlist : List GoString
deriving DecidableEq, Repr

structure LanguageYAML where
  id : GoString
  name : GoString
  sourceFilename : GoString
  artifact : GoString
  build : Option StageCmd
  run : StageCmd
  smokeCmd : GoString
  smokeArgs : List GoString
  sourceFilenameStrategy : GoString
  seccomp : GoString
deriving DecidableEq, Repr

structure ConfigYAML where
  languages : List LanguageYAML
deriving DecidableEq, Repr

structure LanguageConfig where
  id : GoString
  name : GoString
  sourceFilename : GoString
  artifactFilename : GoString
  buildCmd : List GoString
  runCmd : List GoString
  defaultLimits : Limits
  buildLimits : Limits
  runLimits : Limits
  buildCeiling : Limits
  runCeiling : Limits
  defaultCeiling : Limits
  flagAllowlist : List GoString
  smokeCmd : List GoString
  sourceFilenameStrategy : GoString
  seccomp : GoString
deriving DecidableEq, Repr

/-- `map[string]LanguageConfig`. -/
abbrev Registry := List (GoString × LanguageConfig)

/-- `os.Getenv`. -/
abbrev Env := String → GoString

/-- What `LoadRegistry` may fail with. -/
inductive LoadErr where
  /-- `reading %s: %w` -/
  | reading (path err : GoString)
  /-- `parsing %s: %w` -/
  | parsing (path err : GoString)
  /-- `no languages defined in %s` -/
  | noLanguages (path : GoString)
  /-- `language with empty id in %s` -/
  | emptyId (path : GoString)
  /-- `duplicate language id %q in %s` -/
  | duplicateId (id path : GoString)
deriving DecidableEq, Repr

/-- A stage limit fills a ceiling field that the YAML left unset. -/
def orMax (ceiling limit : Int) : Int := if ceiling = 0 then limit else ceiling

def resolveCeiling (ceiling limits : Limits) (hasCeiling : Bool) : Limits :=
  if !hasCeiling then limits
  else
    { wallTimeS := orMax ceiling.wallTimeS limits.wallTimeS
      memoryKB := orMax ceiling.memoryKB limits.memoryKB
      maxProcesses := orMax ceiling.maxProcesses limits.maxProcesses
      cpuTimeS := orMax ceiling.cpuTimeS limits.cpuTimeS }

/-- The first of the two substitutions `expandCmd` makes in an argument. -/
def expandSource (srcName arg : GoString) : GoString :=
  replaceAll arg (str "{{source}}") srcName

/-- The second one. -/
def expandArtifact (artifact arg : GoString) : GoString :=
  replaceAll arg (str "{{artifact}}") artifact

def expandArg (srcName artifact arg : GoString) : GoString :=
  expandArtifact artifact (expandSource srcName arg)

def expandCmd (cmd : GoString) (args : List GoString)
    (srcName artifact : GoString) : List GoString :=
  expandArg srcName artifact cmd :: args.map (expandArg srcName artifact)

/-- The body of the loop in `LoadRegistry` up to the duplicate check. -/
def newLanguageConfig (lang : LanguageYAML) : LanguageConfig :=
  let runCeiling :=
    resolveCeiling lang.run.ceiling lang.run.limits lang.run.hasCeiling
  let lc : LanguageConfig :=
    { id := lang.id
      name := lang.name
      sourceFilename := lang.sourceFilename
      artifactFilename := []
      buildCmd := []
      runCmd :=
        expandCmd lang.run.cmd lang.run.args lang.sourceFilename lang.artifact
      defaultLimits := lang.run.limits
      buildLimits := .zero
      runLimits := lang.run.limits
      buildCeiling := .zero
      runCeiling := runCeiling
      defaultCeiling := runCeiling
      flagAllowlist := []
      smokeCmd :=
        if lang.smokeCmd ≠ [] then lang.smokeCmd :: lang.smokeArgs else []
      sourceFilenameStrategy := lang.sourceFilenameStrategy
      seccomp := lang.seccomp }
  match lang.build with
  | none => lc
  | some build =>
      let buildCeiling :=
        resolveCeiling build.ceiling build.limits build.hasCeiling
      { lc with
        buildCmd :=
          expandCmd build.cmd build.args lang.sourceFilename lang.artifact
        artifactFilename := lang.artifact
        flagAllowlist := build.flagAllowlist
        buildLimits := build.limits
        defaultLimits := build.limits
        buildCeiling := buildCeiling
        defaultCeiling := buildCeiling }

def addLanguages (path : GoString) :
    List LanguageYAML → Registry → Except LoadErr Registry
  | [], reg => .ok reg
  | lang :: rest, reg =>
      if lang.id = [] then .error (.emptyId path)
      else if (reg.lookup lang.id).isSome then
        .error (.duplicateId lang.id path)
      else addLanguages path rest (reg ++ [(lang.id, newLanguageConfig lang)])

/-- The ids of a comma-separated list, trimmed, empty ones dropped. -/
def idList (s : GoString) : List GoString :=
  ((split 44 s).map trimSpace).filter fun id => id ≠ []

/-- `GOBOXD_LANGS` keeps a subset of the languages. -/
def keepLangs (filter : GoString) (reg : Registry) : Registry :=
  if filter ≠ [] ∧ filter ≠ str "all" then
    reg.filter fun e => e.1 ∈ idList filter
  else reg

/-- `GOBOXD_EXCLUDE_LANGS` removes languages. -/
def excludeLangs (exclude : GoString) (reg : Registry) : Registry :=
  if exclude ≠ [] then reg.filter fun e => e.1 ∉ idList exclude else reg

/-- `LoadRegistry`, up to the swap: the registry it stores, or the error it
returns with the previous registry left active. -/
def loadRegistry (path : GoString) (getenv : Env)
    (file : Except GoString GoString)
    (unmarshal : GoString → Except GoString ConfigYAML) :
    Except LoadErr Registry :=
  match file with
  | .error err => .error (.reading path err)
  | .ok data =>
      match unmarshal data with
      | .error err => .error (.parsing path err)
      | .ok cfg =>
          if cfg.languages = [] then .error (.noLanguages path)
          else
            (addLanguages path cfg.languages []).map fun reg =>
              excludeLangs (getenv "GOBOXD_EXCLUDE_LANGS")
                (keepLangs (getenv "GOBOXD_LANGS") reg)

/-! ## Where an entry comes from -/

theorem mem_addLanguages {path : GoString} :
    ∀ {langs : List LanguageYAML} {reg reg' : Registry}
      {e : GoString × LanguageConfig},
    addLanguages path langs reg = .ok reg' → e ∈ reg' →
    e ∈ reg ∨ ∃ lang ∈ langs, e = (lang.id, newLanguageConfig lang) := by
  intro langs
  induction langs with
  | nil =>
      intro reg reg' e h he
      cases h
      exact .inl he
  | cons lang rest ih =>
      intro reg reg' e h he
      rw [addLanguages] at h
      split at h
      · cases h
      · split at h
        · cases h
        · rcases ih h he with hmem | ⟨lang', hmem, rfl⟩
          · rcases List.mem_append.mp hmem with hmem | hmem
            · exact .inl hmem
            · exact .inr ⟨lang, List.mem_cons_self, List.mem_singleton.mp hmem⟩
          · exact .inr ⟨lang', List.mem_cons_of_mem _ hmem, rfl⟩

/-- No entry has an empty id. -/
theorem id_ne_nil_addLanguages {path : GoString} :
    ∀ {langs : List LanguageYAML} {reg reg' : Registry},
    addLanguages path langs reg = .ok reg' → (∀ e ∈ reg, e.1 ≠ []) →
    ∀ e ∈ reg', e.1 ≠ [] := by
  intro langs
  induction langs with
  | nil =>
      intro reg reg' h hreg
      cases h
      exact hreg
  | cons lang rest ih =>
      intro reg reg' h hreg
      rw [addLanguages] at h
      split at h
      · cases h
      · next hid =>
          split at h
          · cases h
          · refine ih h fun e he => ?_
            rcases List.mem_append.mp he with he | he
            · exact hreg e he
            · rw [List.mem_singleton.mp he]
              exact hid

theorem mem_of_mem_keepLangs {filter : GoString} {reg : Registry}
    {e : GoString × LanguageConfig} (h : e ∈ keepLangs filter reg) : e ∈ reg := by
  unfold keepLangs at h
  split at h
  · exact List.mem_of_mem_filter h
  · exact h

theorem mem_of_mem_excludeLangs {exclude : GoString} {reg : Registry}
    {e : GoString × LanguageConfig} (h : e ∈ excludeLangs exclude reg) :
    e ∈ reg := by
  unfold excludeLangs at h
  split at h
  · exact List.mem_of_mem_filter h
  · exact h

/-- A registry that was loaded: every entry was made from a language of the
file, under that language's id. -/
theorem mem_loadRegistry {path : GoString} {getenv : Env}
    {file : Except GoString GoString}
    {unmarshal : GoString → Except GoString ConfigYAML} {reg : Registry}
    {e : GoString × LanguageConfig}
    (h : loadRegistry path getenv file unmarshal = .ok reg) (he : e ∈ reg) :
    ∃ data cfg, file = .ok data ∧ unmarshal data = .ok cfg ∧
      ∃ lang ∈ cfg.languages, e = (lang.id, newLanguageConfig lang) := by
  unfold loadRegistry at h
  split at h
  · cases h
  · next data =>
      split at h
      · cases h
      · next cfg hu =>
          split at h
          · cases h
          · cases hadd : addLanguages path cfg.languages [] with
            | error err => rw [hadd] at h; cases h
            | ok reg' =>
                rw [hadd] at h
                cases h
                have hmem := mem_of_mem_keepLangs (mem_of_mem_excludeLangs he)
                rcases mem_addLanguages hadd hmem with hnil | hlang
                · cases hnil
                · exact ⟨data, cfg, rfl, hu, hlang⟩

/-- What is looked up in a loaded registry is a language of the file. -/
theorem lookup_loadRegistry {path : GoString} {getenv : Env}
    {file : Except GoString GoString}
    {unmarshal : GoString → Except GoString ConfigYAML} {reg : Registry}
    {id : GoString} {lc : LanguageConfig}
    (h : loadRegistry path getenv file unmarshal = .ok reg)
    (hid : reg.lookup id = some lc) :
    ∃ data cfg, file = .ok data ∧ unmarshal data = .ok cfg ∧
      ∃ lang ∈ cfg.languages, lang.id = id ∧ lc = newLanguageConfig lang := by
  obtain ⟨data, cfg, hf, hu, lang, hlang, heq⟩ := mem_loadRegistry h (mem_of_lookup hid)
  cases heq
  exact ⟨data, cfg, hf, hu, lang, hlang, rfl, rfl⟩

theorem id_ne_nil_loadRegistry {path : GoString} {getenv : Env}
    {file : Except GoString GoString}
    {unmarshal : GoString → Except GoString ConfigYAML} {reg : Registry}
    {e : GoString × LanguageConfig}
    (h : loadRegistry path getenv file unmarshal = .ok reg) (he : e ∈ reg) :
    e.1 ≠ [] := by
  unfold loadRegistry at h
  split at h
  · cases h
  · split at h
    · cases h
    · next cfg _ =>
        split at h
        · cases h
        · cases hadd : addLanguages path cfg.languages [] with
          | error err => rw [hadd] at h; cases h
          | ok reg' =>
              rw [hadd] at h
              cases h
              exact id_ne_nil_addLanguages hadd (fun e he => nomatch he) e
                (mem_of_mem_keepLangs (mem_of_mem_excludeLangs he))

end Goboxd.Config
