import Goboxd.Config
import Goboxd.Models

/-!
# What a request asks of a language

The parts of package `runner` that turn a request and its language's
configuration into the parameters of an exec: the command line, the file name,
the limits, the output cap and the number of parallel tests.
-/

namespace Goboxd.Runner

open Go Models Config

/-- `execLimits`: seconds, seconds, kilobytes and a count. -/
structure ExecLimits where
  wallTime : Int
  cpuLimit : Int
  memKB : Int
  procs : Int
deriving DecidableEq, Repr

/-- Replaces every argument that is `{{flags}}` by the flags themselves. -/
def expandFlags (cmdArgs flags : List GoString) : List GoString :=
  cmdArgs.flatMap fun arg => if arg = str "{{flags}}" then flags else [arg]

/-- The flags that `expandFlags` puts in. -/
def splicedFlags (cmdArgs flags : List GoString) : List GoString :=
  if cmdArgs.contains (str "{{flags}}") then flags else []

def stageFlags (stage : Option StageConfig) : List GoString :=
  stage.elim [] StageConfig.flags

/-- A stage's limits, each overridden by the request's when it gives one. -/
def stageLimits (dflt : Config.Limits) (stage : Option StageConfig) : ExecLimits :=
  let limits := stage.bind StageConfig.limits
  { wallTime := (limits.bind Models.Limits.wallTimeS).getD dflt.wallTimeS
    cpuLimit := (limits.bind Models.Limits.cpuTimeS).getD dflt.cpuTimeS
    memKB := (limits.bind Models.Limits.memoryKB).getD dflt.memoryKB
    procs := (limits.bind Models.Limits.maxProcesses).getD dflt.maxProcesses }

def buildCmdArgs (req : RunRequest) (lc : LanguageConfig) : List GoString :=
  expandFlags lc.buildCmd (stageFlags req.build)

def runCmdArgs (req : RunRequest) (lc : LanguageConfig) : List GoString :=
  expandFlags lc.runCmd (stageFlags req.run)

def resolveSourceName (req : RunRequest) (lc : LanguageConfig) : GoString :=
  if lc.sourceFilenameStrategy = str "fixed" then lc.sourceFilename
  else if req.sourceFilename ≠ [] then req.sourceFilename
  else lc.sourceFilename

def maxOutputBytes : Int := 64 * 1024

/-- The request's output cap. -/
def outputCap (req : RunRequest) : Int :=
  match req.maxOutputBytes with
  | some n => if n > 0 then n else maxOutputBytes
  | none => maxOutputBytes

/-- How many tests may run at once; at most one means one after the other. -/
def effectiveParallel (numCPU : Int) (req : RunRequest) : Int :=
  match req.maxParallel with
  | some n => if n > 1 then if numCPU > 0 ∧ n > numCPU then numCPU else n else 1
  | none => 1

theorem mem_splicedFlags {cmdArgs flags : List GoString} {flag : GoString} :
    flag ∈ splicedFlags cmdArgs flags ↔ str "{{flags}}" ∈ cmdArgs ∧ flag ∈ flags := by
  unfold splicedFlags
  split
  · next h => simp [List.contains_iff_mem.mp h]
  · next h =>
      have hno : str "{{flags}}" ∉ cmdArgs := fun hmem =>
        h (List.contains_iff_mem.mpr hmem)
      simp [hno]

end Goboxd.Runner
