import Goboxd.Lib.GoString

/-!
# The API's data

The types of package `models`. An optional JSON field is a pointer in the
source and an `Option` here; an absent string or list is the empty one, as in
Go. The statuses are string types with a closed set of constants, so they are
enumerations with one more value each: `unset` is the zero value `""`, which
the source keeps apart from every member of the vocabulary.
-/

namespace Goboxd.Models

open Go

structure Limits where
  wallTimeS : Option Int
  memoryKB : Option Int
  maxProcesses : Option Int
  cpuTimeS : Option Int
deriving DecidableEq, Repr

structure StageConfig where
  limits : Option Limits
  flags : List GoString
deriving DecidableEq, Repr

structure TestCase where
  stdin : GoString
  expectedStdout : GoString
deriving DecidableEq, Repr

/-- The payload of `POST /run`. -/
structure RunRequest where
  language : GoString
  source : GoString
  sourceFilename : GoString
  artifactFilename : GoString
  build : Option StageConfig
  run : Option StageConfig
  tests : List TestCase
  maxParallel : Option Int
  maxOutputBytes : Option Int
deriving DecidableEq, Repr

inductive ResultStatus where
  | unset
  | accepted
  | buildFailed
  | internalError
  | runtimeError
  | timeExceeded
  | memoryExceeded
  | wrongOutput
  | whitespaceMismatch
  | notExecuted
  | cancelled
  | cpuTimeExceeded
deriving DecidableEq, Repr

def ResultStatus.text : ResultStatus → GoString
  | .unset => []
  | .accepted => str "accepted"
  | .buildFailed => str "build_failed"
  | .internalError => str "internal_error"
  | .runtimeError => str "runtime_error"
  | .timeExceeded => str "time_exceeded"
  | .memoryExceeded => str "memory_exceeded"
  | .wrongOutput => str "wrong_output"
  | .whitespaceMismatch => str "output_whitespace_mismatch"
  | .notExecuted => str "not_executed"
  | .cancelled => str "cancelled"
  | .cpuTimeExceeded => str "cpu_time_exceeded"

def ResultStatus.valid : ResultStatus → Bool
  | .unset => false
  | _ => true

inductive BuildStatus where
  | unset
  | ok
  | failed
  | internalError
deriving DecidableEq, Repr

def BuildStatus.valid : BuildStatus → Bool
  | .unset => false
  | _ => true

structure BuildResult where
  status : BuildStatus
  stdout : GoString
  stderr : GoString
  durationMs : Int
  cpuTimeMs : Int
deriving DecidableEq, Repr

structure TestResult where
  status : ResultStatus
  stdout : GoString
  stderr : GoString
  durationMs : Int
  cpuTimeMs : Int
  memoryPeakKB : Int
  exitCode : Int
  terminationSignal : Int
deriving DecidableEq, Repr

def TestResult.zero : TestResult where
  status := .unset
  stdout := []
  stderr := []
  durationMs := 0
  cpuTimeMs := 0
  memoryPeakKB := 0
  exitCode := 0
  terminationSignal := 0

/-- The body of a 200. Its `status` is a plain string. -/
structure RunResponse where
  status : GoString
  build : BuildResult
  tests : List TestResult
deriving DecidableEq, Repr

structure ErrorDetail where
  code : GoString
  message : GoString
deriving DecidableEq, Repr

end Goboxd.Models
