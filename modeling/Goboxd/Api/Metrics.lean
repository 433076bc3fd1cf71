import Goboxd.Lib.Family
import Goboxd.Lib.GoString

/-!
# The metrics

The counters behind `/metrics`. `recordRun` adds to four of them, one after the
other, and `Snapshot` reads all of them, one after the other, so the steps here
are the atomic operations and the sections under each of the two mutexes. What
`recordRun` does is kept apart from who calls it.

The counters are `int64` in the program and do not come near that bound.
-/

namespace Goboxd.Api

open Go

/-- A `map[string]int64`. -/
abbrev Counts := List (GoString × Int)

/-- `m[key]++`. -/
def bump (key : GoString) : Counts → Counts
  | [] => [(key, 1)]
  | (k, n) :: m => if k = key then (k, n + 1) :: m else (k, n) :: bump key m

def sumCounts (m : Counts) : Int := (m.map Prod.snd).sum

@[simp] theorem sumCounts_bump (key : GoString) (m : Counts) :
    sumCounts (bump key m) = sumCounts m + 1 := by
  induction m with
  | nil => rfl
  | cons e m ih =>
      obtain ⟨k, n⟩ := e
      rw [bump]
      split
      · show n + 1 + sumCounts m = n + sumCounts m + 1
        omega
      · show n + sumCounts (bump key m) = n + sumCounts m + 1
        rw [ih]
        omega

structure Metrics where
  inFlight : Int
  queued : Int
  totalRuns : Int
  errors : Int
  statuses : Counts
  latency : Counts
deriving DecidableEq, Repr

def newMetrics : Metrics where
  inFlight := 0
  queued := 0
  totalRuns := 0
  errors := 0
  statuses := []
  latency := []

def latencyBucketsMs : List Int := [50, 100, 250, 500, 1000, 2000, 5000]

/-- The label of a duration in milliseconds. -/
def latencyBucket (ms : Int) : List Int → GoString
  | [] => str "5000+"
  | b :: bs => if ms ≤ b then str "<=" ++ itoa b else latencyBucket ms bs

/-! ## `recordRun` -/

/-- The arguments of `recordRun`; the duration is in nanoseconds. -/
structure RunRecord where
  status : GoString
  duration : Int
  isError : Bool
deriving DecidableEq, Repr

/-- What `recordRun` does next. -/
inductive RecordPc where
  | addTotal
  | addErrors
  | lockStatuses
  | lockLatency
  | returned
deriving DecidableEq, Repr

def recordStep (m : Metrics) (r : RunRecord) : RecordPc → Option (Metrics × RecordPc)
  | .addTotal => some ({ m with totalRuns := m.totalRuns + 1 }, .addErrors)
  | .addErrors =>
      some (if r.isError then { m with errors := m.errors + 1 } else m, .lockStatuses)
  | .lockStatuses =>
      some ({ m with statuses := bump r.status m.statuses }, .lockLatency)
  | .lockLatency =>
      let bucket := latencyBucket (Int.tdiv r.duration 1000000) latencyBucketsMs
      some ({ m with latency := bump bucket m.latency }, .returned)
  | .returned => none

/-! What a call has added when it is about to take a step. -/

def RecordPc.inTotal : RecordPc → Int
  | .addTotal => 0
  | _ => 1

def RecordPc.inErrors (isError : Bool) : RecordPc → Int
  | .addTotal | .addErrors => 0
  | _ => if isError then 1 else 0

def RecordPc.inStatuses : RecordPc → Int
  | .addTotal | .addErrors | .lockStatuses => 0
  | _ => 1

def RecordPc.inLatency : RecordPc → Int
  | .returned => 1
  | _ => 0

/-- Every counter moves by what the call adds to it, and the gauges do not. -/
structure RecordMove (m : Metrics) (r : RunRecord) (pc : RecordPc)
    (o : Metrics × RecordPc) : Prop where
  totalRuns : o.1.totalRuns = m.totalRuns - pc.inTotal + o.2.inTotal
  errors : o.1.errors = m.errors - pc.inErrors r.isError + o.2.inErrors r.isError
  statuses : sumCounts o.1.statuses =
    sumCounts m.statuses - pc.inStatuses + o.2.inStatuses
  latency : sumCounts o.1.latency = sumCounts m.latency - pc.inLatency + o.2.inLatency
  inFlight : o.1.inFlight = m.inFlight
  queued : o.1.queued = m.queued
  later : o.2 ≠ .addTotal

theorem recordStep_move {m : Metrics} {r : RunRecord} {pc : RecordPc}
    {o : Metrics × RecordPc} (h : recordStep m r pc = some o) : RecordMove m r pc o := by
  cases pc with
  | addTotal =>
      cases h
      refine ⟨?_, ?_, ?_, ?_, rfl, rfl, by simp⟩ <;> simp only [RecordPc.inTotal,
        RecordPc.inErrors, RecordPc.inStatuses, RecordPc.inLatency] <;> omega
  | addErrors =>
      cases h
      cases hr : r.isError with
      | false =>
          refine ⟨?_, ?_, ?_, ?_, rfl, rfl, by simp⟩ <;> simp [hr, RecordPc.inTotal,
            RecordPc.inErrors, RecordPc.inStatuses, RecordPc.inLatency]
      | true =>
          refine ⟨?_, ?_, ?_, ?_, rfl, rfl, by simp⟩ <;> simp [hr, RecordPc.inTotal,
            RecordPc.inErrors, RecordPc.inStatuses, RecordPc.inLatency]
  | lockStatuses =>
      cases h
      refine ⟨?_, ?_, ?_, ?_, rfl, rfl, by simp⟩ <;> simp [RecordPc.inTotal,
        RecordPc.inErrors, RecordPc.inStatuses, RecordPc.inLatency]
  | lockLatency =>
      cases h
      refine ⟨?_, ?_, ?_, ?_, rfl, rfl, by simp⟩ <;> simp [RecordPc.inTotal,
        RecordPc.inErrors, RecordPc.inStatuses, RecordPc.inLatency]
  | returned => cases h

/-! ## `Snapshot` -/

/-- The map that `Snapshot` returns, less the uptime. -/
structure MetricsSnapshot where
  inFlight : Int
  queueDepth : Int
  totalRuns : Int
  errorCount : Int
  statusCounts : Counts
  latencyHistogramMs : Counts
deriving DecidableEq, Repr

/-- What `Snapshot` does next, with what it has read so far. -/
inductive SnapshotPc where
  | copyStatuses
  | copyLatency (statuses : Counts)
  | loadInFlight (statuses latency : Counts)
  | loadQueued (statuses latency : Counts) (inFlight : Int)
  | loadTotal (statuses latency : Counts) (inFlight queued : Int)
  | loadErrors (statuses latency : Counts) (inFlight queued total : Int)
  | returned (snap : MetricsSnapshot)
deriving DecidableEq, Repr

def snapshotStep (m : Metrics) : SnapshotPc → Option SnapshotPc
  | .copyStatuses => some (.copyLatency m.statuses)
  | .copyLatency statuses => some (.loadInFlight statuses m.latency)
  | .loadInFlight statuses latency => some (.loadQueued statuses latency m.inFlight)
  | .loadQueued statuses latency inFlight =>
      some (.loadTotal statuses latency inFlight m.queued)
  | .loadTotal statuses latency inFlight queued =>
      some (.loadErrors statuses latency inFlight queued m.totalRuns)
  | .loadErrors statuses latency inFlight queued total =>
      some (.returned
        { inFlight := inFlight
          queueDepth := queued
          totalRuns := total
          errorCount := m.errors
          statusCounts := statuses
          latencyHistogramMs := latency })
  | .returned _ => none

/-! ## Concurrent calls -/

/-- A goroutine in `recordRun` or in `Snapshot`. -/
inductive MetricsProc where
  | recording (r : RunRecord) (pc : RecordPc)
  | snapshotting (pc : SnapshotPc)
deriving DecidableEq, Repr

def metricsProcStep (m : Metrics) : MetricsProc → Option (Metrics × MetricsProc)
  | .recording r pc => (recordStep m r pc).map fun o => (o.1, .recording r o.2)
  | .snapshotting pc => (snapshotStep m pc).map fun pc => (m, .snapshotting pc)

/-- New calls, and the two gauges, which handler and gate move. -/
inductive MetricsEvent where
  | recordRun (r : RunRecord)
  | snapshot
  | addInFlight (d : Int)
  | addQueued (d : Int)
deriving DecidableEq, Repr

def metricsEvent (m : Metrics) : MetricsEvent → Metrics × List MetricsProc
  | .recordRun r => (m, [.recording r .addTotal])
  | .snapshot => (m, [.snapshotting .copyStatuses])
  | .addInFlight d => ({ m with inFlight := m.inFlight + d }, [])
  | .addQueued d => ({ m with queued := m.queued + d }, [])

/-- The metrics and everyone who works on them. -/
def metricsCalls : Family Metrics MetricsProc Unit MetricsEvent where
  init m := m = newMetrics
  own _ m l _ := metricsProcStep m l
  env m e := some (metricsEvent m e)

end Goboxd.Api
