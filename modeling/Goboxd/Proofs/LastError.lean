import Goboxd.Api.Requests
import Goboxd.Proofs.ResponseStatus
import Mathlib.Data.List.Induction

/-!
# When `/info` shows the last internal error

`lastInternalErr` is set on two of the exits of `HandleRun`. One is for a run
that failed while its client went away. The other is for an error of
`ExecuteRun` whose build result is not an internal error, and there is none: the
exit for those that are comes before it and leaves the time as it was. Tests
that could not be run do not make `ExecuteRun` fail at all.

So the time follows the runs that failed as long as each of them came with an
error and had lost its client.
-/

namespace Goboxd.Api

open Go Models Config Runner Family

/-- The build or a test ended as an internal error. -/
def RunEnd.infraFailure : RunEnd → Bool
  | .ran _ _ build tests _ =>
      build.status = .internalError || tests.any fun t => t.status = .internalError
  | _ => false

/-- `ExecuteRun` returned an error and the client was gone. -/
def RunEnd.failedUnseen : RunEnd → Bool
  | .ran clientGone _ _ _ err => clientGone && err.isSome
  | _ => false

variable {numCPU : Int}

/-- The time of the last of the requests that ended in some way. -/
def lastTime (p : RunEnd → Bool) (runs : List (ServedRun numCPU)) : Option Int :=
  ((runs.filter fun r => p r.ended).getLast?).map ServedRun.time

/-- After every request the statistics show the time of the last failure. -/
def LastErrorTracks (runs : List (ServedRun numCPU)) : Prop :=
  ∀ m n, (GetStats m (lastInternalErr (runs.take n))).lastErrorAt =
    lastTime RunEnd.infraFailure (runs.take n)

/-- Every run that failed came with an error and had lost its client. -/
def FailuresUnseen (runs : List (ServedRun numCPU)) : Prop :=
  ∀ r ∈ runs, r.ended.infraFailure = true → r.ended.failedUnseen = true

/-! ## Where the time is set -/

theorem setLast_iff (r : ServedRun numCPU) :
    r.ended.handled.any Handled.lastInternalErr = r.ended.failedUnseen := by
  obtain ⟨ended, time, hpossible⟩ := r
  cases ended with
  | rejected => rfl
  | refused clientGone e =>
      show (refuseRun clientGone e).lastInternalErr = false
      rw [refuseRun]
      split <;> rfl
  | ran clientGone req build tests err =>
      obtain ⟨lc, s, hr, hpc, hgone⟩ := hpossible
      have hwf := returnWf_of_reachable hr hpc
      show (finishRun clientGone req build tests err).lastInternalErr =
        (clientGone && err.isSome)
      cases clientGone with
      | true => rfl
      | false =>
          cases hwf with
          | setup hb ht =>
              rw [finishRun, if_neg (by simp), if_pos (by simp), if_pos hb]
              rfl
          | build hb ht hlog => rfl
          | tests hb ht => rfl

/-- Such a run is a failure. -/
theorem infraFailure_of_unseen (r : ServedRun numCPU)
    (h : r.ended.failedUnseen = true) : r.ended.infraFailure = true := by
  obtain ⟨ended, time, hpossible⟩ := r
  cases ended with
  | rejected => cases h
  | refused clientGone e => cases h
  | ran clientGone req build tests err =>
      have hand : (clientGone && err.isSome) = true := h
      rw [Bool.and_eq_true, Option.isSome_iff_exists] at hand
      obtain ⟨-, e, rfl⟩ := hand
      obtain ⟨lc, s, hr, hpc, -⟩ := hpossible
      cases returnWf_of_reachable hr hpc with
      | setup hb ht =>
          show (decide (build.status = .internalError) || _) = true
          rw [decide_eq_true hb, Bool.true_or]

/-! ## The time, as that of the last of them -/

theorem lastTime_concat (p : RunEnd → Bool) (runs : List (ServedRun numCPU))
    (r : ServedRun numCPU) :
    lastTime p (runs ++ [r]) = if p r.ended then some r.time else lastTime p runs := by
  unfold lastTime
  rw [List.filter_append, List.filter_cons, List.filter_nil]
  split
  · rw [List.getLast?_append, List.getLast?_singleton]
    rfl
  · rw [List.append_nil]

theorem lastInternalErr_eq (runs : List (ServedRun numCPU)) :
    lastInternalErr runs = lastTime RunEnd.failedUnseen runs := by
  induction runs using List.reverseRecOn with
  | nil => rfl
  | append_singleton runs r ih =>
      rw [lastTime_concat, lastInternalErr, List.foldl_append, List.foldl_cons,
        List.foldl_nil, setLastInternalErr, setLast_iff, ← ih, lastInternalErr]

theorem mem_of_lastTime {p : RunEnd → Bool} {runs : List (ServedRun numCPU)} {t : Int}
    (h : lastTime p runs = some t) : ∃ r ∈ runs, r.time = t := by
  obtain ⟨r, hr, rfl⟩ := Option.map_eq_some_iff.mp h
  exact ⟨r, List.mem_of_mem_filter (List.mem_of_getLast? hr), rfl⟩

theorem tracks_of_unseen {runs : List (ServedRun numCPU)} (h : FailuresUnseen runs) :
    LastErrorTracks runs := by
  intro m n
  show lastInternalErr (runs.take n) = _
  rw [lastInternalErr_eq, lastTime, lastTime]
  congr 2
  refine List.filter_congr fun r hr => ?_
  rw [Bool.eq_iff_iff]
  exact ⟨infraFailure_of_unseen r, h r (List.mem_of_mem_take hr)⟩

theorem unseen_of_tracks {runs : List (ServedRun numCPU)}
    (hclock : runs.Pairwise fun a b => a.time < b.time) (h : LastErrorTracks runs) :
    FailuresUnseen runs := by
  intro r hr hfailed
  by_contra hseen
  obtain ⟨before, after, rfl⟩ := List.append_of_mem hr
  have htracks := h newMetrics (before.length + 1)
  have htake : (before ++ r :: after).take (before.length + 1) = before ++ [r] := by
    rw [List.take_append, List.take_of_length_le (by omega), Nat.add_sub_cancel_left]
    rfl
  rw [htake, lastTime_concat, if_pos hfailed] at htracks
  have hlast : lastInternalErr (before ++ [r]) = some r.time := htracks
  rw [lastInternalErr_eq, lastTime_concat, if_neg hseen] at hlast
  obtain ⟨r', hmem, htime⟩ := mem_of_lastTime hlast
  have hlt := (List.pairwise_append.mp hclock).2.2 r' hmem r List.mem_cons_self
  omega

/-- When the statistics show the last failure. For any sequence of requests they
do so, after each of them, when every run that failed came with an error and had
lost its client; and, the clock having moved on between the requests, only
then. -/
theorem last_error_tracks_iff (runs : List (ServedRun numCPU)) :
    (FailuresUnseen runs → LastErrorTracks runs) ∧
    ((runs.Pairwise fun a b => a.time < b.time) →
      LastErrorTracks runs → FailuresUnseen runs) :=
  ⟨tracks_of_unseen, unseen_of_tracks⟩

/-! ## A jail that could not be made -/

/-- `newJail` fails, and the client goes away or not. -/
def noJailRun (gone : Bool) : List (Act TestAct RunEvent) :=
  [.env (.newJail (.error (str "no uid available")))] ++
    if gone then [.env .cancel] else []

def noJailEnd (gone : Bool) : RunEnd :=
  .ran gone pairOfTests (jailFailure (str "no uid available")) []
    (some (str "materializing jail: no uid available"))

theorem possible_noJailEnd (gone : Bool) : (noJailEnd gone).Possible 4 := by
  cases gone with
  | true =>
      exact ⟨pyConfig, _, Machine.reachable_of_exec (noJailRun true) init_executeRun rfl,
        rfl, rfl⟩
  | false =>
      exact ⟨pyConfig, _, Machine.reachable_of_exec (noJailRun false) init_executeRun rfl,
        rfl, rfl⟩

def noJailServed (gone : Bool) (time : Int) : ServedRun 4 :=
  ⟨noJailEnd gone, time, possible_noJailEnd gone⟩

theorem last_error_tracks_iff_unseen :
    LastErrorTracks [noJailServed true 1700000000000000000] ∧
      lastInternalErr [noJailServed true 1700000000000000000] =
        some 1700000000000000000 := by
  refine ⟨(last_error_tracks_iff _).1 fun r hr _ => ?_, rfl⟩
  rw [List.mem_singleton.mp hr]
  rfl

/-- The client is there and gets the internal error; the statistics show
none. -/
theorem last_error_missed :
    (finishRun false pairOfTests (jailFailure (str "no uid available")) []
      (some (str "materializing jail: no uid available"))).answer.body.map
        RunResponse.status = some (str "internal_error") ∧
    ¬ ∀ runs : List (ServedRun 4), (runs.Pairwise fun a b => a.time < b.time) →
      LastErrorTracks runs := by
  refine ⟨rfl, fun h => ?_⟩
  have htracks := h [noJailServed false 1700000000000000000]
    (List.pairwise_singleton _ _) newMetrics 1
  cases htracks

end Goboxd.Api
