import Goboxd.Runner.OomPoll

/-!
# When a memory kill is reported

A kill is reported by the flag or by the check after `Wait`. The check finds
the leaf only when nsjail did not remove it, which it does whenever its child
ended by itself or by the kill, so a kill that the poller has not stored by
then is lost; the tick that would have found it comes up to 50 ms later.

The invariant is about the moment the leaf goes: a leaf that was removed had
no kill or its kill is in the flag. The parent reads the flag after nsjail is
gone, hence after every removal, and so a parent that still has to check is
one whose leaf was kept or had no kill. The sums are `uint64`, which is why
the leaf that was kept has its own condition.
-/

namespace Goboxd.Runner

open Go Cgroupv2

/-- The kills in the leaves that earlier execs left behind. -/
def leftover : List (GoString × Option MemoryEvents) → Nat
  | [] => 0
  | (name, events) :: rest =>
      (if hasPrefix name (str "NSJAIL.") then
        events.elim 0 fun e => e.oomKill % 2 ^ 64
      else 0) + leftover rest

variable {x : OomExec} {s t : OomState} {a : OomAct}

theorem killsOfLines_shownEvents (e : MemoryEvents) :
    killsOfLines (split 10 (shownEvents e)) = .ok (e.oomKill % 2 ^ 64) :=
  killsOfLines_memoryEvents (Nat.mod_lt _ (by decide))

theorem killsOfEntries_others (rest : List (GoString × Option GoString)) :
    ∀ others : List (GoString × Option MemoryEvents),
      killsOfEntries ((others.map fun o => (o.1, o.2.map shownEvents)) ++ rest) =
        (killsOfEntries rest).map fun total => leftover others + total := by
  intro others
  induction others with
  | nil => cases h : killsOfEntries rest <;> simp [h, leftover, Except.map]
  | cons o others ih =>
      obtain ⟨name, events⟩ := o
      simp only [List.map_cons, List.cons_append, killsOfEntries, leftover]
      split
      · next hp =>
          cases events with
          | none => simp [ih]
          | some e =>
              simp only [Option.map_some, killsOfLines_shownEvents, ih,
                Option.elim_some]
              cases killsOfEntries rest <;> simp [Except.map, Nat.add_assoc]
      · simp [ih]

end Goboxd.Runner
