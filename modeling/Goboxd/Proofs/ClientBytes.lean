import Goboxd.Proofs.FileNames
import Goboxd.Proofs.ResponseStatus
import Goboxd.Proofs.RunFaults

/-!
# What the bytes of a request can break

Two kinds of strings of a request reach the system: the name of the source
file, which becomes a path, and the flags, which become arguments of a process.
The validators look for separators and dots in the one and for an allowed prefix
in the other. What the system refuses is something else, a zero byte in either
and a flag longer than an argument may be, and a JSON string may hold both.

A name is at most 64 bytes when it passes, so its length never matters. A flag
has no bound of its own. A language with no allowlist takes any flag, and a
pattern that ends in a star takes any suffix, so whether a flag can do it is a
question about the configuration, and here about the request that passed.
-/

namespace Goboxd.Api

open Go Models Config Runner Family

variable {numCPU : Int} {req : RunRequest} {lc : LanguageConfig}
  {s t : St RunState TestProc}

/-- The jail that is made, of this language. -/
def jailOf (lc : LanguageConfig) : JailFields := { pyJail with seccomp := lc.seccomp }

theorem built (w : BuildWorld) {sh : RunState} (hpc : sh.pc = .build (jailOf lc))
    (hafter : w.ctxAfter = none) :
    runEvent 1 req lc sh (.build w 0) =
      some (sh.finishBuild 1 req (jailOf lc)
        { (runBuild w (jailOf lc) req lc).1 with durationMs := 0 }
        (runBuild w (jailOf lc) req lc).2, []) := by
  simp [runEvent, hpc, RunState.derivedErr, hafter]

end Goboxd.Api
