import Goboxd.Config

/-!
# What `/info` says of the languages

An entry of the list that `HandleInfo` builds from the registry. A probe of the
language's runtime is outside the repository, so what it answers is an argument:
the version it printed, or nothing when it failed.
-/

namespace Goboxd.Api

open Go Config

/-- One entry of `languages`, with the four values of `default_run_limits` and
of `ceiling_run_limits`. -/
structure LanguageInfo where
  id : GoString
  name : GoString
  version : GoString
  defaultRunLimits : Config.Limits
  ceilingRunLimits : Config.Limits
deriving DecidableEq, Repr

/-- `strings.SplitN(p.Version, "\n", 2)[0]`. -/
def firstLine (version : GoString) : GoString := version.takeWhile fun c => c ≠ 10

def languageInfo (probe : Option GoString) (lc : LanguageConfig) : LanguageInfo where
  id := lc.id
  name := lc.name
  version := probe.elim lc.name firstLine
  defaultRunLimits := lc.defaultLimits
  ceilingRunLimits := lc.defaultCeiling

end Goboxd.Api
