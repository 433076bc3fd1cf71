import Goboxd.Api.Info
import Goboxd.Lib.TtlCache

/-!
# Probing the runtimes

What `/readyz` and `/info` ask before they answer, as the calls they make, one after the
other. The shared cache answers for nsjail and for each language; what it has not, or has had
for too long, is probed by running a command. The registry and the flag that is set at
shutdown are read at the moment they are asked for, and both may change at any time; a Go map
is ranged over in any order.

Times are in nanoseconds. The pattern by which `nsjailVersionFromHelp` finds a version is not
followed here: what it finds is a parameter.
-/

namespace Goboxd.Api

open Go Config TtlCache

structure ReadyProbe where
  OK : Bool
  version : GoString
  error : GoString
deriving DecidableEq, Repr

/-- What a command came to: the error of `exec`, if any, and its output. -/
structure CmdResult where
  err : Option GoString
  stdout : GoString
  combined : GoString
deriving DecidableEq, Repr

/-- What is asked of the rest of the process and of the host. -/
inductive ProbeLook where
  | shuttingDown
  | registry
  | run (cmd : List GoString)
  | lookPath (binary : GoString)

def ProbeAnswer : ProbeLook → Type
  | .shuttingDown => Bool
  | .registry => Registry
  | .run _ => CmdResult
  | .lookPath _ => Option GoString

structure ProbeWorld where
  shuttingDown : Bool
  registry : Registry
  run : List GoString → CmdResult
  lookPath : GoString → Option GoString

def probeLook : (c : ProbeLook) → ProbeWorld → ProbeAnswer c → Prop
  | .shuttingDown, w, x => x = w.shuttingDown
  | .registry, w, x => x.Perm w.registry
  | .run cmd, w, x => x = w.run cmd
  | .lookPath binary, w, x => x = w.lookPath binary

/-- Nobody takes a shutdown back. -/
def probeEnv (w v : ProbeWorld) : Prop := w.shuttingDown = true → v.shuttingDown = true

/-! ## One probe -/

abbrev Probing : Type := Calls ProbeLook ProbeAnswer ReadyProbe

/-- `probeExecArgs`, with the binary in front of its arguments. -/
def probeExecArgs (cmd : List GoString) : Probing :=
  .call (.run cmd) fun
    | ⟨none, stdout, _⟩ => .done ⟨true, trimSpace stdout, []⟩
    | ⟨some err, _, _⟩ =>
        .call (.lookPath (cmd.headD [])) fun
          | some path => .done ⟨true, path, []⟩
          | none => .done ⟨false, [], cmd.headD [] ++ str " not found: " ++ err⟩

/-- The command that probes a language. There is always a `RunCmd`: `expandCmd` gives no empty
list. -/
def probeCmd (lc : LanguageConfig) : List GoString :=
  if lc.smokeCmd ≠ [] then lc.smokeCmd
  else
    let probeCmd := lc.runCmd.headD []
    let probeCmd := if lc.buildCmd ≠ [] then lc.buildCmd.headD [] else probeCmd
    [probeCmd, str "--version"]

def probeLangExec (lc : LanguageConfig) : Probing := probeExecArgs (probeCmd lc)

def probeNsjail (nsjailVersionFromHelp : GoString → GoString) : Probing :=
  .call (.run [str "nsjail", str "--help"]) fun
    | ⟨none, _, out⟩ => .done ⟨true, nsjailVersionFromHelp out, []⟩
    | ⟨some err, _, _⟩ => .done ⟨false, [], str "nsjail not found or failed: " ++ err⟩

/-! ## The cache -/

inductive ProbeQuery where
  | nsjail
  | lang (lc : LanguageConfig)

def probeKey : ProbeQuery → GoString
  | .nsjail => str "nsjail"
  | .lang lc => str "lang:" ++ lc.id

/-- `probes`, with a lifetime and what it finds in the text of nsjail. -/
def probes (ttl : ℤ) (nsjailVersionFromHelp : GoString → GoString) :
    TtlCache.System ProbeQuery GoString ProbeLook ProbeAnswer ReadyProbe ProbeWorld where
  ttl := ttl
  key := probeKey
  body := fun
    | .nsjail => probeNsjail nsjailVersionFromHelp
    | .lang lc => probeLangExec lc
  look := probeLook
  env := probeEnv

/-- Five seconds, or the value of `GOBOXD_PROBE_TTL`. The product wraps. -/
def readProbeTTL (getenv : Env) : ℤ :=
  let raw := getenv "GOBOXD_PROBE_TTL"
  match atoi raw with
  | some secs => if raw ≠ [] ∧ 0 < secs then wrap (secs * 1000000000) else 5000000000
  | none => 5000000000

/-! ## The handlers -/

/-- A function that asks the cache and the process. -/
abbrev Probes (β : Type) : Type := Program ProbeQuery ProbeLook ProbeAnswer ReadyProbe β

structure ReadyState where
  allOK : Bool
  status : GoString
  nsjail : Option ReadyProbe
  languages : List (GoString × ReadyProbe)
deriving DecidableEq, Repr

/-- The loop over the registry. -/
def languageProbes : Registry → Probes (List (GoString × ReadyProbe))
  | [] => .done []
  | (lid, lc) :: rest =>
      .call (.get (.lang lc)) fun p => languageProbes rest >>= fun ps => .done ((lid, p) :: ps)

def readyStateOf (nsjail : ReadyProbe) (languages : List (GoString × ReadyProbe)) : ReadyState :=
  let allOK := nsjail.OK && languages.all fun l => l.2.OK
  ⟨allOK, if allOK then str "ok" else str "degraded", some nsjail, languages⟩

def probeReadiness : Probes ReadyState :=
  .call (.look .shuttingDown) fun (shuttingDown : Bool) =>
    if shuttingDown then .done ⟨false, str "shutting_down", none, []⟩
    else
      .call (.get .nsjail) fun nsjail =>
        .call (.look .registry) fun reg =>
          languageProbes reg >>= fun languages => .done (readyStateOf nsjail languages)

/-- The status code of `HandleReadyz`. -/
def readyzStatus (state : ReadyState) : Nat := if state.allOK then 200 else 503

/-- What `HandleInfo` asks: the version of nsjail, and an entry for each language. -/
def infoProbes : Probes (GoString × List LanguageInfo) :=
  .call (.get .nsjail) fun nsjail =>
    .call (.look .registry) fun reg =>
      languageProbes reg >>= fun ps =>
        .done (if nsjail.OK then nsjail.version else [],
          (reg.zip ps).map fun e =>
            languageInfo (if e.2.2.OK then some e.2.2.version else none) e.1.2)

/-- What the two handlers have to answer with. -/
inductive ProbeReply where
  | readyz (state : ReadyState)
  | info (nsjailVersion : GoString) (langs : List LanguageInfo)

def handleReadyz : Probes ProbeReply := probeReadiness >>= fun state => .done (.readyz state)

def handleInfo : Probes ProbeReply := infoProbes >>= fun r => .done (.info r.1 r.2)

end Goboxd.Api
