import Goboxd.Cgroupv2
import Goboxd.Lib.GoError
import Goboxd.Runner.Command

/-!
# The nsjail command line

`nsjailArgs` builds the arguments section by section: where the jail runs, the
rlimits, the cpu rlimit, the cgroup flags, the masked files, the environment,
the caches, the read-only binds and the seccomp policy. What it looks up
outside the process is a `Host`. Four of these are the paths of files that are
made when the first jail asks for them; how they are asked for is a parameter of
the body, which asks for each where the source does.

`optionValues` goes through a command line from the left: of the options that
are listed as bare it passes the word itself, of every other one the word behind
it too, and it stops at `--`. It gives the words passed behind one option.
-/

namespace Goboxd.Runner

open Go Config

/-- What `nsjailArgs` looks up: the environment, the policy and the masked
files it materializes, the combined policy of a language's extra denies, which
directories exist, and whether `ccache` is installed. -/
structure Host where
  getenv : Env
  policyPath : Except GoString GoString
  combinedWith : List GoString → Except GoString GoString
  maskedHostsPath : Except GoString GoString
  maskedResolvPath : Except GoString GoString
  maskedNsswitchPath : Except GoString GoString
  isDir : GoString → Bool
  ccache : Bool

/-- The files that are made once. -/
inductive Shared where
  | policy
  | hosts
  | resolv
  | nsswitch
deriving DecidableEq, Repr

/-- The path of a shared file, or the error of its making. -/
def Host.path (host : Host) : Shared → Except GoString GoString
  | .policy => host.policyPath
  | .hosts => host.maskedHostsPath
  | .resolv => host.maskedResolvPath
  | .nsswitch => host.maskedNsswitchPath

def parseSyscallNames (s : GoString) : List GoString :=
  if trimSpace s = [] then [] else fieldsOr 44 s

/-- The environment of the jailed process, as `-E` pairs. -/
def jailEnv (getenv : Env) : List GoString :=
  let path := getenv "PATH"
  let path := if path = [] then str "/usr/local/bin:/usr/bin:/bin" else path
  [str "-E", str "PATH=" ++ path, str "-E", str "HOME=/tmp",
    str "-E", str "LANG=C.UTF-8", str "-E", str "LC_ALL=C.UTF-8",
    str "-E", str "DOTNET_SYSTEM_GLOBALIZATION_INVARIANT=1"]

/-- `fmt.Sprintf("%d:%d:1", uid, uid)`. -/
def idMap (uid : Int) : GoString := itoa uid ++ str ":" ++ itoa uid ++ str ":1"

def jailArgs (appDir : GoString) (uid : Int) : List GoString :=
  [str "-Q", str "--log", str "/dev/null", str "-u", idMap uid,
    str "-u", str "0:0:1", str "-g", idMap uid, str "-g", str "0:0:1",
    str "-Mo", str "-m", str "none:/tmp:tmpfs:size=268435456",
    str "--iface_no_lo", str "--disable_proc",
    str "-m", str "none:/proc:proc:ro",
    str "-m", str "none:/proc/sys:tmpfs:size=4096",
    str "--bindmount", appDir ++ str ":/app:rw",
    str "--cwd", str "/app", str "--chroot", str "/"]

/-- The address space limit, in megabytes and at least one. -/
def memMB (memKB : Int) : Int :=
  let mb := Int.tdiv memKB 1024
  if mb < 1 then 1 else mb

def rlimitArgs (lim : ExecLimits) : List GoString :=
  [str "--time_limit", itoa lim.wallTime,
    str "--rlimit_as", itoa (memMB lim.memKB),
    str "--rlimit_nproc", itoa lim.procs,
    str "--rlimit_fsize", str "100", str "--rlimit_nofile", str "65536"]

/-- The cpu rlimit, finite only when the cgroup cannot enforce the limit. -/
def rlimitCpuArgs (cpuLimit : Int) (jailCg : Option Cgroupv2.Jail) :
    List GoString :=
  if cpuLimit > 0 ∧ (jailCg.all fun j => !j.CPUActive) = true then
    [str "--rlimit_cpu", itoa cpuLimit]
  else [str "--rlimit_cpu", str "inf"]

def cgroupArgs (lim : ExecLimits) : Option Cgroupv2.Jail → List GoString
  | none => []
  | some j =>
      [str "--use_cgroupv2", str "--cgroupv2_mount", j.path,
        str "--cgroup_mem_max", itoa (wrap (lim.memKB * 1024)),
        str "--cgroup_mem_swap_max", str "0",
        str "--cgroup_pids_max", itoa lim.procs]

def maxCpusArgs (maxCPUs : GoString) : List GoString :=
  if maxCPUs ≠ [] then [str "--max_cpus", maxCPUs] else []

def maskArgs (path : GoString) (target : String) : List GoString :=
  [str "-R", path ++ str ":" ++ str target]

/-- The bind of a cache directory, when the host has it. -/
def cacheArgs (host : Host) (dir : GoString) (target : String) : List GoString :=
  if host.isDir dir then [str "--bindmount", dir ++ str ":" ++ str target ++ str ":rw"]
  else []

def buildCacheArgs (host : Host) (uid : Int) : List GoString :=
  let uidCacheDir := str "/var/cache/goboxd/uid-" ++ itoa uid
  cacheArgs host (uidCacheDir ++ str "/go-build") "/app/.gocache" ++
    [str "-E", str "GOCACHE=/app/.gocache"] ++
    if host.ccache then
      cacheArgs host (uidCacheDir ++ str "/ccache") "/app/.ccache" ++
        [str "-E", str "CCACHE_DIR=/app/.ccache"]
    else []

def bindArgs : List GoString :=
  [str "-B", str "/usr", str "-B", str "/lib", str "-B", str "/lib64",
    str "-B", str "/bin", str "-B", str "/dev", str "-B", str "/var/lib"]

/-- A masked file's path, or the infrastructure error its lack is. -/
def masked (path : Except GoString GoString) (target : String) :
    Except GoString GoString :=
  path.mapError fun err => str "materializing masked " ++ str target ++ str ": " ++ err

section

variable {m : Type → Type} [Monad m] (ask : Shared → m (Except GoString GoString))

def seccompArgsBy (host : Host) (langSeccomp : GoString) :
    ExceptT GoString m (List GoString) :=
  let extras := parseSyscallNames langSeccomp
  if extras ≠ [] then
    ExceptT.mk (pure ((host.combinedWith extras).map fun combined =>
      [str "--seccomp_string", combined]))
  else
    ExceptT.mk (ask .policy) >>= fun path => pure [str "--seccomp_policy", path]

/-- The body of `nsjailArgs`: the arguments up to and including `--`. -/
def nsjailArgsBy (host : Host) (appDir : GoString) (lim : ExecLimits) (uid : Int)
    (jailCg : Option Cgroupv2.Jail) (langSeccomp : GoString) :
    ExceptT GoString m (List GoString) := do
  let seccomp ← seccompArgsBy ask host langSeccomp
  let hostsPath ← ExceptT.mk ((masked · "/etc/hosts") <$> ask .hosts)
  let resolvPath ← ExceptT.mk ((masked · "/etc/resolv.conf") <$> ask .resolv)
  let nsswitchPath ← ExceptT.mk ((masked · "/etc/nsswitch.conf") <$> ask .nsswitch)
  return jailArgs appDir uid ++ (rlimitArgs lim ++
    (rlimitCpuArgs lim.cpuLimit jailCg ++ (cgroupArgs lim jailCg ++
    (maxCpusArgs (host.getenv "GOBOXD_MAX_CPUS") ++ ([str "-B", str "/etc"] ++
    (maskArgs hostsPath "/etc/hosts" ++ (maskArgs resolvPath "/etc/resolv.conf" ++
    (maskArgs nsswitchPath "/etc/nsswitch.conf" ++ (jailEnv host.getenv ++
    (buildCacheArgs host uid ++ (bindArgs ++ (seccomp ++ [str "--"]))))))))))))

end

/-- `nsjailArgs` on a host whose shared files are made. -/
def nsjailArgs (host : Host) (appDir : GoString) (lim : ExecLimits) (uid : Int)
    (jailCg : Option Cgroupv2.Jail) (langSeccomp : GoString) :
    Except GoString (List GoString) :=
  (nsjailArgsBy (m := Id) host.path host appDir lim uid jailCg langSeccomp).run

def seccompArgs (host : Host) (langSeccomp : GoString) : Except GoString (List GoString) :=
  (seccompArgsBy (m := Id) host.path host langSeccomp).run

theorem seccompArgs_eq (host : Host) (langSeccomp : GoString) :
    seccompArgs host langSeccomp =
      if parseSyscallNames langSeccomp ≠ [] then
        (host.combinedWith (parseSyscallNames langSeccomp)).map fun combined =>
          [str "--seccomp_string", combined]
      else host.policyPath.map fun path => [str "--seccomp_policy", path] := by
  unfold seccompArgs seccompArgsBy
  simp only []
  split
  · rfl
  · rw [run_bind_id]
    rfl

theorem nsjailArgs_eq (host : Host) (appDir : GoString) (lim : ExecLimits) (uid : Int)
    (jailCg : Option Cgroupv2.Jail) (langSeccomp : GoString) :
    nsjailArgs host appDir lim uid jailCg langSeccomp =
      (seccompArgs host langSeccomp).bind fun seccomp =>
      (masked host.maskedHostsPath "/etc/hosts").bind fun hostsPath =>
      (masked host.maskedResolvPath "/etc/resolv.conf").bind fun resolvPath =>
      (masked host.maskedNsswitchPath "/etc/nsswitch.conf").bind fun nsswitchPath =>
      .ok (jailArgs appDir uid ++ (rlimitArgs lim ++
        (rlimitCpuArgs lim.cpuLimit jailCg ++ (cgroupArgs lim jailCg ++
        (maxCpusArgs (host.getenv "GOBOXD_MAX_CPUS") ++ ([str "-B", str "/etc"] ++
        (maskArgs hostsPath "/etc/hosts" ++ (maskArgs resolvPath "/etc/resolv.conf" ++
        (maskArgs nsswitchPath "/etc/nsswitch.conf" ++ (jailEnv host.getenv ++
        (buildCacheArgs host uid ++ (bindArgs ++ (seccomp ++ [str "--"]))))))))))))) := by
  unfold nsjailArgs nsjailArgsBy
  simp only [run_bind_id]
  rfl

/-! ## Reading a command line -/

def bareOptions : List GoString :=
  [str "-Q", str "-Mo", str "--iface_no_lo", str "--disable_proc",
    str "--use_cgroupv2"]

/-- The values an option has on a command line, in order, up to `--`. -/
def optionValues (option : GoString) : List GoString → List GoString
  | [] => []
  | [_] => []
  | opt :: value :: rest =>
      if opt = str "--" then []
      else if bareOptions.contains opt then optionValues option (value :: rest)
      else if opt = option then value :: optionValues option rest
      else optionValues option rest

/-- A stretch of the command line that does not give the option. -/
def Silent (option : GoString) (args : List GoString) : Prop :=
  ∀ rest, rest ≠ [] → optionValues option (args ++ rest) = optionValues option rest

theorem Silent.nil {option : GoString} : Silent option [] := fun _ _ => rfl

theorem Silent.append {option : GoString} {a b : List GoString}
    (ha : Silent option a) (hb : Silent option b) : Silent option (a ++ b) := by
  intro rest hrest
  have hne : b ++ rest ≠ [] := by simp [hrest]
  rw [List.append_assoc, ha _ hne, hb _ hrest]

/-- The option is a known one without a value. -/
def isBare (opt : GoString) : Bool := opt ≠ str "--" && bareOptions.contains opt

/-- The option takes a value and is another one than `option`. -/
def isOther (option opt : GoString) : Bool :=
  opt ≠ str "--" && !bareOptions.contains opt && opt ≠ option

theorem Silent.bare {option opt : GoString} {args : List GoString}
    (hopt : isBare opt = true) (h : Silent option args) :
    Silent option (opt :: args) := by
  intro rest hrest
  simp only [isBare, Bool.and_eq_true, decide_eq_true_eq] at hopt
  have hne : args ++ rest ≠ [] := by simp [hrest]
  obtain ⟨v, vs, heq⟩ := List.exists_cons_of_ne_nil hne
  rw [List.cons_append, heq, optionValues, if_neg hopt.1, if_pos hopt.2, ← heq,
    h _ hrest]

theorem Silent.pair {option opt value : GoString} {args : List GoString}
    (hopt : isOther option opt = true) (h : Silent option args) :
    Silent option (opt :: value :: args) := by
  intro rest hrest
  simp only [isOther, Bool.and_eq_true, Bool.not_eq_true', decide_eq_true_eq] at hopt
  rw [List.cons_append, List.cons_append, optionValues, if_neg hopt.1.1,
    if_neg (by rw [hopt.1.2]; decide), if_neg hopt.2, h _ hrest]

/-! ## The cpu rlimit on the command line -/

theorem jailArgs_silent (appDir : GoString) (uid : Int) :
    Silent (str "--rlimit_cpu") (jailArgs appDir uid) := by
  unfold jailArgs
  repeat first | exact .nil | refine .pair rfl ?_ | refine .bare rfl ?_

theorem rlimitArgs_silent (lim : ExecLimits) :
    Silent (str "--rlimit_cpu") (rlimitArgs lim) := by
  unfold rlimitArgs
  repeat first | exact .nil | refine .pair rfl ?_

theorem cgroupArgs_silent (lim : ExecLimits) (jailCg : Option Cgroupv2.Jail) :
    Silent (str "--rlimit_cpu") (cgroupArgs lim jailCg) := by
  cases jailCg with
  | none => exact .nil
  | some j =>
      refine .bare rfl ?_
      repeat first | exact .nil | refine .pair rfl ?_

theorem maxCpusArgs_silent (maxCPUs : GoString) :
    Silent (str "--rlimit_cpu") (maxCpusArgs maxCPUs) := by
  unfold maxCpusArgs
  split
  · exact .pair rfl .nil
  · exact .nil

theorem cacheArgs_silent (host : Host) (dir : GoString) (target : String) :
    Silent (str "--rlimit_cpu") (cacheArgs host dir target) := by
  unfold cacheArgs
  split
  · exact .pair rfl .nil
  · exact .nil

theorem buildCacheArgs_silent (host : Host) (uid : Int) :
    Silent (str "--rlimit_cpu") (buildCacheArgs host uid) := by
  unfold buildCacheArgs
  refine .append (.append (cacheArgs_silent _ _ _) (.pair rfl .nil)) ?_
  split
  · exact .append (cacheArgs_silent _ _ _) (.pair rfl .nil)
  · exact .nil

theorem jailEnv_silent (getenv : Env) :
    Silent (str "--rlimit_cpu") (jailEnv getenv) := by
  unfold jailEnv
  repeat first | exact .nil | refine .pair rfl ?_

theorem seccompArgs_silent {host : Host} {langSeccomp : GoString}
    {args : List GoString} (h : seccompArgs host langSeccomp = .ok args) :
    Silent (str "--rlimit_cpu") args := by
  rw [seccompArgs_eq] at h
  split at h
  · cases hc : host.combinedWith (parseSyscallNames langSeccomp) with
    | error err => rw [hc] at h; cases h
    | ok combined => rw [hc] at h; cases h; exact .pair rfl .nil
  · cases hp : host.policyPath with
    | error err => rw [hp] at h; cases h
    | ok path => rw [hp] at h; cases h; exact .pair rfl .nil

theorem maskArgs_silent (path : GoString) (target : String) :
    Silent (str "--rlimit_cpu") (maskArgs path target) := .pair rfl .nil

theorem bindArgs_silent : Silent (str "--rlimit_cpu") bindArgs := by
  unfold bindArgs
  repeat first | exact .nil | refine .pair rfl ?_

theorem etcArgs_silent : Silent (str "--rlimit_cpu") [str "-B", str "/etc"] :=
  .pair rfl .nil

def rlimitCpu (cpuLimit : Int) (jailCg : Option Cgroupv2.Jail) : GoString :=
  if cpuLimit > 0 ∧ (jailCg.all fun j => !j.CPUActive) = true then itoa cpuLimit
  else str "inf"

theorem rlimitCpuArgs_values (cpuLimit : Int) (jailCg : Option Cgroupv2.Jail)
    (rest : List GoString) :
    optionValues (str "--rlimit_cpu") (rlimitCpuArgs cpuLimit jailCg ++ rest) =
      rlimitCpu cpuLimit jailCg :: optionValues (str "--rlimit_cpu") rest := by
  unfold rlimitCpuArgs rlimitCpu
  split <;> rfl

theorem optionValues_dashes (option : GoString) (cmdArgs : List GoString) :
    optionValues option (str "--" :: cmdArgs) = [] := by
  cases cmdArgs with
  | nil => rfl
  | cons value rest => rw [optionValues, if_pos rfl]

/-- What nsjail is told about the cpu, whatever the command that follows. -/
theorem nsjailArgs_rlimit_cpu {host : Host} {appDir : GoString}
    {lim : ExecLimits} {uid : Int} {jailCg : Option Cgroupv2.Jail}
    {langSeccomp : GoString} {args : List GoString}
    (h : nsjailArgs host appDir lim uid jailCg langSeccomp = .ok args)
    (cmdArgs : List GoString) :
    optionValues (str "--rlimit_cpu") (args ++ cmdArgs) =
      [rlimitCpu lim.cpuLimit jailCg] := by
  rw [nsjailArgs_eq] at h
  obtain ⟨seccomp, hseccomp, h⟩ := bind_eq_ok h
  obtain ⟨hostsPath, -, h⟩ := bind_eq_ok h
  obtain ⟨resolvPath, -, h⟩ := bind_eq_ok h
  obtain ⟨nsswitchPath, -, h⟩ := bind_eq_ok h
  cases h
  simp only [List.append_assoc]
  rw [jailArgs_silent _ _ _ (by simp), rlimitArgs_silent _ _ (by simp),
    rlimitCpuArgs_values, cgroupArgs_silent _ _ _ (by simp),
    maxCpusArgs_silent _ _ (by simp), etcArgs_silent _ (by simp),
    maskArgs_silent _ _ _ (by simp), maskArgs_silent _ _ _ (by simp),
    maskArgs_silent _ _ _ (by simp), jailEnv_silent _ _ (by simp),
    buildCacheArgs_silent _ _ _ (by simp), bindArgs_silent _ (by simp),
    seccompArgs_silent hseccomp _ (by simp)]
  rw [List.singleton_append, optionValues_dashes]

end Goboxd.Runner
