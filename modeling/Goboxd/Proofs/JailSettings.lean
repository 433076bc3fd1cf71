import Goboxd.Runner.Exec
import Goboxd.Runner.Nsjail

/-!
# What a jail is run with

The command line that `nsjailArgs` builds, read by any nsjail that takes its words for what they
are documented to be, whatever command follows. The command comes out as it went in: none of
its words is taken for an option, and no value that the server's environment, a path or a
policy text contributes is either, since each of them stands behind an option that takes a
value. And the options give the settings the exec asked for, each as often as it is meant; the
environment of the jail is a fixed list but for the `PATH`.

Each section of the arguments spells its options. What a section gives is computed by itself,
and what they give together is put together in their order.
-/

namespace Goboxd.Runner

open Go CommandLine

/-! ## The options of each section -/

def jailOpts (appDir : GoString) (uid : Int) : List (Given NsjailOpt GoString) :=
  [.flag .quiet, .pair .log (str "/dev/null"), .pair .user (idMap uid),
    .pair .user (str "0:0:1"), .pair .group (idMap uid), .pair .group (str "0:0:1"),
    .flag .once, .pair .mount (str "none:/tmp:tmpfs:size=268435456"), .flag .noLoopback,
    .flag .disableProc, .pair .mount (str "none:/proc:proc:ro"),
    .pair .mount (str "none:/proc/sys:tmpfs:size=4096"),
    .pair .bindmount (appDir ++ str ":/app:rw"), .pair .cwd (str "/app"),
    .pair .chroot (str "/")]

def rlimitOpts (lim : ExecLimits) : List (Given NsjailOpt GoString) :=
  [.pair .timeLimit (itoa lim.wallTime), .pair .rlimitAs (itoa (memMB lim.memKB)),
    .pair .rlimitNproc (itoa lim.procs), .pair .rlimitFsize (str "100"),
    .pair .rlimitNofile (str "65536")]

def rlimitCpuOpts (cpuLimit : Int) (jailCg : Option Cgroupv2.Jail) :
    List (Given NsjailOpt GoString) := [.pair .rlimitCpu (rlimitCpu cpuLimit jailCg)]

def cgroupOpts (lim : ExecLimits) : Option Cgroupv2.Jail → List (Given NsjailOpt GoString)
  | none => []
  | some j =>
      [.flag .useCgroupv2, .pair .cgroupv2Mount j.path,
        .pair .cgroupMemMax (itoa (wrap (lim.memKB * 1024))),
        .pair .cgroupMemSwapMax (str "0"), .pair .cgroupPidsMax (itoa lim.procs)]

def maxCpusOpts (maxCPUs : GoString) : List (Given NsjailOpt GoString) :=
  if maxCPUs ≠ [] then [.pair .maxCpus maxCPUs] else []

def etcOpts : List (Given NsjailOpt GoString) := [.pair .bindmount (str "/etc")]

def maskOpts (path : GoString) (target : String) : List (Given NsjailOpt GoString) :=
  [.pair .bindmountRo (path ++ str ":" ++ str target)]

/-- The environment of the jailed process. -/
def jailVars (getenv : Config.Env) : List GoString :=
  let path := getenv "PATH"
  let path := if path = [] then str "/usr/local/bin:/usr/bin:/bin" else path
  [str "PATH=" ++ path, str "HOME=/tmp", str "LANG=C.UTF-8", str "LC_ALL=C.UTF-8",
    str "DOTNET_SYSTEM_GLOBALIZATION_INVARIANT=1"]

def envOpts (vars : List GoString) : List (Given NsjailOpt GoString) :=
  vars.map fun v => .pair .env v

def cacheOpts (host : Host) (dir : GoString) (target : String) :
    List (Given NsjailOpt GoString) :=
  if host.isDir dir then [.pair .bindmount (dir ++ str ":" ++ str target ++ str ":rw")]
  else []

def buildCacheOpts (host : Host) (uid : Int) : List (Given NsjailOpt GoString) :=
  let uidCacheDir := str "/var/cache/goboxd/uid-" ++ itoa uid
  cacheOpts host (uidCacheDir ++ str "/go-build") "/app/.gocache" ++
    (.pair .env (str "GOCACHE=/app/.gocache") ::
    if host.ccache then
      cacheOpts host (uidCacheDir ++ str "/ccache") "/app/.ccache" ++
        [.pair .env (str "CCACHE_DIR=/app/.ccache")]
    else [])

def bindOpts : List (Given NsjailOpt GoString) :=
  [.pair .bindmount (str "/usr"), .pair .bindmount (str "/lib"),
    .pair .bindmount (str "/lib64"), .pair .bindmount (str "/bin"),
    .pair .bindmount (str "/dev"), .pair .bindmount (str "/var/lib")]

/-- The policy of the seccomp filter: a file, or its text. -/
inductive Policy where
  | file (path : GoString)
  | text (policy : GoString)
deriving DecidableEq, Repr

/-- The option that gives it. -/
def Policy.given : Policy → NsjailOpt × GoString
  | .file path => (.seccompPolicy, path)
  | .text policy => (.seccompString, policy)

/-- The seccomp policy of a jail: the global file, or the combined text. -/
def jailPolicy (host : Host) (langSeccomp : GoString) : Except GoString Policy :=
  if parseSyscallNames langSeccomp = [] then host.policyPath.map .file
  else (host.combinedWith (parseSyscallNames langSeccomp)).map .text

def policyOpt (policy : Policy) : Given NsjailOpt GoString :=
  .pair policy.given.1 policy.given.2

theorem jailArgs_spells (appDir : GoString) (uid : Int) :
    nsjailSyntax.Spells (jailArgs appDir uid) (jailOpts appDir uid) := by
  unfold jailArgs jailOpts
  repeat first
    | exact .nil
    | refine .pair (by decide) rfl rfl ?_
    | refine .flag (by decide) rfl rfl ?_

theorem rlimitArgs_spells (lim : ExecLimits) :
    nsjailSyntax.Spells (rlimitArgs lim) (rlimitOpts lim) := by
  unfold rlimitArgs rlimitOpts
  repeat first | exact .nil | refine .pair (by decide) rfl rfl ?_

theorem rlimitCpuArgs_spells (cpuLimit : Int) (jailCg : Option Cgroupv2.Jail) :
    nsjailSyntax.Spells (rlimitCpuArgs cpuLimit jailCg) (rlimitCpuOpts cpuLimit jailCg) := by
  unfold rlimitCpuArgs rlimitCpuOpts rlimitCpu
  split <;> exact .pair (by decide) rfl rfl .nil

theorem cgroupArgs_spells (lim : ExecLimits) (jailCg : Option Cgroupv2.Jail) :
    nsjailSyntax.Spells (cgroupArgs lim jailCg) (cgroupOpts lim jailCg) := by
  cases jailCg with
  | none => exact .nil
  | some j =>
      refine .flag (by decide) rfl rfl ?_
      repeat first | exact .nil | refine .pair (by decide) rfl rfl ?_

theorem maxCpusArgs_spells (maxCPUs : GoString) :
    nsjailSyntax.Spells (maxCpusArgs maxCPUs) (maxCpusOpts maxCPUs) := by
  unfold maxCpusArgs maxCpusOpts
  split
  · exact .pair (by decide) rfl rfl .nil
  · exact .nil

theorem etcArgs_spells : nsjailSyntax.Spells [str "-B", str "/etc"] etcOpts :=
  .pair (by decide) rfl rfl .nil

theorem maskArgs_spells (path : GoString) (target : String) :
    nsjailSyntax.Spells (maskArgs path target) (maskOpts path target) :=
  .pair (by decide) rfl rfl .nil

theorem jailEnv_spells (getenv : Config.Env) :
    nsjailSyntax.Spells (jailEnv getenv) (envOpts (jailVars getenv)) := by
  unfold jailEnv envOpts jailVars
  repeat first | exact .nil | refine .pair (by decide) rfl rfl ?_

theorem cacheArgs_spells (host : Host) (dir : GoString) (target : String) :
    nsjailSyntax.Spells (cacheArgs host dir target) (cacheOpts host dir target) := by
  unfold cacheArgs cacheOpts
  split
  · exact .pair (by decide) rfl rfl .nil
  · exact .nil

theorem buildCacheArgs_spells (host : Host) (uid : Int) :
    nsjailSyntax.Spells (buildCacheArgs host uid) (buildCacheOpts host uid) := by
  unfold buildCacheArgs buildCacheOpts
  rw [List.append_assoc]
  refine (cacheArgs_spells ..).append (.pair (by decide) rfl rfl ?_)
  split
  · exact (cacheArgs_spells ..).append (.pair (by decide) rfl rfl .nil)
  · exact .nil

theorem bindArgs_spells : nsjailSyntax.Spells bindArgs bindOpts := by
  unfold bindArgs bindOpts
  repeat first | exact .nil | refine .pair (by decide) rfl rfl ?_

theorem seccompArgs_spells {host : Host} {langSeccomp : GoString} {args : List GoString}
    (h : seccompArgs host langSeccomp = .ok args) :
    ∃ policy, jailPolicy host langSeccomp = .ok policy ∧
      nsjailSyntax.Spells args [policyOpt policy] := by
  rw [seccompArgs_eq] at h
  unfold jailPolicy
  split at h
  · next hne =>
      rw [if_neg hne]
      cases hc : host.combinedWith (parseSyscallNames langSeccomp) with
      | error err => rw [hc] at h; cases h
      | ok combined =>
          rw [hc] at h
          cases h
          exact ⟨.text combined, rfl, .pair (by decide) rfl rfl .nil⟩
  · next hnil =>
      rw [if_pos (not_not.mp hnil)]
      cases hp : host.policyPath with
      | error err => rw [hp] at h; cases h
      | ok path =>
          rw [hp] at h
          cases h
          exact ⟨.file path, rfl, .pair (by decide) rfl rfl .nil⟩

/-! ## What the options give -/

/-- The files that go over three of the host's. -/
structure Masks where
  hosts : GoString
  resolv : GoString
  nsswitch : GoString

/-- What `nsjailArgs` looked up to build its arguments. -/
structure LookedUp (host : Host) (langSeccomp : GoString) (masks : Masks)
    (policy : Policy) : Prop where
  hosts : host.maskedHostsPath = .ok masks.hosts
  resolv : host.maskedResolvPath = .ok masks.resolv
  nsswitch : host.maskedNsswitchPath = .ok masks.nsswitch
  policy : jailPolicy host langSeccomp = .ok policy

def cacheMount (host : Host) (dir : GoString) (target : String) :
    List (NsjailOpt × GoString) :=
  if host.isDir dir then [(.bindmount, dir ++ str ":" ++ str target ++ str ":rw")] else []

def uidCache (uid : Int) (dir : String) : GoString :=
  str "/var/cache/goboxd/uid-" ++ itoa uid ++ str dir

/-- The mounts of a jail, in their order. -/
def jailMounts (host : Host) (appDir : GoString) (uid : Int) (masks : Masks) :
    List (NsjailOpt × GoString) :=
  [(.mount, str "none:/tmp:tmpfs:size=268435456"), (.mount, str "none:/proc:proc:ro"),
    (.mount, str "none:/proc/sys:tmpfs:size=4096"), (.bindmount, appDir ++ str ":/app:rw"),
    (.bindmount, str "/etc"), (.bindmountRo, masks.hosts ++ str ":" ++ str "/etc/hosts"),
    (.bindmountRo, masks.resolv ++ str ":" ++ str "/etc/resolv.conf"),
    (.bindmountRo, masks.nsswitch ++ str ":" ++ str "/etc/nsswitch.conf")] ++
  (cacheMount host (uidCache uid "/go-build") "/app/.gocache" ++
  ((if host.ccache then cacheMount host (uidCache uid "/ccache") "/app/.ccache" else []) ++
  [(.bindmount, str "/usr"), (.bindmount, str "/lib"), (.bindmount, str "/lib64"),
    (.bindmount, str "/bin"), (.bindmount, str "/dev"), (.bindmount, str "/var/lib")]))

/-- The settings of a jail, with so many bytes of memory. The cpu rlimit is a number only
without a cgroup that counts. -/
def jailSettings (host : Host) (appDir : GoString) (lim : ExecLimits) (bytes uid : Int)
    (jailCg : Option Cgroupv2.Jail) (masks : Masks) (policy : Policy) : Settings where
  users := [idMap uid, str "0:0:1"]
  groups := [idMap uid, str "0:0:1"]
  mounts := jailMounts host appDir uid masks
  env :=
    jailVars host.getenv ++ (str "GOCACHE=/app/.gocache" ::
      if host.ccache then [str "CCACHE_DIR=/app/.ccache"] else [])
  policies := [policy.given]
  cwd := [str "/app"]
  chroot := [str "/"]
  log := [str "/dev/null"]
  timeLimit := [itoa lim.wallTime]
  addressSpace := [itoa (memMB lim.memKB)]
  cpu := [rlimitCpu lim.cpuLimit jailCg]
  processes := [itoa lim.procs]
  fileSize := [str "100"]
  files := [str "65536"]
  maxCpus :=
    if host.getenv "GOBOXD_MAX_CPUS" ≠ [] then [host.getenv "GOBOXD_MAX_CPUS"] else []
  cgroupMount := jailCg.toList.map Cgroupv2.Jail.path
  memMax := jailCg.toList.map fun _ => itoa bytes
  memSwapMax := jailCg.toList.map fun _ => str "0"
  pidsMax := jailCg.toList.map fun _ => itoa lim.procs
  useCgroupv2 := jailCg.isSome
  quiet := true
  once := true
  noLoopback := true
  disableProc := true

/-! ### Section by section -/

/-- Nothing is given. -/
def Settings.none : Settings := settingsOf []

theorem settings_jail (appDir : GoString) (uid : Int) :
    settingsOf (jailOpts appDir uid) =
      { Settings.none with
        users := [idMap uid, str "0:0:1"]
        groups := [idMap uid, str "0:0:1"]
        mounts :=
          [(.mount, str "none:/tmp:tmpfs:size=268435456"), (.mount, str "none:/proc:proc:ro"),
            (.mount, str "none:/proc/sys:tmpfs:size=4096"),
            (.bindmount, appDir ++ str ":/app:rw")]
        cwd := [str "/app"]
        chroot := [str "/"]
        log := [str "/dev/null"]
        quiet := true
        once := true
        noLoopback := true
        disableProc := true } := rfl

theorem settings_rlimit (lim : ExecLimits) :
    settingsOf (rlimitOpts lim) =
      { Settings.none with
        timeLimit := [itoa lim.wallTime]
        addressSpace := [itoa (memMB lim.memKB)]
        processes := [itoa lim.procs]
        fileSize := [str "100"]
        files := [str "65536"] } := rfl

theorem settings_rlimitCpu (cpuLimit : Int) (jailCg : Option Cgroupv2.Jail) :
    settingsOf (rlimitCpuOpts cpuLimit jailCg) =
      { Settings.none with cpu := [rlimitCpu cpuLimit jailCg] } := rfl

theorem settings_etc :
    settingsOf etcOpts = { Settings.none with mounts := [(.bindmount, str "/etc")] } := rfl

theorem settings_mask (path : GoString) (target : String) :
    settingsOf (maskOpts path target) =
      { Settings.none with mounts := [(.bindmountRo, path ++ str ":" ++ str target)] } := rfl

theorem settings_bind :
    settingsOf bindOpts =
      { Settings.none with
        mounts :=
          [(.bindmount, str "/usr"), (.bindmount, str "/lib"), (.bindmount, str "/lib64"),
            (.bindmount, str "/bin"), (.bindmount, str "/dev"),
            (.bindmount, str "/var/lib")] } := rfl

theorem settings_policy (policy : Policy) :
    settingsOf [policyOpt policy] = { Settings.none with policies := [policy.given] } := by
  cases policy <;> rfl

theorem settings_cgroup (lim : ExecLimits) (jailCg : Option Cgroupv2.Jail) :
    settingsOf (cgroupOpts lim jailCg) =
      { Settings.none with
        useCgroupv2 := jailCg.isSome
        cgroupMount := jailCg.toList.map Cgroupv2.Jail.path
        memMax := jailCg.toList.map fun _ => itoa (wrap (lim.memKB * 1024))
        memSwapMax := jailCg.toList.map fun _ => str "0"
        pidsMax := jailCg.toList.map fun _ => itoa lim.procs } := by
  cases jailCg <;> rfl

theorem settings_maxCpus (maxCPUs : GoString) :
    settingsOf (maxCpusOpts maxCPUs) =
      { Settings.none with maxCpus := if maxCPUs ≠ [] then [maxCPUs] else [] } := by
  unfold maxCpusOpts
  split <;> rfl

theorem settings_env (vars : List GoString) :
    settingsOf (envOpts vars) = { Settings.none with env := vars } := by
  induction vars with
  | nil => rfl
  | cons v vars ih =>
      have hcons : envOpts (v :: vars) = [.pair .env v] ++ envOpts vars := rfl
      rw [hcons, settingsOf_append, ih]
      rfl

theorem settings_cache (host : Host) (dir : GoString) (target : String) :
    settingsOf (cacheOpts host dir target) =
      { Settings.none with mounts := cacheMount host dir target } := by
  unfold cacheOpts cacheMount
  split <;> rfl

theorem settings_buildCache (host : Host) (uid : Int) :
    settingsOf (buildCacheOpts host uid) =
      { Settings.none with
        mounts :=
          cacheMount host (uidCache uid "/go-build") "/app/.gocache" ++
            if host.ccache then cacheMount host (uidCache uid "/ccache") "/app/.ccache"
            else []
        env :=
          str "GOCACHE=/app/.gocache" ::
            if host.ccache then [str "CCACHE_DIR=/app/.ccache"] else [] } := by
  unfold buildCacheOpts
  rw [settingsOf_append, settings_cache]
  split
  · rw [← List.cons_append, settingsOf_append, ← List.singleton_append, settingsOf_append,
      settings_cache]
    simp [Settings.and, Settings.none, settingsOf, valuesOf, pairsOf, flagged,
      NsjailOpt.mounts, NsjailOpt.polices, uidCache]
  · simp [Settings.and, Settings.none, settingsOf, valuesOf, pairsOf, flagged,
      NsjailOpt.mounts, NsjailOpt.polices, uidCache]

theorem masked_eq_ok {path : Except GoString GoString} {target : String} {p : GoString}
    (h : masked path target = .ok p) : path = .ok p := by
  cases path with
  | error err => cases h
  | ok q => exact h

/-- The arguments spell options that give the settings of the exec, the memory in bytes as the
`int` that the program computes. -/
theorem nsjailArgs_spells {host : Host} {appDir : GoString} {lim : ExecLimits} {uid : Int}
    {jailCg : Option Cgroupv2.Jail} {langSeccomp : GoString} {args : List GoString}
    (h : nsjailArgs host appDir lim uid jailCg langSeccomp = .ok args) :
    ∃ masks policy words os, LookedUp host langSeccomp masks policy ∧
      args = words ++ [str "--"] ∧ nsjailSyntax.Spells words os ∧
      settingsOf os =
        jailSettings host appDir lim (wrap (lim.memKB * 1024)) uid jailCg masks policy := by
  rw [nsjailArgs_eq] at h
  obtain ⟨seccomp, hseccomp, h⟩ := bind_eq_ok h
  obtain ⟨hostsPath, hhosts, h⟩ := bind_eq_ok h
  obtain ⟨resolvPath, hresolv, h⟩ := bind_eq_ok h
  obtain ⟨nsswitchPath, hnsswitch, h⟩ := bind_eq_ok h
  cases h
  obtain ⟨policy, hpolicy, hspells⟩ := seccompArgs_spells hseccomp
  have hall := (jailArgs_spells appDir uid).append ((rlimitArgs_spells lim).append
    ((rlimitCpuArgs_spells lim.cpuLimit jailCg).append ((cgroupArgs_spells lim jailCg).append
    ((maxCpusArgs_spells (host.getenv "GOBOXD_MAX_CPUS")).append
    (etcArgs_spells.append ((maskArgs_spells hostsPath "/etc/hosts").append
    ((maskArgs_spells resolvPath "/etc/resolv.conf").append
    ((maskArgs_spells nsswitchPath "/etc/nsswitch.conf").append
    ((jailEnv_spells host.getenv).append ((buildCacheArgs_spells host uid).append
    (bindArgs_spells.append hspells)))))))))))
  refine ⟨⟨hostsPath, resolvPath, nsswitchPath⟩, policy, _, _,
    ⟨masked_eq_ok hhosts, masked_eq_ok hresolv, masked_eq_ok hnsswitch, hpolicy⟩, ?_, hall,
    ?_⟩
  · simp only [List.append_assoc]
  · simp only [settingsOf_append]
    rw [settings_jail, settings_rlimit, settings_rlimitCpu, settings_cgroup, settings_maxCpus,
      settings_etc, settings_mask, settings_mask, settings_mask, settings_env,
      settings_buildCache, settings_bind, settings_policy]
    simp [Settings.and, Settings.none, settingsOf, jailSettings, jailMounts, valuesOf, pairsOf,
      flagged]

theorem reads_spelled {n : Nsjail} (hn : nsjailSyntax.Reader n.reads) {words : List GoString}
    {os : List (Given NsjailOpt GoString)} (h : nsjailSyntax.Spells words os)
    (cmdArgs : List GoString) :
    n.reads (words ++ [str "--"] ++ cmdArgs) = some (os, cmdArgs) := by
  rw [List.append_assoc]
  exact h.reads hn cmdArgs

/-- Whatever command follows, an nsjail reads options off the command line that give the
settings of the exec, and is left with that command. -/
theorem nsjail_told {n : Nsjail} (hn : nsjailSyntax.Reader n.reads) {host : Host}
    {appDir : GoString} {lim : ExecLimits} {uid : Int} {jailCg : Option Cgroupv2.Jail}
    {langSeccomp : GoString} {args : List GoString}
    (h : nsjailArgs host appDir lim uid jailCg langSeccomp = .ok args)
    (hmem : Go.InRange (lim.memKB * 1024)) (cmdArgs : List GoString) :
    ∃ masks policy os, LookedUp host langSeccomp masks policy ∧
      n.reads (args ++ cmdArgs) = some (os, cmdArgs) ∧
      settingsOf os =
        jailSettings host appDir lim (lim.memKB * 1024) uid jailCg masks policy := by
  obtain ⟨masks, policy, words, os, hlooked, rfl, hspells, hset⟩ := nsjailArgs_spells h
  rw [wrap_of_inRange hmem] at hset
  exact ⟨masks, policy, os, hlooked, reads_spelled hn hspells cmdArgs, hset⟩

/-- A host on which `GOBOXD_MAX_CPUS` was set to an option. -/
def oddHost : Host where
  getenv := fun key => if key = "GOBOXD_MAX_CPUS" then str "--chroot" else []
  policyPath := .ok (str "/tmp/goboxd-seccomp-1.policy")
  combinedWith := fun _ => .ok []
  maskedHostsPath := .ok (str "/tmp/goboxd-hosts-1.masked")
  maskedResolvPath := .ok (str "/tmp/goboxd-resolv-1.masked")
  maskedNsswitchPath := .ok (str "/tmp/goboxd-nsswitch-1.masked")
  isDir := fun _ => false
  ccache := true

/-- Ten seconds, 256 megabytes and sixteen processes. -/
def oddLimits : ExecLimits := ⟨10, 10, 262144, 16⟩

theorem oddLimits_inRange : Go.InRange (oddLimits.memKB * 1024) := ⟨by decide, by decide⟩

def oddLeaf : Cgroupv2.Jail := ⟨str "/sys/fs/cgroup/goboxd/jail-1", true⟩

theorem nsjail_told_odd :
    ∃ args masks policy os,
      nsjailArgs oddHost (str "/tmp/jail-1/app") oddLimits 10001 (some oddLeaf) [] = .ok args ∧
      LookedUp oddHost [] masks policy ∧
      plainNsjail.reads (args ++ [str "--chroot", str "/srv", str "--"]) =
        some (os, [str "--chroot", str "/srv", str "--"]) ∧
      settingsOf os =
        jailSettings oddHost (str "/tmp/jail-1/app") oddLimits 268435456 10001 (some oddLeaf)
          masks policy := by
  have h : nsjailArgs oddHost (str "/tmp/jail-1/app") oddLimits 10001 (some oddLeaf) [] =
      .ok _ := rfl
  obtain ⟨masks, policy, os, hlooked, hreads, hset⟩ :=
    nsjail_told plainNsjail_documented.reader h oddLimits_inRange
      [str "--chroot", str "/srv", str "--"]
  exact ⟨_, masks, policy, os, h, hlooked, hreads, hset⟩

end Goboxd.Runner
