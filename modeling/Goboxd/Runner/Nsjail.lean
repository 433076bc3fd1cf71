import Goboxd.Lib.CommandLine
import Goboxd.Lib.MountTable
import Goboxd.Runner.Args

/-!
# nsjail

nsjail is a program of its own, and the repository does not contain it. So it is anything that
keeps to what the arguments rely on. It reads the words that `nsjailArgs` uses as options, some
of them with the word behind them, and runs what stands behind `--`. And it mounts, over the
root that `--chroot` names, what the mount options ask for, in command order as long as
`--disable_proc` keeps it from mounting proc last; `-B` and its long form bind for writing, `-R`
for reading, and the parts of a value stand between colons.

What a list of options gives is a matter of the list alone: which values stand behind which
option. An nsjail that keeps to all this is at the end.
-/

namespace Goboxd.Runner

open Go CommandLine MountTable

inductive NsjailOpt where
  | quiet
  | log
  | user
  | group
  | once
  | mount
  | noLoopback
  | disableProc
  | bindmount
  | bindmountRo
  | cwd
  | chroot
  | timeLimit
  | rlimitAs
  | rlimitCpu
  | rlimitNproc
  | rlimitFsize
  | rlimitNofile
  | useCgroupv2
  | cgroupv2Mount
  | cgroupMemMax
  | cgroupMemSwapMax
  | cgroupPidsMax
  | maxCpus
  | env
  | seccompPolicy
  | seccompString
deriving DecidableEq, Repr

def nsjailWords : List (GoString × NsjailOpt) :=
  [(str "-Q", .quiet), (str "--log", .log), (str "-u", .user), (str "-g", .group),
    (str "-Mo", .once), (str "-m", .mount), (str "--iface_no_lo", .noLoopback),
    (str "--disable_proc", .disableProc), (str "--bindmount", .bindmount),
    (str "-B", .bindmount), (str "-R", .bindmountRo), (str "--cwd", .cwd),
    (str "--chroot", .chroot), (str "--time_limit", .timeLimit),
    (str "--rlimit_as", .rlimitAs), (str "--rlimit_cpu", .rlimitCpu),
    (str "--rlimit_nproc", .rlimitNproc), (str "--rlimit_fsize", .rlimitFsize),
    (str "--rlimit_nofile", .rlimitNofile), (str "--use_cgroupv2", .useCgroupv2),
    (str "--cgroupv2_mount", .cgroupv2Mount), (str "--cgroup_mem_max", .cgroupMemMax),
    (str "--cgroup_mem_swap_max", .cgroupMemSwapMax),
    (str "--cgroup_pids_max", .cgroupPidsMax), (str "--max_cpus", .maxCpus),
    (str "-E", .env), (str "--seccomp_policy", .seccompPolicy),
    (str "--seccomp_string", .seccompString)]

def NsjailOpt.takesValue : NsjailOpt → Bool
  | .quiet | .once | .noLoopback | .disableProc | .useCgroupv2 => false
  | _ => true

/-- The words that `nsjailArgs` uses. -/
def nsjailSyntax : CommandLine.Syntax GoString NsjailOpt where
  stop := str "--"
  find := fun word => nsjailWords.lookup word
  takesValue := NsjailOpt.takesValue

/-! ## What a list of options gives -/

def NsjailOpt.mounts : NsjailOpt → Bool
  | .mount | .bindmount | .bindmountRo => true
  | _ => false

def NsjailOpt.polices : NsjailOpt → Bool
  | .seccompPolicy | .seccompString => true
  | _ => false

/-- What is given, option by option. -/
structure Settings where
  users : List GoString
  groups : List GoString
  mounts : List (NsjailOpt × GoString)
  env : List GoString
  policies : List (NsjailOpt × GoString)
  cwd : List GoString
  chroot : List GoString
  log : List GoString
  timeLimit : List GoString
  addressSpace : List GoString
  cpu : List GoString
  processes : List GoString
  fileSize : List GoString
  files : List GoString
  maxCpus : List GoString
  cgroupMount : List GoString
  memMax : List GoString
  memSwapMax : List GoString
  pidsMax : List GoString
  useCgroupv2 : Bool
  quiet : Bool
  once : Bool
  noLoopback : Bool
  disableProc : Bool
deriving DecidableEq, Repr

def settingsOf (os : List (Given NsjailOpt GoString)) : Settings where
  users := valuesOf .user os
  groups := valuesOf .group os
  mounts := pairsOf NsjailOpt.mounts os
  env := valuesOf .env os
  policies := pairsOf NsjailOpt.polices os
  cwd := valuesOf .cwd os
  chroot := valuesOf .chroot os
  log := valuesOf .log os
  timeLimit := valuesOf .timeLimit os
  addressSpace := valuesOf .rlimitAs os
  cpu := valuesOf .rlimitCpu os
  processes := valuesOf .rlimitNproc os
  fileSize := valuesOf .rlimitFsize os
  files := valuesOf .rlimitNofile os
  maxCpus := valuesOf .maxCpus os
  cgroupMount := valuesOf .cgroupv2Mount os
  memMax := valuesOf .cgroupMemMax os
  memSwapMax := valuesOf .cgroupMemSwapMax os
  pidsMax := valuesOf .cgroupPidsMax os
  useCgroupv2 := flagged .useCgroupv2 os
  quiet := flagged .quiet os
  once := flagged .once os
  noLoopback := flagged .noLoopback os
  disableProc := flagged .disableProc os

/-- One list of options after the other. -/
def Settings.and (s t : Settings) : Settings where
  users := s.users ++ t.users
  groups := s.groups ++ t.groups
  mounts := s.mounts ++ t.mounts
  env := s.env ++ t.env
  policies := s.policies ++ t.policies
  cwd := s.cwd ++ t.cwd
  chroot := s.chroot ++ t.chroot
  log := s.log ++ t.log
  timeLimit := s.timeLimit ++ t.timeLimit
  addressSpace := s.addressSpace ++ t.addressSpace
  cpu := s.cpu ++ t.cpu
  processes := s.processes ++ t.processes
  fileSize := s.fileSize ++ t.fileSize
  files := s.files ++ t.files
  maxCpus := s.maxCpus ++ t.maxCpus
  cgroupMount := s.cgroupMount ++ t.cgroupMount
  memMax := s.memMax ++ t.memMax
  memSwapMax := s.memSwapMax ++ t.memSwapMax
  pidsMax := s.pidsMax ++ t.pidsMax
  useCgroupv2 := s.useCgroupv2 || t.useCgroupv2
  quiet := s.quiet || t.quiet
  once := s.once || t.once
  noLoopback := s.noLoopback || t.noLoopback
  disableProc := s.disableProc || t.disableProc

theorem settingsOf_append (os ps : List (Given NsjailOpt GoString)) :
    settingsOf (os ++ ps) = (settingsOf os).and (settingsOf ps) := by
  simp only [settingsOf, Settings.and, valuesOf_append, pairsOf_append, flagged_append]

/-! ## The mounts -/

/-- What a mount makes visible: a path of the host, or a filesystem of its own. -/
inductive Origin where
  | host (path : List GoString) (writable : Bool)
  | fs (type : GoString)
deriving DecidableEq, Repr

/-- The names of a path. -/
def pathNames (path : GoString) : List GoString := (split 47 path).filter fun n => n ≠ []

/-- An nsjail: how it reads its command line, the mount that an option and its value ask for,
and the mounts of a jail, the first below the others. -/
structure Nsjail where
  reads : List GoString → Option (List (Given NsjailOpt GoString) × List GoString)
  mount : NsjailOpt × GoString → Mount GoString Origin
  mounts : List (Given NsjailOpt GoString) → List (Mount GoString Origin)

/-- What `nsjailArgs` relies on. No colon is in a part of a value. -/
structure Nsjail.Documented (n : Nsjail) : Prop where
  reader : nsjailSyntax.Reader n.reads
  /-- The mounts are made in command order over the root, when no proc is mounted last. -/
  order : ∀ os, flagged .disableProc os = true →
    n.mounts os = ((pairsOf (fun o => o = .chroot) os) ++ pairsOf NsjailOpt.mounts os).map n.mount
  chroot : n.mount (.chroot, str "/") = ⟨[], .host [] false⟩
  /-- `path` is bound where it is. -/
  bind : ∀ path, 58 ∉ path →
    n.mount (.bindmount, path) = ⟨pathNames path, .host (pathNames path) true⟩
  /-- `src:dst:rw` -/
  bindTo : ∀ src dst, 58 ∉ src → 58 ∉ dst → dst ≠ [] →
    n.mount (.bindmount, src ++ 58 :: (dst ++ str ":rw")) =
      ⟨pathNames dst, .host (pathNames src) true⟩
  /-- `src:dst` -/
  bindRo : ∀ src dst, 58 ∉ src → 58 ∉ dst → dst ≠ [] →
    n.mount (.bindmountRo, src ++ 58 :: dst) = ⟨pathNames dst, .host (pathNames src) false⟩
  /-- `none:dst:type:options` -/
  fs : ∀ dst type options, 58 ∉ dst → 58 ∉ type →
    n.mount (.mount, str "none:" ++ (dst ++ 58 :: (type ++ 58 :: options))) =
      ⟨pathNames dst, .fs type⟩

/-! ## One that keeps to it -/

def valuePart (value : GoString) (i : Nat) : GoString := ((split 58 value)[i]?).getD []

theorem valuePart_zero {src : GoString} (rest : GoString) (h : 58 ∉ src) :
    valuePart (src ++ 58 :: rest) 0 = src := by
  rw [valuePart, split_line rest h]
  rfl

theorem valuePart_succ {src : GoString} (rest : GoString) (i : ℕ) (h : 58 ∉ src) :
    valuePart (src ++ 58 :: rest) (i + 1) = valuePart rest i := by
  rw [valuePart, split_line rest h]
  rfl

theorem valuePart_self {src : GoString} (h : 58 ∉ src) :
    valuePart src 0 = src ∧ valuePart src 1 = [] := by
  rw [valuePart, valuePart, split_self h]
  exact ⟨rfl, rfl⟩

/-- `src:dst`, or one path for both. -/
def bindOf (value : GoString) (writable : Bool) : Mount GoString Origin :=
  let src := valuePart value 0
  let dst := valuePart value 1
  ⟨pathNames (if dst = [] then src else dst), .host (pathNames src) writable⟩

def plainMount : NsjailOpt × GoString → Mount GoString Origin
  | (.mount, value) => ⟨pathNames (valuePart value 1), .fs (valuePart value 2)⟩
  | (.bindmount, value) => bindOf value true
  | (_, value) => bindOf value false

/-- An nsjail that knows no other words than these. -/
def plainNsjail : Nsjail where
  reads := nsjailSyntax.read
  mount := plainMount
  mounts := fun os =>
    ((pairsOf (fun o => o = .chroot) os) ++ pairsOf NsjailOpt.mounts os).map plainMount

theorem plainNsjail_documented : plainNsjail.Documented where
  reader := nsjailSyntax.reader_read
  order := fun _ _ => rfl
  chroot := by decide
  bind := fun path h => by
    show bindOf path true = _
    simp only [bindOf, valuePart_self h, if_true]
  bindTo := fun src dst hsrc hdst hne => by
    have hpart : valuePart (dst ++ str ":rw") 0 = dst := valuePart_zero (str "rw") hdst
    show bindOf (src ++ 58 :: (dst ++ str ":rw")) true = _
    simp only [bindOf, valuePart_zero _ hsrc, valuePart_succ _ 0 hsrc, hpart, if_neg hne]
  bindRo := fun src dst hsrc hdst hne => by
    show bindOf (src ++ 58 :: dst) false = _
    simp only [bindOf, valuePart_zero _ hsrc, valuePart_succ _ 0 hsrc, valuePart_self hdst,
      if_neg hne]
  fs := fun dst type options hdst htype => by
    have hnone : ∀ rest i, valuePart (str "none:" ++ rest) (i + 1) = valuePart rest i :=
      fun rest i => @valuePart_succ (str "none") rest i (by decide)
    show (⟨pathNames (valuePart _ 1), .fs (valuePart _ 2)⟩ : Mount GoString Origin) = _
    rw [hnone, hnone, valuePart_zero _ hdst, valuePart_succ _ 0 hdst, valuePart_zero _ htype]

end Goboxd.Runner
