import Goboxd.Lib.GoSearch

/-!
# Seccomp policies

The embedded policy, how it is taken apart, and how a language's own denies are
put into it. A policy is text in the language of kafel; `parseGlobalPolicyBytes`
knows as much of that language as the embedded policy uses, and finds its pieces
by searching for the words around them.
-/

namespace Goboxd.Seccomp

open Go

/-- `seccomp.policy`, line by line. -/
def policy : GoString :=
  [
    "// goboxd seccomp policy\n",
    "// Blocks syscalls that could be used for sandbox escape or kernel tampering.\n",
    "// All other syscalls are allowed (DEFAULT ALLOW) so normal code execution works.\n",
    "//\n",
    "// NOTE: kafel (nsjail's bundled seccomp policy language) is frozen upstream\n",
    "// and its amd64 syscall table is missing umount2. SYSCALL[166] is umount2\n",
    "// (and umount) on x86_64, which is the only architecture goboxd targets.\n",
    "POLICY goboxd \x7b\n",
    "\tDENY \x7b\n",
    "\t\t// Filesystem escape\n",
    "\t\tmount,\n",
    "\t\tumount,\n",
    "\t\tSYSCALL[166],\n",
    "\t\tpivot_root,\n",
    "\t\tchroot,\n",
    "\t\t// Process debugging / injection\n",
    "\t\tptrace,\n",
    "\t\t// Kernel module tampering\n",
    "\t\tcreate_module,\n",
    "\t\tinit_module,\n",
    "\t\tfinit_module,\n",
    "\t\tdelete_module,\n",
    "\t\t// Kernel execution tampering\n",
    "\t\tkexec_load,\n",
    "\t\tkexec_file_load,\n",
    "\t\treboot,\n",
    "\t\tacct,\n",
    "\t\t// System identity tampering\n",
    "\t\tsethostname,\n",
    "\t\tsetdomainname,\n",
    "\t\t// I/O port manipulation\n",
    "\t\tioperm,\n",
    "\t\tiopl,\n",
    "\t\t// Swapping\n",
    "\t\tswapon,\n",
    "\t\tswapoff,\n",
    "\t\t// BPF programming\n",
    "\t\tbpf\n",
    "\t\x7d\n",
    "\x7d\n",
    "\n",
    "USE goboxd DEFAULT ALLOW\n"].flatMap bytes

/-- The names of kafel's amd64 table. -/
def validSyscalls : List GoString :=
  [
    "accept", "accept4", "access", "acct", "add_key", "adjtimex", "afs_syscall",
    "alarm", "arch_prctl", "bind", "bpf", "brk", "cachestat", "capget", "capset",
    "chdir", "chmod", "chown", "chroot", "clock_adjtime", "clock_getres",
    "clock_gettime", "clock_nanosleep", "clock_settime", "clone", "clone3", "close",
    "close_range", "connect", "copy_file_range", "creat", "create_module",
    "delete_module", "dup", "dup2", "dup3", "epoll_create", "epoll_create1",
    "epoll_ctl", "epoll_ctl_old", "epoll_pwait", "epoll_pwait2", "epoll_wait",
    "epoll_wait_old", "eventfd", "eventfd2", "execve", "execveat", "exit",
    "exit_group", "faccessat", "faccessat2", "fadvise64", "fallocate",
    "fanotify_init", "fanotify_mark", "fchdir", "fchmod", "fchmodat", "fchmodat2",
    "fchown", "fchownat", "fcntl", "fdatasync", "fgetxattr", "file_getattr",
    "file_setattr", "finit_module", "flistxattr", "flock", "fork", "fremovexattr",
    "fsconfig", "fsetxattr", "fsmount", "fsopen", "fspick", "fstatfs", "fsync",
    "ftruncate", "futex", "futex_requeue", "futex_wait", "futex_waitv",
    "futex_wake", "futimesat", "get_kernel_syms", "get_mempolicy",
    "get_robust_list", "get_thread_area", "getcpu", "getcwd", "getdents",
    "getdents64", "getegid", "geteuid", "getgid", "getgroups", "getitimer",
    "getpeername", "getpgid", "getpgrp", "getpid", "getpmsg", "getppid",
    "getpriority", "getrandom", "getresgid", "getresuid", "getrlimit", "getrusage",
    "getsid", "getsockname", "getsockopt", "gettid", "gettimeofday", "getuid",
    "getxattr", "getxattrat", "init_module", "inotify_add_watch", "inotify_init",
    "inotify_init1", "inotify_rm_watch", "io_cancel", "io_destroy", "io_getevents",
    "io_pgetevents", "io_setup", "io_submit", "io_uring_enter", "io_uring_register",
    "io_uring_setup", "ioctl", "ioperm", "iopl", "ioprio_get", "ioprio_set", "kcmp",
    "kexec_file_load", "kexec_load", "keyctl", "kill", "landlock_add_rule",
    "landlock_create_ruleset", "landlock_restrict_self", "lchown", "lgetxattr",
    "link", "linkat", "listen", "listmount", "listxattr", "listxattrat",
    "llistxattr", "lookup_dcookie", "lremovexattr", "lseek", "lsetxattr",
    "lsm_get_self_attr", "lsm_list_modules", "lsm_set_self_attr", "madvise",
    "map_shadow_stack", "mbind", "membarrier", "memfd_create", "memfd_secret",
    "migrate_pages", "mincore", "mkdir", "mkdirat", "mknod", "mknodat", "mlock",
    "mlock2", "mlockall", "mmap", "modify_ldt", "mount", "mount_setattr",
    "move_mount", "move_pages", "mprotect", "mq_getsetattr", "mq_notify", "mq_open",
    "mq_timedreceive", "mq_timedsend", "mq_unlink", "mremap", "mseal", "msgctl",
    "msgget", "msgrcv", "msgsnd", "msync", "munlock", "munlockall", "munmap",
    "name_to_handle_at", "nanosleep", "newfstat", "newfstatat", "newlstat",
    "newstat", "newuname", "nfsservctl", "open", "open_by_handle_at", "open_tree",
    "open_tree_attr", "openat", "openat2", "pause", "perf_event_open",
    "personality", "pidfd_getfd", "pidfd_open", "pidfd_send_signal", "pipe",
    "pipe2", "pivot_root", "pkey_alloc", "pkey_free", "pkey_mprotect", "poll",
    "ppoll", "prctl", "pread64", "preadv", "preadv2", "prlimit64",
    "process_madvise", "process_mrelease", "process_vm_readv", "process_vm_writev",
    "pselect6", "ptrace", "putpmsg", "pwrite64", "pwritev", "pwritev2",
    "query_module", "quotactl", "quotactl_fd", "read", "readahead", "readlink",
    "readlinkat", "readv", "reboot", "recvfrom", "recvmmsg", "recvmsg",
    "remap_file_pages", "removexattr", "removexattrat", "rename", "renameat",
    "renameat2", "request_key", "restart_syscall", "rmdir", "rseq", "rt_sigaction",
    "rt_sigpending", "rt_sigprocmask", "rt_sigqueueinfo", "rt_sigreturn",
    "rt_sigsuspend", "rt_sigtimedwait", "rt_tgsigqueueinfo",
    "sched_get_priority_max", "sched_get_priority_min", "sched_getaffinity",
    "sched_getattr", "sched_getparam", "sched_getscheduler",
    "sched_rr_get_interval", "sched_setaffinity", "sched_setattr", "sched_setparam",
    "sched_setscheduler", "sched_yield", "seccomp", "security", "select", "semctl",
    "semget", "semop", "semtimedop", "sendfile64", "sendmmsg", "sendmsg", "sendto",
    "set_mempolicy", "set_mempolicy_home_node", "set_robust_list",
    "set_thread_area", "set_tid_address", "setdomainname", "setfsgid", "setfsuid",
    "setgid", "setgroups", "sethostname", "setitimer", "setns", "setpgid",
    "setpriority", "setregid", "setresgid", "setresuid", "setreuid", "setrlimit",
    "setsid", "setsockopt", "settimeofday", "setuid", "setxattr", "setxattrat",
    "shmat", "shmctl", "shmdt", "shmget", "shutdown", "sigaltstack", "signalfd",
    "signalfd4", "socket", "socketpair", "splice", "statfs", "statmount", "statx",
    "swapoff", "swapon", "symlink", "symlinkat", "sync", "sync_file_range",
    "syncfs", "sysctl", "sysfs", "sysinfo", "syslog", "tee", "tgkill", "time",
    "timer_create", "timer_delete", "timer_getoverrun", "timer_gettime",
    "timer_settime", "timerfd_create", "timerfd_gettime", "timerfd_settime",
    "times", "tkill", "truncate", "tuxcall", "umask", "umount", "unlink",
    "unlinkat", "unshare", "uretprobe", "uselib", "userfaultfd", "ustat", "utime",
    "utimensat", "utimes", "vfork", "vhangup", "vmsplice", "vserver", "wait4",
    "waitid", "write", "writev"].map bytes

/-- What package `seccomp` may fail with. -/
inductive SeccompErr where
  /-- `seccomp: unknown syscall %q (not in kafel amd64 table; …)` -/
  | unknownSyscall (name : GoString)
  /-- `global seccomp policy: missing POLICY declaration` -/
  | missingPolicy
  /-- `global seccomp policy: malformed POLICY declaration` -/
  | malformedPolicy
  /-- `global seccomp policy: missing DENY block` -/
  | missingDeny
  /-- `global seccomp policy: DENY block not closed` -/
  | denyNotClosed
  /-- `global seccomp policy: missing USE %s DEFAULT <action> tail` -/
  | missingUse (name : GoString)
deriving DecidableEq, Repr

def isDigit (c : UInt8) : Bool := 48 ≤ c && c ≤ 57

/-- `^SYSCALL\[\d+\]$` -/
def syscallNumRe (name : GoString) : Bool :=
  let rest := trimPrefix name (bytes "SYSCALL[")
  let digits := trimSuffix rest (bytes "]")
  hasPrefix name (bytes "SYSCALL[") && hasSuffix rest (bytes "]") &&
    digits ≠ [] && digits.all isDigit

def validSyscall (name : GoString) : Bool :=
  name ∈ validSyscalls || syscallNumRe name

/-- What `parseGlobalPolicyBytes` returns. -/
structure GlobalPolicy where
  names : List GoString
  header : GoString
  name : GoString
  defAction : GoString
deriving DecidableEq, Repr

/-- A line up to its comment. -/
def stripComment (line : GoString) : GoString :=
  match index (bytes "//") line with
  | some i => line.take i
  | none => line

/-- The entries of a DENY block. -/
def denyEntries (body : GoString) : List GoString :=
  let clean := (split 10 body).map stripComment
  ((split 44 (join 10 clean)).map trimSpace).filter fun n => n ≠ []

/-- `"USE "+name+" DEFAULT "`. -/
def useTail (name : GoString) : GoString := bytes "USE " ++ name ++ bytes " DEFAULT "

def defaultAction (s name : GoString) : GoString :=
  match lastIndex (useTail name) s with
  | some ui => trimSpace (s.drop (ui + (useTail name).length))
  | none => []

def parseGlobalPolicyBytes (s : GoString) : Except SeccompErr GlobalPolicy :=
  match index (bytes "POLICY ") s with
  | none => .error .missingPolicy
  | some polIdx =>
      let afterPol := s.drop (polIdx + (bytes "POLICY ").length)
      match indexAny afterPol (bytes " \t\x7b") with
      | none => .error .malformedPolicy
      | some nameEnd =>
          let name := trimSpace (afterPol.take nameEnd)
          match index (bytes "DENY \x7b") (s.drop polIdx) with
          | none => .error .missingDeny
          | some blockIdx =>
              let rest := s.drop (polIdx + blockIdx + (bytes "DENY \x7b").length)
              match index (bytes "\x7d") rest with
              | none => .error .denyNotClosed
              | some bodyEnd =>
                  if defaultAction s name = [] then .error (.missingUse name)
                  else
                    .ok
                      { names := denyEntries (rest.take bodyEnd)
                        header := s.take polIdx
                        name := name
                        defAction := defaultAction s name }

def parseGlobalPolicy : Except SeccompErr GlobalPolicy :=
  parseGlobalPolicyBytes policy

/-- The second loop of `CombinedWith`. What it has seen are the names it has. -/
def appendExtras : List GoString → List GoString → List GoString
  | names, [] => names
  | names, e :: rest =>
      let e := trimSpace e
      if e = [] ∨ e ∈ names then appendExtras names rest
      else appendExtras (names ++ [e]) rest

/-- The first loop: the first extra that is no syscall. -/
def unknownExtra (extraSyscalls : List GoString) : Option GoString :=
  (extraSyscalls.map trimSpace).find? fun e => !(e = [] || validSyscall e)

/-- The entries of a DENY block, one on a line. -/
def denyLines : List GoString → GoString
  | [] => []
  | [n] => bytes "\t\t" ++ n ++ bytes "\n"
  | n :: rest => bytes "\t\t" ++ n ++ bytes ",\n" ++ denyLines rest

/-- The policy that `CombinedWith` writes. -/
def policyText (g : GlobalPolicy) (names : List GoString) : GoString :=
  g.header ++ bytes "POLICY " ++ g.name ++ bytes " \x7b\n\tDENY \x7b\n" ++
    denyLines names ++ bytes "\t\x7d\n\x7d\n\n" ++
    bytes "USE " ++ g.name ++ bytes " DEFAULT " ++ g.defAction ++ bytes "\n"

def CombinedWith (extraSyscalls : List GoString) : Except SeccompErr GoString :=
  match unknownExtra extraSyscalls with
  | some e => .error (.unknownSyscall e)
  | none =>
      parseGlobalPolicy.map fun g =>
        policyText g (appendExtras g.names extraSyscalls)

end Goboxd.Seccomp
