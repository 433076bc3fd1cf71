import Goboxd.Lib.GoParse

/-!
# The cgroup manager

What package `cgroupv2` does per jail: making the jail's directory with its
controllers, and reading back the counters the kernel keeps under it. The
kernel's files are arguments, as the text that reading them gives or the error,
so one function reads whatever the hierarchy shows at the moment of the call.
-/

namespace Goboxd.Cgroupv2

open Go

/-- The manager after its probe. `base` is a clean path. -/
structure Manager where
  base : GoString
  active : Bool
  cpuActive : Bool
deriving DecidableEq, Repr

def Manager.CPUActive (m : Manager) : Bool := m.active && m.cpuActive

/-- One request's cgroup directory. `cpuActive` tells whether the cpu
controller is enabled for its children. -/
structure Jail where
  path : GoString
  cpuActive : Bool
deriving DecidableEq, Repr

def Jail.CPUActive (j : Jail) : Bool := j.cpuActive

/-- The text written to the directory's `cgroup.subtree_control`. -/
def Manager.subtree (m : Manager) : GoString :=
  str "+memory +pids" ++ if m.CPUActive then str " +cpu" else []

/-- The files `NewJail` writes: whether making the directory fails, and
whether writing a text to its `cgroup.subtree_control` does. -/
structure CgroupFs where
  mkdir : GoString → Option GoString
  subtreeControl : GoString → GoString → Option GoString

def Manager.NewJail (m : Manager) (fs : CgroupFs) (id : GoString) :
    Except GoString Jail :=
  let p := m.base ++ str "/" ++ id
  match fs.mkdir p with
  | some err => .error (str "creating jail cgroup " ++ p ++ str ": " ++ err)
  | none =>
      match fs.subtreeControl p m.subtree with
      | none => .ok ⟨p, m.CPUActive⟩
      | some err =>
          if m.CPUActive then
            -- the cpu part is best-effort: once more without it
            match fs.subtreeControl p (str "+memory +pids") with
            | some err2 =>
                .error (str "enabling controllers in " ++ p ++ str ": " ++ err2)
            | none => .ok ⟨p, false⟩
          else .error (str "enabling controllers in " ++ p ++ str ": " ++ err)

/-- What is on disk under a jail's cgroup directory: the entries with the text
of their `memory.events`, and the texts of the jail's own `cpu.stat` and
`memory.peak`. -/
structure Dir where
  entries : Option (List (GoString × Option GoString))
  cpuStat : Except GoString GoString
  memoryPeak : Option GoString

/-- What reading a counter may fail with. -/
inductive ReadErr where
  /-- `reading cpu.stat: %w` -/
  | cpuStat (err : GoString)
  /-- `parsing usage_usec: %w` -/
  | usage (text : GoString)
  /-- `usage_usec not found in %s/cpu.stat` -/
  | noUsage (path : GoString)
  /-- `parsing oom_kill: %w` -/
  | oomKill (text : GoString)
deriving DecidableEq, Repr

def usageOfLines (path : GoString) : List GoString → Except ReadErr Int
  | [] => .error (.noUsage path)
  | line :: rest =>
      match fields line with
      | [name, value] =>
          if name = str "usage_usec" then
            match atoi value with
            | some n => .ok n
            | none => .error (.usage value)
          else usageOfLines path rest
      | _ => usageOfLines path rest

def Jail.CPUUsageUS (j : Jail) (d : Dir) : Except ReadErr Int :=
  match d.cpuStat with
  | .error err => .error (.cpuStat err)
  | .ok text => usageOfLines j.path (split 10 text)

/-- The `oom_kill` values among the lines of a `memory.events`, summed. -/
def killsOfLines : List GoString → Except ReadErr Nat
  | [] => .ok 0
  | line :: rest =>
      match fields line with
      | [name, value] =>
          if name = str "oom_kill" then
            match parseUint value with
            | some n => (killsOfLines rest).map fun total => n + total
            | none => .error (.oomKill value)
          else killsOfLines rest
      | _ => killsOfLines rest

/-- The sum over nsjail's leaves; any other entry, and a leaf that cannot be
read, is passed over. -/
def killsOfEntries : List (GoString × Option GoString) → Except ReadErr Nat
  | [] => .ok 0
  | (name, events) :: rest =>
      if hasPrefix name (str "NSJAIL.") then
        match events with
        | none => killsOfEntries rest
        | some text =>
            match killsOfLines (split 10 text) with
            | .error err => .error err
            | .ok n => (killsOfEntries rest).map fun total => n + total
      else killsOfEntries rest

/-- `Jail.OOMKills`. The total is a `uint64`. -/
def OOMKills (d : Dir) : Except ReadErr Nat :=
  match d.entries with
  | none => .ok 0
  | some entries => (killsOfEntries entries).map fun total => total % 2 ^ 64

def OOMKillsSince (d : Dir) (baseline : Nat) : Except ReadErr Bool :=
  (OOMKills d).map fun n => n > baseline

/-- `Jail.PeakKB`: the bytes of `memory.peak` as kilobytes. -/
def PeakKB (d : Dir) : Int :=
  match d.memoryPeak.bind fun text => atoi (trimSpace text) with
  | none => 0
  | some n => if n ≤ 0 then 0 else n / 1024

/-! ## Reading what the kernel writes -/

/-- A file of counters as the kernel writes it: a line for each, with its name
and its value. -/
def counterFile (counters : List (GoString × Nat)) : GoString :=
  counters.flatMap fun c => c.1 ++ 0x20 :: itoa c.2 ++ [10]

structure CounterName (name : GoString) : Prop where
  nonempty : name ≠ []
  solid : Solid spaceEncodings name
  noNewline : 10 ∉ name

theorem split_counterFile {name : GoString} {n : Nat}
    {rest : List (GoString × Nat)} (h : CounterName name) :
    split 10 (counterFile ((name, n) :: rest)) =
      (name ++ 0x20 :: itoa n) :: split 10 (counterFile rest) := by
  have hline : 10 ∉ name ++ 0x20 :: itoa n := by
    simp [h.noNewline, newline_not_mem_itoa]
  have := split_line (counterFile rest) hline
  simpa [counterFile] using this

/-- Of a file of counters, exactly the values of `oom_kill` are summed. -/
theorem killsOfLines_counterFile : ∀ {counters : List (GoString × Nat)},
    (∀ c ∈ counters, CounterName c.1 ∧ (c.1 = str "oom_kill" → c.2 < 2 ^ 64)) →
    killsOfLines (split 10 (counterFile counters)) =
      .ok ((counters.filter fun c => c.1 = str "oom_kill").map Prod.snd).sum := by
  intro counters
  induction counters with
  | nil => intro _; rfl
  | cons c rest ih =>
      intro h
      obtain ⟨hname, hval⟩ := h c List.mem_cons_self
      have ihrest := ih fun d hd => h d (List.mem_cons_of_mem _ hd)
      rw [split_counterFile hname, killsOfLines,
        fields_pair hname.nonempty (itoa_ne_nil c.2) hname.solid
          (itoa_solid c.2)]
      simp only []
      by_cases hc : c.1 = str "oom_kill"
      · rw [if_pos hc, parseUint_itoa (hval hc), ihrest,
          List.filter_cons_of_pos (by simpa using hc)]
        rfl
      · rw [if_neg hc, ihrest, List.filter_cons_of_neg (by simpa using hc)]

/-- The counters of a memory cgroup. -/
structure MemoryEvents where
  low : Nat
  high : Nat
  max : Nat
  oom : Nat
  oomKill : Nat
  oomGroupKill : Nat
deriving DecidableEq, Repr

def MemoryEvents.text (e : MemoryEvents) : GoString :=
  counterFile
    [(str "low", e.low), (str "high", e.high), (str "max", e.max),
      (str "oom", e.oom), (str "oom_kill", e.oomKill),
      (str "oom_group_kill", e.oomGroupKill)]

theorem counterName_memoryEvents : ∀ name ∈ [str "low", str "high", str "max",
    str "oom", str "oom_kill", str "oom_group_kill"], CounterName name := by
  intro name hmem
  have hall : ∀ name ∈ [str "low", str "high", str "max", str "oom",
      str "oom_kill", str "oom_group_kill"],
      name ≠ [] ∧ Solid spaceEncodings name ∧ 10 ∉ name := by decide
  obtain ⟨h₁, h₂, h₃⟩ := hall name hmem
  exact ⟨h₁, h₂, h₃⟩

theorem killsOfLines_memoryEvents {e : MemoryEvents} (h : e.oomKill < 2 ^ 64) :
    killsOfLines (split 10 e.text) = .ok e.oomKill := by
  have hlow : str "low" ≠ str "oom_kill" := by decide
  have hhigh : str "high" ≠ str "oom_kill" := by decide
  have hmax : str "max" ≠ str "oom_kill" := by decide
  have hoom : str "oom" ≠ str "oom_kill" := by decide
  have hgroup : str "oom_group_kill" ≠ str "oom_kill" := by decide
  rw [MemoryEvents.text, killsOfLines_counterFile]
  · simp [hlow, hhigh, hmax, hoom, hgroup]
  · intro c hc
    have hname := counterName_memoryEvents c.1
    simp only [List.mem_cons, List.not_mem_nil, or_false] at hc hname
    rcases hc with rfl | rfl | rfl | rfl | rfl | rfl <;>
      exact ⟨hname (by simp), fun heq => by first | exact h | contradiction⟩

end Goboxd.Cgroupv2
