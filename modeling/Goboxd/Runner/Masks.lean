import Goboxd.Lib.Once
import Goboxd.Runner.Args
import Goboxd.Seccomp

/-!
# The files that are made once

The masked files of a jail and the file with the seccomp policy are written when the first
jail is started, by a `sync.Once` each, and stay until the process ends. Here are the four
computations as the calls they make, the files as far as these calls go, and `nsjailArgs` as
it asks for the paths.

A file carries the pattern that `CreateTemp` made it from; no call looks at it.
-/

namespace Goboxd.Runner

open Go

/-! ## Files -/

structure File where
  data : GoString
  mode : BitVec 12
  pattern : Option GoString
deriving DecidableEq, Repr

abbrev Files : Type := GoString → Option File

def Files.change (s : Files) (path : GoString) (f : File → File) : Files :=
  Function.update s path ((s path).map f)

inductive FileCall where
  | createTemp (pattern : GoString)
  | write (path data : GoString)
  | close (path : GoString)
  | chmod (path : GoString) (mode : BitVec 12)

def FileAnswer : FileCall → Type
  | .createTemp _ => Except GoString GoString
  | _ => Except GoString Unit

/-- `joinPath` of package `os`. -/
def joinPath (dir name : GoString) : GoString :=
  if dir ≠ [] ∧ dir.getLast? = some 47 then dir ++ name else dir ++ 47 :: name

/-- A path that `CreateTemp` comes up with: a number in place of the pattern's last star. -/
def TempName (dir pattern path : GoString) : Prop :=
  ∃ before after n, pattern = before ++ 42 :: after ∧ 42 ∉ after ∧
    path = joinPath dir (before ++ itoa n ++ after)

/-- What a call may answer and do. Every call may fail, with any error. -/
def fileAct (dir : GoString) : (c : FileCall) → Files → FileAnswer c → Files → Prop
  | .createTemp pattern, s, x, t =>
      (∃ err, x = .error err ∧ t = s) ∨
      ∃ path mode, x = .ok path ∧ TempName dir pattern path ∧ s path = none ∧
        t = Function.update s path (some ⟨[], mode, some pattern⟩)
  | .write path data, s, x, t =>
      (∃ err n, x = .error err ∧
        t = s.change path fun f => { f with data := f.data ++ data.take n }) ∨
      (x = .ok () ∧ t = s.change path fun f => { f with data := f.data ++ data })
  | .close _, s, _, t => t = s
  | .chmod path mode, s, x, t =>
      (∃ err, x = .error err ∧ t = s) ∨
      (x = .ok () ∧ t = s.change path fun f => { f with mode := mode })

/-- The rest of the world: it makes no file of the process, and leaves those it has alone. -/
def filesEnv (s t : Files) : Prop :=
  ∀ path f pattern, f.pattern = some pattern → (s path = some f ↔ t path = some f)

/-- A computation of a path. -/
abbrev Makes : Type := Calls FileCall FileAnswer (Except GoString GoString)

/-! ## Making them -/

/-- What one of the files is made of: its pattern and contents, the texts of its errors, and
that of `Chmod` where it is made readable for all. -/
structure Masked where
  pattern : GoString
  payload : GoString
  creating : GoString
  writing : GoString
  closing : GoString
  chmod : Option GoString

/-- `fmt.Errorf("…: %w", err)`. -/
def wrapErr (text err : GoString) : GoString := text ++ str ": " ++ err

def chmodTemp (path : GoString) : Option GoString → Makes
  | none => .done (.ok path)
  | some text =>
      .call (.chmod path 0o644) fun answer =>
        .done (answer.mapError (wrapErr text) |>.map fun _ => path)

def closeTemp (m : Masked) (path : GoString) : Makes :=
  .call (.close path) fun
    | .error err => .done (.error (wrapErr m.closing err))
    | .ok () => chmodTemp path m.chmod

def writeTemp (m : Masked) (path : GoString) : Makes :=
  .call (.write path m.payload) fun
    | .error err => .call (.close path) fun _ => .done (.error (wrapErr m.writing err))
    | .ok () => closeTemp m path

/-- The function that is done once. With an error nobody looks at the path. -/
def materialize (m : Masked) : Makes :=
  .call (.createTemp m.pattern) fun
    | .error err => .done (.error (wrapErr m.creating err))
    | .ok path => writeTemp m path

def maskedHostsContent : GoString := str "127.0.0.1 localhost\n::1 localhost\n"

def maskedResolvContent : GoString :=
  str "# goboxd jail: no DNS (nameservers removed to block exfiltration)\n"

def maskedNsswitchContent : GoString :=
  ["passwd: files\n", "group: files\n", "shadow: files\n", "gshadow: files\n", "\n",
    "hosts: files\n", "networks: files\n", "protocols: files\n", "services: files\n",
    "ethers: files\n", "rpc: files\n"].flatMap bytes

def PolicyPath : Masked where
  pattern := str "goboxd-seccomp-*.policy"
  payload := Seccomp.policy
  creating := str "creating seccomp policy temp file"
  writing := str "writing seccomp policy"
  closing := str "closing seccomp policy"
  chmod := none

def maskedHostsPath : Masked where
  pattern := str "goboxd-hosts-*.masked"
  payload := maskedHostsContent
  creating := str "creating masked hosts temp file"
  writing := str "writing masked hosts temp file"
  closing := str "closing masked hosts temp file"
  chmod := some (str "chmod masked hosts temp file")

def maskedResolvPath : Masked where
  pattern := str "goboxd-resolv-*.masked"
  payload := maskedResolvContent
  creating := str "creating masked resolv temp file"
  writing := str "writing masked resolv temp file"
  closing := str "closing masked resolv temp file"
  chmod := some (str "chmod masked resolv temp file")

def maskedNsswitchPath : Masked where
  pattern := str "goboxd-nsswitch-*.masked"
  payload := maskedNsswitchContent
  creating := str "creating masked nsswitch temp file"
  writing := str "writing masked nsswitch temp file"
  closing := str "closing masked nsswitch temp file"
  chmod := some (str "chmod masked nsswitch temp file")

def Shared.masked : Shared → Masked
  | .policy => PolicyPath
  | .hosts => maskedHostsPath
  | .resolv => maskedResolvPath
  | .nsswitch => maskedNsswitchPath

/-- The process's shared files, with temporary files in `dir`. -/
def onceFiles (dir : GoString) :
    Once.System Shared FileCall FileAnswer (Except GoString GoString) Files where
  body := fun k => materialize k.masked
  act := fileAct dir
  env := filesEnv

/-! ## Asking for them -/

/-- A function that asks for the shared paths. -/
abbrev Asks (α : Type) : Type := Calls Shared (fun _ => Except GoString GoString) α

/-- `nsjailArgs` as it asks for the files. -/
def nsjailArgsAsks (host : Host) (appDir : GoString) (lim : ExecLimits) (uid : Int)
    (jailCg : Option Cgroupv2.Jail) (langSeccomp : GoString) :
    Asks (Except GoString (List GoString)) :=
  (nsjailArgsBy (fun k => Calls.ask k) host appDir lim uid jailCg langSeccomp).run

/-- A call of `nsjailArgs`, and a state of the process with all of them. -/
abbrev Starting : Type :=
  Once.Asker Shared FileCall FileAnswer (Except GoString GoString)
    (Except GoString (List GoString))

abbrev Jails : Type :=
  Once.St Shared FileCall FileAnswer (Except GoString GoString)
    (Except GoString (List GoString)) Files

/-- The host with the paths of a table. -/
def Host.withPaths (host : Host) (paths : Shared → Except GoString GoString) : Host :=
  { host with
    policyPath := paths .policy
    maskedHostsPath := paths .hosts
    maskedResolvPath := paths .resolv
    maskedNsswitchPath := paths .nsswitch }

end Goboxd.Runner
