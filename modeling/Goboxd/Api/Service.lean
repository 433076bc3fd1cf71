import Goboxd.Api.Admission
import Goboxd.Lib.Ledger
import Goboxd.Runner.Execute
import Goboxd.Runner.Sandbox

/-!
# The service

Everything that requests share and everything they do to it: the admission
gate, the uid pool and the disk, and beside them one entry for each call of
`HandleRun`, with the call of `ExecuteRun` inside it and the jails that call
has made. The template jail is the first of them, and the jail of the
goroutine of test `i` is the one after the first `i + 1`.

A step is taken by one of the parts: the gate moves for a caller, a jail makes
its next operation, `ExecuteRun` or one of its goroutines moves, the client
goes away. What ties the parts together is the order of the source's calls and
deferred calls. Nothing is made before the request is admitted. `newJail`
answers what became of the jail. A goroutine's jail is torn down once its result
is stored and before the goroutine leaves the semaphore, and the template after
`ExecuteRun` has its results and before the gate gets its slot back.

A request's language and its contents are arbitrary here; what validation lets
through is a subset.
-/

namespace Goboxd.Api

open Go Models Config Runner Uidpool

/-- What is fixed while the process runs; `leftover` names the jail directories
that an earlier process left behind. -/
structure ServiceConfig where
  numCPU : Int
  getenv : Env
  cgActive : Bool
  umask : Mode
  tempDir : GoString
  leftover : List GoString

/-- What all requests share. -/
structure HostState where
  gate : GateState
  pool : Pool
  disk : Disk

/-- One call of `HandleRun`, from `acquire` to the deferred `release`. -/
structure Call where
  req : RunRequest
  lc : LanguageConfig
  caller : Caller
  run : Family.St RunState TestProc
  sandboxes : List Sandbox

/-- The contents of an app dir after a process has worked on it. -/
structure AppTree where
  entries : Entries
  wf : entries.Wf

inductive CallAct where
  | gate (a : CallerAct)
  /-- The client disconnects. -/
  | cancel
  | sandbox (i : Nat) (e : Option GoString) (name : GoString)
  | run (a : Family.Act TestAct RunEvent) (tree : AppTree)

inductive ServiceEvent where
  | call (req : RunRequest) (lc : LanguageConfig)
  | stop

def startHost (cfg : ServiceConfig) : HostState where
  gate :=
    newAdmissionGate (readMaxJobs cfg.getenv cfg.numCPU)
      (readMaxQueued cfg.getenv cfg.numCPU)
  pool := New (minUid cfg.getenv) (UidBudget cfg.getenv cfg.numCPU)
  disk := { dirs := cfg.leftover, app := fun _ => .nil, leaves := [] }

def Call.start (req : RunRequest) (lc : LanguageConfig) : Call where
  req := req
  lc := lc
  caller := ⟨.entering, false⟩
  run := ⟨startRun false, []⟩
  sandboxes := [.fresh]

def Call.returned (c : Call) : Bool := c.run.shared.pc.isReturned

def Call.templateGone (c : Call) : Bool :=
  c.sandboxes[0]?.any fun sb => sb.jail.pc = .gone

/-- `ExecuteRun` has returned to `HandleRun`: its deferred `teardown` is over. -/
def Call.done (c : Call) : Bool := c.returned && c.templateGone

/-- A jail that is in use is torn down by the deferred call only. -/
def Call.maySandbox (c : Call) : Nat → Sandbox → Bool
  | 0, sb => c.caller.phase = .admitted && (sb.jail.pc ≠ .live || c.returned)
  | k + 1, sb =>
      sb.jail.pc ≠ .live || c.run.procs[k]?.any fun p => p.pc.atDefers

def Call.mayGate (c : Call) : CallerAct → Bool
  | .ctxCancel => false
  | .release => c.done
  | _ => true

def Call.answers (cfg : ServiceConfig) (c : Call) (i : Nat)
    (answer : Except GoString JailFields) : Bool :=
  c.sandboxes[i]?.any fun sb => sb.answers cfg.tempDir c.lc.seccomp answer

def Call.mayRun (cfg : ServiceConfig) (c : Call) :
    Family.Act TestAct RunEvent → Bool
  | .env .cancel => false
  | .env (.newJail answer) =>
      c.caller.phase = .admitted && c.answers cfg 0 answer
  | .env _ => true
  | .own k (.newJail answer) => c.answers cfg (k + 1) answer
  | .own k .release => c.sandboxes[k + 1]?.any fun sb => sb.jail.pc = .gone
  | .own _ _ => true

def Call.name (c : Call) (i : Nat) : GoString :=
  (c.sandboxes[i]?.map Sandbox.name).getD []

/-- The jail of the goroutine that is started. -/
def spawned : Family.Act TestAct RunEvent → List Sandbox
  | .env .acquire => [.fresh]
  | _ => []

/-- What a step of `ExecuteRun` does to the disk: an exec leaves a tree behind,
and seeding copies the template's, or a part of it when it fails. -/
def Call.diskAfter (cfg : ServiceConfig) (c : Call) (disk : Disk) (tree : AppTree) :
    Family.Act TestAct RunEvent → Option Disk
  | .env (.build ..) | .env (.finish _) =>
      some (disk.setApp (c.name 0) tree.entries)
  | .own k (.finish _) => some (disk.setApp (c.name (k + 1)) tree.entries)
  | .own k (.seed none) =>
      match copyTree cfg.umask ((c.sandboxes[k + 1]?.map fun sb => sb.jail.uid).getD 0)
          (disk.app (c.name 0)) (disk.app (c.name (k + 1))) with
      | .ok es => some (disk.setApp (c.name (k + 1)) es)
      | .error _ => none
  | .own k (.seed (some _)) =>
      some (disk.setApp (c.name (k + 1)) tree.entries)
  | _ => some disk

/-- `ExecuteRun` of this call. -/
def Call.machine (cfg : ServiceConfig) (c : Call) :
    Machine (Family.St RunState TestProc) (Family.Act TestAct RunEvent) :=
  (executeRun cfg.numCPU c.req c.lc).machine

def Call.setCaller (c : Call) (caller : Caller) : Call := { c with caller := caller }

def Call.setRun (c : Call) (run : Family.St RunState TestProc)
    (more : List Sandbox) : Call :=
  { c with run := run, sandboxes := c.sandboxes ++ more }

def Call.setSandbox (c : Call) (i : Nat) (sb : Sandbox) : Call :=
  { c with sandboxes := c.sandboxes.set i sb }

def callStep (cfg : ServiceConfig) (h : HostState) (c : Call) :
    CallAct → Option (HostState × Call)
  | .gate a =>
      if c.mayGate a then
        (callerStep h.gate c.caller a).map fun r =>
          ({ h with gate := r.1 }, c.setCaller r.2)
      else none
  | .cancel =>
      ((c.machine cfg).step c.run (.env .cancel)).map fun run =>
        (h, (c.setCaller { c.caller with ctxDone := true }).setRun run [])
  | .sandbox i e name =>
      c.sandboxes[i]?.bind fun sb =>
        if c.maySandbox i sb then
          (sandboxStep cfg.cgActive cfg.umask (resolveSourceName c.req c.lc)
            c.req.source h.pool h.disk sb e name).map fun r =>
              ({ h with pool := r.1, disk := r.2.1 }, c.setSandbox i r.2.2)
        else none
  | .run a tree =>
      if c.mayRun cfg a then
        ((c.machine cfg).step c.run a).bind fun run =>
          (c.diskAfter cfg h.disk tree a).map fun disk =>
            ({ h with disk := disk }, c.setRun run (spawned a))
      else none

def serviceEvent (h : HostState) : ServiceEvent → Option (HostState × List Call)
  | .call req lc => some (h, [Call.start req lc])
  | .stop => some ({ h with gate := stop h.gate }, [])

/-- The process from its start, with everything its clients may do. -/
def service (cfg : ServiceConfig) :
    Family HostState Call CallAct ServiceEvent where
  init h := h = startHost cfg
  own _ := callStep cfg
  env := serviceEvent

/-! ## What a step can be -/

inductive CallMove (cfg : ServiceConfig) (h : HostState) (c : Call) :
    CallAct → HostState × Call → Prop where
  | gate {a : CallerAct} {r : GateState × Caller} (hmay : c.mayGate a = true)
      (hr : callerStep h.gate c.caller a = some r) :
      CallMove cfg h c (.gate a) ({ h with gate := r.1 }, c.setCaller r.2)
  | cancel {run : Family.St RunState TestProc}
      (hrun : (c.machine cfg).step c.run (.env .cancel) = some run) :
      CallMove cfg h c .cancel
        (h, (c.setCaller { c.caller with ctxDone := true }).setRun run [])
  | sandbox {i : Nat} {e : Option GoString} {name : GoString} {sb sb' : Sandbox}
      {pool : Pool} {disk : Disk} (hi : c.sandboxes[i]? = some sb)
      (hmay : c.maySandbox i sb = true)
      (hr : sandboxStep cfg.cgActive cfg.umask (resolveSourceName c.req c.lc)
        c.req.source h.pool h.disk sb e name = some (pool, disk, sb')) :
      CallMove cfg h c (.sandbox i e name)
        ({ h with pool := pool, disk := disk }, c.setSandbox i sb')
  | run {a : Family.Act TestAct RunEvent} {tree : AppTree}
      {run : Family.St RunState TestProc} {disk : Disk}
      (hmay : c.mayRun cfg a = true)
      (hrun : (c.machine cfg).step c.run a = some run)
      (hdisk : c.diskAfter cfg h.disk tree a = some disk) :
      CallMove cfg h c (.run a tree)
        ({ h with disk := disk }, c.setRun run (spawned a))

theorem callStep_move {cfg : ServiceConfig} {h : HostState} {c : Call}
    {a : CallAct} {r : HostState × Call} (hs : callStep cfg h c a = some r) :
    CallMove cfg h c a r := by
  cases a with
  | gate a =>
      rw [callStep] at hs
      split at hs
      · next hmay =>
          obtain ⟨q, hq, rfl⟩ := Option.map_eq_some_iff.mp hs
          exact .gate hmay hq
      · cases hs
  | cancel =>
      rw [callStep] at hs
      obtain ⟨run, hrun, rfl⟩ := Option.map_eq_some_iff.mp hs
      exact .cancel hrun
  | sandbox i e name =>
      rw [callStep] at hs
      obtain ⟨sb, hi, hs⟩ := Option.bind_eq_some_iff.mp hs
      split at hs
      · next hmay =>
          obtain ⟨⟨pool, disk, sb'⟩, hq, rfl⟩ := Option.map_eq_some_iff.mp hs
          exact .sandbox hi hmay hq
      · cases hs
  | run a tree =>
      rw [callStep] at hs
      split at hs
      · next hmay =>
          obtain ⟨run, hrun, hs⟩ := Option.bind_eq_some_iff.mp hs
          obtain ⟨disk, hdisk, rfl⟩ := Option.map_eq_some_iff.mp hs
          exact .run hmay hrun hdisk
      · cases hs

/-! ## What the calls have -/

def Call.uids (c : Call) : List Int := c.sandboxes.flatMap Sandbox.uids

def Call.dirs (c : Call) : List GoString := c.sandboxes.flatMap Sandbox.dirs

def Call.leaves (c : Call) : List GoString := c.sandboxes.flatMap Sandbox.leaves

/-- The uids that jails hold. -/
def heldUids (s : Family.St HostState Call) : List Int := s.procs.flatMap Call.uids

def ownedDirs (s : Family.St HostState Call) : List GoString :=
  s.procs.flatMap Call.dirs

def ownedLeaves (s : Family.St HostState Call) : List GoString :=
  s.procs.flatMap Call.leaves

end Goboxd.Api
