import Goboxd.Proofs.UndisturbedCalls

/-!
# Parallel tests and sequential tests

What an undisturbed call returns is a function of the request, and neither the
schedule nor the degree of parallelism occurs in it, but for the tree in which
the tests are run. The sequential loop uses the built tree itself, the
goroutines use copies of it. A copy has the names, the bytes and the link
targets of the template, and the modes up to those that `copyTree` does not
restore: the permissions of a directory that the umask takes away, and the bits
above the permissions.
-/

namespace Goboxd.Api

open Go Models Config Family Runner Uidpool

section

variable {ex : Exec} {cfg : ServiceConfig} {p : ℕ} {s t : St HostState Call}

/-- A call whose client stayed returns a result for every test, or none at all. -/
theorem results_of_return {c : Call} {build : BuildResult} {tests : List TestResult}
    {err : Option GoString} {P : Prop} (hcalm : c.run.shared.cancelled = false)
    (hplace : build.status = .ok ↔ P)
    (hret : ReturnWf c.req c.lc c.run.shared.cancelled c.run.shared.log build tests err) :
    (P ∧ ResultsUpTo c.req c.lc c.run.shared.log tests c.req.tests.length) ∨
      (¬ P ∧ tests = []) := by
  cases hret with
  | setup hb ht =>
      refine .inr ⟨fun hp => ?_, ht⟩
      rw [hplace.mpr hp] at hb
      cases hb
  | build hb ht => exact .inr ⟨fun hp => hb (hplace.mpr hp), ht⟩
  | tests hb ht =>
      exact .inl ⟨hplace.mp hb, ht.resolve_left (by rw [hcalm]; exact Bool.noConfusion)⟩

/-- A test whose exec was the program's answers for the program. -/
theorem ran_answer {req : RunRequest} {lc : LanguageConfig} {w : TestWorld}
    {j : JailFields} {tc : TestCase} {tree : Entries} (hbefore : w.ctxBefore = none)
    (hfacts : w.facts tc lc j req = testFacts ex req lc tree tc) :
    TestResult.answer ((Attempt.ran w j).result req lc tc) =
      testAnswer ex req lc tree tc := by
  show TestResult.answer (runSingleTest w tc lc j req) = _
  rw [runSingleTest_answer hbefore, hfacts]
  rfl

/-- What such a call returns is a function of the request and of the tree in
which its tests are run. -/
theorem answers_of_returned {c : Call} {build : BuildResult} {tests : List TestResult}
    {err : Option GoString} (hn : cfg.leftover.Nodup)
    (hr : (service cfg).machine.Reach (Steady ex cfg p) s) (hc : s.procs[p]? = some c)
    (hsrc : SourceKept ex cfg.umask c.req c.lc)
    (hpc : c.run.shared.pc = .returned build tests err) :
    tests.map TestResult.answer = answers ex cfg.umask c.req c.lc
      (ranTree ex cfg.umask c.req c.lc cfg.numCPU) := by
  have hw := callRuns_of_reach hn hr p c hc rfl hsrc
  have hplace := hw.place
  rw [hpc] at hplace
  have hret := returnWf_of_reachable (callWf_of_reachable hr.reachable p c hc).run hpc
  unfold answers
  rcases results_of_return hw.calm hplace hret with ⟨hb, hlen, hres⟩ | ⟨hb, rfl⟩
  · rw [if_pos hb]
    refine List.ext_getElem? fun k => ?_
    rw [List.getElem?_map, List.getElem?_map]
    rcases Nat.lt_or_ge k c.req.tests.length with hlt | hge
    · have htc : c.req.tests[k]? = some c.req.tests[k] := List.getElem?_eq_getElem hlt
      obtain ⟨att, hmem, hk⟩ := hres k _ hlt htc
      obtain ⟨w, j, tc, hatt, htc', hbefore, hfacts⟩ := hw.log _ hmem
      rw [show c.req.tests[k]? = some tc from htc'] at htc
      obtain rfl := Option.some.inj htc
      rw [hk, show att = .ran w j from hatt, show c.req.tests[k]? = some _ from htc']
      exact congrArg some (ran_answer hbefore hfacts)
    · rw [List.getElem?_eq_none (by omega), List.getElem?_eq_none hge]
      rfl
  · rw [if_neg hb]
    rfl

/-- With a budget of up to `2^62` no `Alloc` fails, and an undisturbed run is a
steady one. -/
theorem steady_of_small (hcpu : 1 ≤ cfg.numCPU)
    (hrep : minUid cfg.getenv +
      readMaxJobs cfg.getenv cfg.numCPU * (cfg.numCPU + 1) ≤ maxInt)
    (hsmall : readMaxJobs cfg.getenv cfg.numCPU * (cfg.numCPU + 1) ≤
      4611686018427387904)
    (hr : (service cfg).machine.Reach (Undisturbed ex cfg p) s) :
    (service cfg).machine.Reach (Steady ex cfg p) s := by
  refine hr.invariant (I := fun s => (service cfg).machine.Reach (Steady ex cfg p) s)
    (fun s hs => .start hs) ?_
  intro s a t hreach ih hG hs
  have halloc := allocSucceeds_of_small hcpu hrep hsmall hreach.reachable a
  exact .next ih ⟨hG, fun _ _ => halloc⟩ hs

/-- Every test that is run answers in the copy what it answers in the template. -/
def AnswersAlike (ex : Exec) (umask : Mode) (req : RunRequest) (lc : LanguageConfig) :
    Prop :=
  BuildSucceeds ex umask req lc → ∀ tc ∈ req.tests,
    testAnswer ex req lc (copiedTree ex umask req lc) tc =
      testAnswer ex req lc (builtTree ex umask req lc) tc

theorem answers_eq_iff {umask : Mode} {req : RunRequest} {lc : LanguageConfig} :
    answers ex umask req lc (copiedTree ex umask req lc) =
        answers ex umask req lc (builtTree ex umask req lc) ↔
      AnswersAlike ex umask req lc := by
  unfold answers AnswersAlike
  split
  · next hb =>
      rw [List.map_inj_left]
      exact ⟨fun hall _ => hall, fun hall => hall hb⟩
  · next hb => exact ⟨fun _ hb' => absurd hb' hb, fun _ => rfl⟩

/-- A copy that keeps the modes is the template. -/
theorem copied_of_modesKept {umask : Mode} {req : RunRequest} {lc : LanguageConfig}
    (hm : (builtTree ex umask req lc).ModesKept umask) :
    copiedTree ex umask req lc = builtTree ex umask req lc := by
  have hcontents : (builtTree ex umask req lc).contents = builtTree ex umask req lc := by
    unfold builtTree
    split
    · rfl
    · exact Entries.contents_contents _
  rw [copiedTree, Entries.contents_seeded_iff.mpr hm, hcontents]

/-- Parallel execution refines sequential execution. A request's tests get the
same statuses, streams and exit facts from the goroutines and from the loop, in
every interleaving, exactly when no test's exec tells the copy of the app dir
from the template; and so they always do when the build leaves no modes that a
copy does not keep. -/
theorem parallel_refines_sequential {q : ℕ} {c d : Call} {m : Option Int}
    {build build' : BuildResult} {tests tests' : List TestResult}
    {err err' : Option GoString} (hn : cfg.leftover.Nodup)
    (hs : (service cfg).machine.Reach (Steady ex cfg p) s) (hc : s.procs[p]? = some c)
    (hpar : effectiveParallel cfg.numCPU c.req ≥ 2)
    (hpc : c.run.shared.pc = .returned build tests err)
    (ht : (service cfg).machine.Reach (Steady ex cfg q) t) (hd : t.procs[q]? = some d)
    (hreq : d.req = { c.req with maxParallel := m }) (hlc : d.lc = c.lc)
    (hseq : effectiveParallel cfg.numCPU d.req = 1)
    (hpc' : d.run.shared.pc = .returned build' tests' err')
    (hsrc : SourceKept ex cfg.umask c.req c.lc) :
    (tests.map TestResult.answer = tests'.map TestResult.answer ↔
        AnswersAlike ex cfg.umask c.req c.lc) ∧
      ((builtTree ex cfg.umask c.req c.lc).ModesKept cfg.umask →
        tests.map TestResult.answer = tests'.map TestResult.answer) := by
  have hleft := answers_of_returned hn hs hc hsrc hpc
  rw [ranTree, if_pos (by omega)] at hleft
  have hsrc' : SourceKept ex cfg.umask d.req d.lc := by
    rw [hreq, hlc]
    exact hsrc
  have hright := answers_of_returned hn ht hd hsrc' hpc'
  rw [ranTree, if_neg (by omega), hreq, hlc] at hright
  have hiff : tests.map TestResult.answer = tests'.map TestResult.answer ↔
      AnswersAlike ex cfg.umask c.req c.lc := by
    rw [hleft, hright]
    exact answers_eq_iff
  refine ⟨hiff, fun hm => hiff.mpr fun _ tc _ => ?_⟩
  rw [copied_of_modesKept hm]

end

/-! ## A build that makes a directory -/

/-- The permissions of the first directory. -/
def firstDirMode : Entries → Option Mode
  | .nil => none
  | .leaf _ _ _ rest => firstDirMode rest
  | .dir _ _ mode _ _ => some mode

def printed (out : GoString) (outputCap : Int) : ExecFacts where
  stdout := readCapped out outputCap
  stderr := readCapped [] outputCap
  oomKilled := false
  cpuKilled := false
  cpuReached := false
  exitCode := 0
  termSignal := 0
  infra := false
  err := none
  ps := some (.exited 0)
  ctxErr := none

def describe (mode : Mode) : GoString := if mode = 0o777 then str "open" else []

/-- A program whose build makes a directory with the permissions `mode`, and that
looks at the directory when it runs. -/
def dirProgram (mode : Mode) : Exec := fun tree _ _ _ outputCap =>
  match firstDirMode tree with
  | none => (printed [] outputCap, tree.append (.dir (str "d") 0 mode .nil .nil))
  | some found => (printed (describe found) outputCap, tree)

def hsLang : LanguageYAML where
  id := str "haskell"
  name := str "Haskell"
  sourceFilename := str "solution.hs"
  artifact := str "solution"
  build := some
    { cmd := str "/usr/bin/ghc"
      args := [str "-O2", str "-dynamic", str "-o", str "{{artifact}}",
        str "{{source}}"]
      limits := ⟨15, 1048576, 100, 120⟩
      ceiling := .zero
      hasCeiling := false
      flagAllowlist := [] }
  run :=
    { cmd := str "./{{artifact}}"
      args := []
      limits := ⟨5, 524288, 64, 20⟩
      ceiling := .zero
      hasCeiling := false
      flagAllowlist := [] }
  smokeCmd := []
  smokeArgs := []
  sourceFilenameStrategy := []
  seccomp := []

def hsConfig : LanguageConfig := newLanguageConfig hsLang

def hsRequest (maxParallel : Option Int) : RunRequest where
  language := str "haskell"
  source := str "main"
  sourceFilename := []
  artifactFilename := []
  build := none
  run := none
  tests := [⟨[], []⟩]
  maxParallel := maxParallel
  maxOutputBytes := none

/-- Two CPUs, no cgroups, and one job at a time. -/
def twoCPU : ServiceConfig := { oneCPU "1" with numCPU := 2, cgActive := false }

/-- The operations of `newJail` for a jail of the call. -/
def makeJail (i : ℕ) (name : GoString) : List (Act CallAct ServiceEvent) :=
  [.own 0 (.sandbox i none []), .own 0 (.sandbox i none name)]
    ++ List.replicate 5 (.own 0 (.sandbox i none []))

def jailNamed (name : GoString) (uid : ℤ) : JailFields where
  dir := str "/tmp/" ++ name
  uid := uid
  cg := none
  seccomp := []

def runStep (a : Act TestAct RunEvent) : Act CallAct ServiceEvent :=
  .own 0 (.run a noTree)

/-- Up to the build. -/
def untilBuild (maxParallel : Option Int) : List (Act CallAct ServiceEvent) :=
  [.env (.call (hsRequest maxParallel) hsConfig), .own 0 (.gate .enter)]
    ++ makeJail 0 (str "1")
    ++ [runStep (.env (.newJail (.ok (jailNamed (str "1") 10000))))]

def hsTree (uid : ℤ) (mode : Mode) : AppTree where
  entries :=
    .leaf (str "solution.hs") uid (.file 0o644 (str "main"))
      (.dir (str "d") uid mode .nil .nil)
  wf := ⟨show str "solution.hs" ∉ [str "d"] by decide, List.not_mem_nil, trivial,
    trivial⟩

/-- The one test, from the loop to its exec. -/
def untilExec : List (Act CallAct ServiceEvent) :=
  [runStep (.env .next), runStep (.env .acquire)] ++ makeJail 1 (str "2")
    ++ [runStep (.own 0 (.newJail (.ok (jailNamed (str "2") 10001)))),
      runStep (.own 0 (.seed none)), runStep (.own 0 .begin)]

def untilReturn : List (Act CallAct ServiceEvent) :=
  List.replicate 4 (.own 0 (.sandbox 1 none []))
    ++ [runStep (.own 0 .release), runStep (.own 0 .done), runStep (.env .next),
      runStep (.env .wait)]

def steadyCheck (mode : Mode) (s : St HostState Call) :
    Act CallAct ServiceEvent → Bool
  | .own _ b =>
      s.shared.pool.alloc.toOption.isSome &&
        s.procs[0]?.all fun c => c.undisturbed (dirProgram mode) twoCPU s.shared.disk b
  | .env _ => true

theorem exists_alloc {pool : Pool} (h : pool.alloc.toOption.isSome = true) :
    ∃ uid pool', pool.alloc = .ok (uid, pool') := by
  cases ha : pool.alloc with
  | ok r => exact ⟨r.1, r.2, rfl⟩
  | error msg =>
      rw [ha] at h
      cases h

theorem steadyCheck_sound (mode : Mode) (s : St HostState Call)
    (a : Act CallAct ServiceEvent) (h : steadyCheck mode s a = true) :
    Steady (dirProgram mode) twoCPU 0 s a := by
  refine ⟨fun b c hb hc => ?_, fun b hb t sb e _ _ _ => ?_⟩
  · subst hb
    rw [steadyCheck, Bool.and_eq_true, hc] at h
    exact h.2
  · subst hb
    rw [steadyCheck, Bool.and_eq_true] at h
    exact exists_alloc h.1

/-- The whole request with one test, in parallel mode. -/
def inParallel (mode : Mode) : List (Act CallAct ServiceEvent) :=
  untilBuild (some 2)
    ++ [.own 0 (.run (.env (.build ⟨(printing []).exec, none⟩ 0)) (hsTree 10000 mode))]
    ++ untilExec
    ++ [.own 0 (.run (.own 0 (.finish (printing (describe (mode &&& ~~~0o022)))))
      (hsTree 10001 (mode &&& ~~~0o022)))]
    ++ untilReturn

/-- And in sequential mode. -/
def inSequence (mode : Mode) : List (Act CallAct ServiceEvent) :=
  untilBuild none
    ++ [.own 0 (.run (.env (.build ⟨(printing []).exec, none⟩ 0)) (hsTree 10000 mode)),
      runStep (.env .next), runStep (.env .begin),
      .own 0 (.run (.env (.finish (printing (describe mode)))) (hsTree 10000 mode)),
      runStep (.env .next)]

def hasReturned (maxParallel : Option Int) (s : St HostState Call) : Bool :=
  s.procs[0]?.any fun c =>
    c.run.shared.pc.isReturned && c.req = hsRequest maxParallel && c.lc = hsConfig

/-- The first call has returned, and it is the one for `req`. -/
def returnedFor (req : RunRequest) (lc : LanguageConfig) (s : St HostState Call) : Bool :=
  s.procs[0]?.any fun c => c.run.shared.pc.isReturned && c.req = req && c.lc = lc

theorem returned_of_run {cfg : ServiceConfig} {req : RunRequest} {lc : LanguageConfig}
    {ok : St HostState Call → Act CallAct ServiceEvent → Bool}
    {G : St HostState Call → Act CallAct ServiceEvent → Prop}
    (hok : ∀ s a, ok s a = true → G s a) (as : List (Act CallAct ServiceEvent))
    (h : ((service cfg).machine.execIf ok ⟨startHost cfg, []⟩ as).any
      (returnedFor req lc) = true) :
    ∃ s c build tests err, (service cfg).machine.Reach G s ∧ s.procs[0]? = some c ∧
      c.req = req ∧ c.lc = lc ∧ c.run.shared.pc = .returned build tests err := by
  have hinit : (service cfg).machine.init ⟨startHost cfg, []⟩ := ⟨rfl, rfl⟩
  obtain ⟨s, hs, hret⟩ := (Option.any_eq_true _ _).mp h
  obtain ⟨c, hc, hret⟩ := (Option.any_eq_true _ _).mp hret
  rw [Bool.and_eq_true, Bool.and_eq_true, decide_eq_true_eq, decide_eq_true_eq] at hret
  obtain ⟨⟨hpc, hreq⟩, hlc⟩ := hret
  have hreach := Machine.reach_of_execIf hok as (.start hinit) hs
  unfold RunPc.isReturned at hpc
  split at hpc
  · next build tests err heq =>
      exact ⟨s, c, build, tests, err, hreach, hc, hreq, hlc, heq⟩
  · cases hpc

/-- A call that went through a run of the service to its end. -/
structure Finished (mode : Mode) (maxParallel : Option Int) where
  s : St HostState Call
  c : Call
  build : BuildResult
  tests : List TestResult
  err : Option GoString
  reach : (service twoCPU).machine.Reach (Steady (dirProgram mode) twoCPU 0) s
  call : s.procs[0]? = some c
  req : c.req = hsRequest maxParallel
  lc : c.lc = hsConfig
  pc : c.run.shared.pc = .returned build tests err

theorem finished_of_run {mode : Mode} {maxParallel : Option Int}
    (as : List (Act CallAct ServiceEvent))
    (h : ((service twoCPU).machine.execIf (steadyCheck mode) ⟨startHost twoCPU, []⟩
      as).any (hasReturned maxParallel) = true) : Nonempty (Finished mode maxParallel) := by
  obtain ⟨s, c, build, tests, err, hreach, hc, hreq, hlc, hpc⟩ :=
    returned_of_run (steadyCheck_sound mode) as h
  exact ⟨⟨s, c, build, tests, err, hreach, hc, hreq, hlc, hpc⟩⟩

theorem finished_parallel (mode : Mode) (h : mode = 0o755 ∨ mode = 0o777) :
    Nonempty (Finished mode (some 2)) := by
  refine finished_of_run (inParallel mode) ?_
  rcases h with rfl | rfl <;> rfl

theorem finished_sequential (mode : Mode) (h : mode = 0o755 ∨ mode = 0o777) :
    Nonempty (Finished mode none) := by
  refine finished_of_run (inSequence mode) ?_
  rcases h with rfl | rfl <;> rfl

theorem sourceKept_dirProgram (mode : Mode) (maxParallel : Option Int) :
    SourceKept (dirProgram mode) twoCPU.umask (hsRequest maxParallel) hsConfig := .inl rfl

/-- With permissions that the umask leaves, both ways of running the test give
one answer. -/
theorem parallel_refines_sequential_755 :
    ∃ (a : Finished 0o755 (some 2)) (b : Finished 0o755 none),
      effectiveParallel twoCPU.numCPU a.c.req = 2 ∧
        effectiveParallel twoCPU.numCPU b.c.req = 1 ∧
        b.tests.map TestResult.answer = [⟨.accepted, [], [], 0, 0⟩] ∧
        a.tests.map TestResult.answer = b.tests.map TestResult.answer := by
  obtain ⟨a⟩ := finished_parallel 0o755 (.inl rfl)
  obtain ⟨b⟩ := finished_sequential 0o755 (.inl rfl)
  have hpar : effectiveParallel twoCPU.numCPU a.c.req = 2 := by rw [a.req]; rfl
  have hseq : effectiveParallel twoCPU.numCPU b.c.req = 1 := by rw [b.req]; rfl
  have hmodes : (builtTree (dirProgram 0o755) twoCPU.umask a.c.req a.c.lc).ModesKept
      twoCPU.umask := by
    rw [a.req, a.lc]
    exact ⟨rfl, rfl, trivial, trivial⟩
  have hsrc : SourceKept (dirProgram 0o755) twoCPU.umask b.c.req b.c.lc := by
    rw [b.req, b.lc]
    exact sourceKept_dirProgram _ _
  refine ⟨a, b, hpar, hseq, ?_, ?_⟩
  · rw [answers_of_returned List.nodup_nil b.reach b.call hsrc b.pc, b.req, b.lc]
    decide
  · exact (parallel_refines_sequential List.nodup_nil a.reach a.call (by rw [hpar]) a.pc
      b.reach b.call (b.req.trans (by rw [a.req]; rfl)) (b.lc.trans a.lc.symm) hseq b.pc
      (by rw [a.req, a.lc]; exact sourceKept_dirProgram _ _)).2 hmodes

/-- With permissions that the umask takes away, the test in the copy finds
another directory than the one in the template. -/
theorem lost_mode_seen :
    ¬ ∀ ex cfg (s t : St HostState Call) (p q : ℕ) c d m build build' tests tests' err err',
      cfg.leftover.Nodup → (service cfg).machine.Reach (Steady ex cfg p) s →
      s.procs[p]? = some c → effectiveParallel cfg.numCPU c.req ≥ 2 →
      c.run.shared.pc = .returned build tests err →
      (service cfg).machine.Reach (Steady ex cfg q) t → t.procs[q]? = some d →
      d.req = { c.req with maxParallel := m } → d.lc = c.lc →
      effectiveParallel cfg.numCPU d.req = 1 →
      d.run.shared.pc = .returned build' tests' err' →
      SourceKept ex cfg.umask c.req c.lc →
      tests.map TestResult.answer = tests'.map TestResult.answer := by
  intro hall
  obtain ⟨a⟩ := finished_parallel 0o777 (.inr rfl)
  obtain ⟨b⟩ := finished_sequential 0o777 (.inr rfl)
  have hsrc : SourceKept (dirProgram 0o777) twoCPU.umask a.c.req a.c.lc := by
    rw [a.req, a.lc]
    exact sourceKept_dirProgram _ _
  have hsrc' : SourceKept (dirProgram 0o777) twoCPU.umask b.c.req b.c.lc := by
    rw [b.req, b.lc]
    exact sourceKept_dirProgram _ _
  have heq := hall _ _ _ _ _ _ _ _ none _ _ _ _ _ _ List.nodup_nil a.reach a.call
    (by rw [a.req]; decide) a.pc b.reach b.call (b.req.trans (by rw [a.req]; rfl))
    (b.lc.trans a.lc.symm) (by rw [b.req]; rfl) b.pc hsrc
  rw [answers_of_returned List.nodup_nil a.reach a.call hsrc a.pc,
    answers_of_returned List.nodup_nil b.reach b.call hsrc' b.pc, a.req, a.lc, b.req,
    b.lc] at heq
  exact absurd heq (by decide)

end Goboxd.Api
