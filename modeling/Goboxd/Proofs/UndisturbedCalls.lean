import Goboxd.Proofs.AppDirs
import Goboxd.Proofs.UidBudget
import Goboxd.Runner.ExecFacts

/-!
# A call that nothing disturbs

A program in a jail is taken to be a function of the contents of the app dir, of
its command, its limits and its input. A call is undisturbed when its client
stays, when no operation of the system fails for it, and when every exec is the
program's. What the other calls do is theirs.

Then the build leaves the same tree in every run of a request, because no step of
the others touches the call's jails. The sequential loop runs each test in that
tree. A goroutine runs its test in a copy of it, which it gets once its own jail
is made; the source file that `newJail` put there gives way to the template's.
The invariant says what each app dir holds at each place of the call, and that
every test in the log was run in the tree of its mode.
-/

namespace Goboxd.Runner

open Go Models Config Family

/-- What a program in a jail leaves behind and what it makes of the app dir,
given the contents of the app dir, the command, the limits, the input and the
cap on its output. -/
abbrev Exec :=
  Entries → List GoString → ExecLimits → GoString → Int → ExecFacts × Entries

section

variable (ex : Exec) (umask : Mode) (req : RunRequest) (lc : LanguageConfig)

def sourceTree : Entries := sourceDir umask 0 (resolveSourceName req lc) req.source

def buildOutcome (tree : Entries) : ExecFacts × Entries :=
  ex tree (buildCmdArgs req lc) (stageLimits lc.buildLimits req.build) []
    (outputCap req)

/-- The tests are run. -/
def BuildSucceeds : Prop :=
  lc.buildCmd = [] ∨ (buildOutcome ex req lc (sourceTree umask req lc)).1.built = true

instance : Decidable (BuildSucceeds ex umask req lc) := instDecidableOr

/-- The contents of the template's app dir when the tests are run. -/
def builtTree : Entries :=
  if lc.buildCmd = [] then sourceTree umask req lc
  else (buildOutcome ex req lc (sourceTree umask req lc)).2.contents

/-- The contents of a copy of it. -/
def copiedTree : Entries := ((builtTree ex umask req lc).seeded umask 0).contents

def testFacts (tree : Entries) (tc : TestCase) : ExecFacts :=
  (ex tree (runCmdArgs req lc) (stageLimits lc.runLimits req.run) tc.stdin
    (outputCap req)).1

def testAnswer (tree : Entries) (tc : TestCase) : TestAnswer :=
  (testFacts ex req lc tree tc).answer (stageLimits lc.runLimits req.run)
    tc.expectedStdout

/-- The answers to all tests, each run in `tree`. -/
def answers (tree : Entries) : List TestAnswer :=
  if BuildSucceeds ex umask req lc then req.tests.map (testAnswer ex req lc tree)
  else []

/-- The tree that the tests are run in. -/
def ranTree (numCPU : Int) : Entries :=
  if effectiveParallel numCPU req > 1 then copiedTree ex umask req lc
  else builtTree ex umask req lc

/-- The build left the source file in place. -/
def SourceKept : Prop :=
  (builtTree ex umask req lc).hasFile (resolveSourceName req lc)

end

end Goboxd.Runner

namespace Goboxd.Api

open Go Models Config Family Runner Uidpool

section

variable (ex : Exec) (cfg : ServiceConfig)

/-- The exec of a test is the program's, and it leaves the app dir as it was. -/
def Call.testExec (disk : Disk) (c : Call) (i : ℕ) (w : TestWorld) (tc : TestCase)
    (j : JailFields) (tree : AppTree) : Bool :=
  w.facts tc c.lc j c.req = testFacts ex c.req c.lc (disk.app (c.name i)).contents tc ∧
    tree.entries.contents = (disk.app (c.name i)).contents

/-- The exec of the build is the program's, and leaves the program's tree. -/
def Call.buildExec (disk : Disk) (c : Call) (w : BuildWorld) (j : JailFields)
    (tree : AppTree) : Bool :=
  w.facts j c.req c.lc =
      (buildOutcome ex c.req c.lc (disk.app (c.name 0)).contents).1 ∧
    tree.entries.contents =
      (buildOutcome ex c.req c.lc (disk.app (c.name 0)).contents).2.contents

/-- The client stays, no operation of the system fails, and every exec is the
program's. -/
def Call.undisturbed (disk : Disk) (c : Call) : CallAct → Bool
  | .cancel => false
  | .sandbox _ e _ => e.isNone
  | .run (.env (.build w _)) tree =>
      match c.run.shared.pc with
      | .build tmpl => c.buildExec ex disk w tmpl tree
      | _ => true
  | .run (.env (.finish w)) tree =>
      match c.run.shared.pc with
      | .exec tmpl _ tc _ => c.testExec ex disk 0 w tc tmpl tree
      | _ => true
  | .run (.own k (.finish w)) tree =>
      match c.run.procs[k]? with
      | some ⟨_, tc, .exec j _⟩ => c.testExec ex disk (k + 1) w tc j tree
      | _ => true
  | .run (.own k (.seed (some err))) _ =>
      match copyTree cfg.umask
          ((c.sandboxes[k + 1]?.map fun sb => sb.jail.uid).getD 0)
          (disk.app (c.name 0)) (disk.app (c.name (k + 1))) with
      | .error err' => err' = err
      | .ok _ => false
  | _ => true

/-- A step of the call `p` is undisturbed. What the other calls do is theirs. -/
def Undisturbed (p : ℕ) (s : St HostState Call) (a : Act CallAct ServiceEvent) : Prop :=
  ∀ b c, a = .own p b → s.procs[p]? = some c →
    c.undisturbed ex cfg s.shared.disk b = true

/-- A step of the call `p` is undisturbed, and an `Alloc` of it gets a uid. -/
def Steady (p : ℕ) (s : St HostState Call) (a : Act CallAct ServiceEvent) : Prop :=
  Undisturbed ex cfg p s a ∧ ∀ b, a = .own p b → AllocSucceeds cfg s a

/-! ## What holds of an undisturbed call -/

/-- What the app dir of the template jail holds. -/
def TemplateTree (req : RunRequest) (lc : LanguageConfig) (es : Entries) : RunPc → Prop
  | .newJail | .build _ =>
      ∃ uid, es = sourceDir cfg.umask uid (resolveSourceName req lc) req.source
  | .returned .. => True
  | _ => es.Wf ∧ es.contents = builtTree ex cfg.umask req lc

/-- What the app dir of a test's own jail holds. -/
def TestTree (req : RunRequest) (lc : LanguageConfig) (es : Entries) : TestPc → Prop
  | .start | .jailed _ =>
      ∃ uid, es = sourceDir cfg.umask uid (resolveSourceName req lc) req.source
  | .seeded _ | .exec .. => es.contents = copiedTree ex cfg.umask req lc
  | _ => True

/-- The tests are run in one of the two modes if the build succeeded, and not at
all if it did not. -/
def PlaceWf (req : RunRequest) (lc : LanguageConfig) : RunPc → Prop
  | .newJail => True
  | .build _ => lc.buildCmd ≠ []
  | .loop .. =>
      BuildSucceeds ex cfg.umask req lc ∧ ¬ effectiveParallel cfg.numCPU req > 1
  | .test _ i tc =>
      BuildSucceeds ex cfg.umask req lc ∧ ¬ effectiveParallel cfg.numCPU req > 1 ∧
        req.tests[i]? = some tc
  | .exec _ i tc ctxErr =>
      BuildSucceeds ex cfg.umask req lc ∧ ¬ effectiveParallel cfg.numCPU req > 1 ∧
        req.tests[i]? = some tc ∧ ctxErr = none
  | .spawn _ | .acquire .. | .wait =>
      BuildSucceeds ex cfg.umask req lc ∧ effectiveParallel cfg.numCPU req > 1
  | .returned build _ _ => build.status = .ok ↔ BuildSucceeds ex cfg.umask req lc

/-- The test went through `runSingleTest`, and its exec was the program's. -/
def Ran (req : RunRequest) (lc : LanguageConfig) (x : ℕ × Attempt) : Prop :=
  ∃ w j tc, x.2 = .ran w j ∧ req.tests[x.1]? = some tc ∧ w.ctxBefore = none ∧
    w.facts tc lc j req =
      testFacts ex req lc (ranTree ex cfg.umask req lc cfg.numCPU) tc

structure CallRuns (disk : Disk) (c : Call) : Prop where
  calm : c.run.shared.cancelled = false
  place : PlaceWf ex cfg c.req c.lc c.run.shared.pc
  log : ∀ x ∈ c.run.shared.log, Ran ex cfg c.req c.lc x
  started : ∀ (k : ℕ) p j ctxErr, c.run.procs[k]? = some p → p.pc = .exec j ctxErr →
    ctxErr = none
  noErr : ∀ sb ∈ c.sandboxes, sb.jail.err = none
  template : ∀ sb, c.sandboxes[0]? = some sb → sb.jail.pc = .live →
    TemplateTree ex cfg c.req c.lc (disk.app sb.name) c.run.shared.pc
  tests : ∀ (k : ℕ) p sb, c.run.procs[k]? = some p → c.sandboxes[k + 1]? = some sb →
    sb.jail.pc = .live → TestTree ex cfg c.req c.lc (disk.app sb.name) p.pc

end

/-! ## Jails whose operations succeed -/

section

variable {cgActive : Bool} {pool : Pool} {j : Jail} {e : Option GoString}
  {r : Pool × Jail}

theorem jailStep_noErr (h : jailStep cgActive pool j none = some r)
    (herr : j.err = none)
    (ha : j.pc = .alloc → ∃ uid pool', pool.alloc = .ok (uid, pool')) :
    r.2.err = none := by
  unfold jailStep at h
  cases hpc : j.pc <;> rw [hpc] at h <;> simp only [] at h
  case alloc =>
    obtain ⟨uid, pool', hok⟩ := ha hpc
    rw [hok] at h
    cases h
    exact herr
  case gone => cases h
  all_goals
    cases h
    exact herr

theorem chownSource_of_live (h : jailStep cgActive pool j e = some r)
    (hlive : r.2.pc = .live) : j.pc = .chownSource ∧ e = none := by
  unfold jailStep at h
  cases hpc : j.pc <;> rw [hpc] at h <;> simp only [] at h
  case chownSource =>
    cases e with
    | none => exact ⟨rfl, rfl⟩
    | some m => cases h; cases hlive
  case gone => cases h
  case chownDir =>
    split at h <;> cases h
    · cases cgActive <;> cases hlive
    · cases hlive
  case alloc | mkdirTemp | cgMkdir | cgEnable | mkdirApp | chownApp | writeSource =>
    split at h <;> cases h <;> cases hlive
  case releaseUid | chownRelease | chownRemove | cgRemove | live | tdRelease | tdCgroup
      | tdRemove =>
    cases h
    cases hlive

end

section

variable {ex : Exec} {cfg : ServiceConfig} {h : HostState} {c : Call}

/-- A jail that becomes live has the source in its app dir. -/
theorem source_of_live {e : Option GoString} {name srcName source : GoString}
    {sb sb' : Sandbox} {pool : Pool} {disk : Disk}
    (hr : sandboxStep cfg.cgActive cfg.umask srcName source h.pool h.disk sb e name =
      some (pool, disk, sb')) (hlive : sb'.jail.pc = .live) :
    sb.jail.pc = .chownSource ∧
      disk.app sb'.name = sourceDir cfg.umask sb.jail.uid srcName source := by
  obtain ⟨hj, hd⟩ := sandboxStep_some hr
  obtain ⟨hpc, rfl⟩ := chownSource_of_live hj hlive
  unfold diskStep at hd
  rw [hpc] at hd
  obtain ⟨hdisk, hname⟩ := Prod.ext_iff.mp (Option.some.inj hd)
  refine ⟨hpc, ?_⟩
  rw [show disk = h.disk.setApp sb.name _ from hdisk.symm,
    show sb'.name = sb.name from hname.symm]
  exact setApp_app_self ..

/-- What the others do leaves an undisturbed call as it is. -/
theorem CallRuns.frame {disk disk' : Disk} (hw : CallRuns ex cfg disk c)
    (hkeep : ∀ (i : ℕ) sb, c.sandboxes[i]? = some sb → sb.jail.pc = .live →
      disk'.app sb.name = disk.app sb.name) : CallRuns ex cfg disk' c :=
  { hw with
    template := fun sb hi hlive => by
      rw [hkeep 0 sb hi hlive]
      exact hw.template sb hi hlive
    tests := fun k p sb hk hi hlive => by
      rw [hkeep (k + 1) sb hi hlive]
      exact hw.tests k p sb hk hi hlive }

theorem callRuns_start (req : RunRequest) (lc : LanguageConfig) (disk : Disk) :
    CallRuns ex cfg disk (Call.start req lc) where
  calm := rfl
  place := trivial
  log := fun x hx => by cases hx
  started := fun k p j ctxErr hk => by cases hk
  noErr := fun sb hsb => by rw [List.mem_singleton.mp hsb]; rfl
  template := fun sb hi hlive => by cases hi; cases hlive
  tests := fun k p sb hk => by cases hk

/-- After a jail's operation all jails are without an error. -/
theorem noErr_sandbox {i : ℕ} {srcName source name : GoString} {sb sb' : Sandbox}
    {pool : Pool} {disk : Disk} (hold : ∀ sb ∈ c.sandboxes, sb.jail.err = none)
    (hi : c.sandboxes[i]? = some sb)
    (hr : sandboxStep cfg.cgActive cfg.umask srcName source h.pool h.disk sb none name =
      some (pool, disk, sb'))
    (ha : sb.jail.pc = .alloc → ∃ uid pool', h.pool.alloc = .ok (uid, pool')) :
    ∀ x ∈ (c.setSandbox i sb').sandboxes, x.jail.err = none := by
  intro x hx
  obtain ⟨j, hj⟩ := List.mem_iff_getElem?.mp hx
  rcases getElem?_set_cases hj with ⟨-, rfl⟩ | ⟨-, hj⟩
  · exact jailStep_noErr (sandboxStep_some hr).1 (hold sb (List.mem_of_getElem? hi)) ha
  · exact hold x (List.mem_of_getElem? hj)

/-- `ExecuteRun` waits for the template until it is made, or has returned. -/
theorem waits_for_template {sb : Sandbox} (hcw : CallWf cfg c)
    (hi : c.sandboxes[0]? = some sb) (hpc : sb.jail.pc = .chownSource) :
    c.run.shared.pc = .newJail ∨
      ∃ build tests err, c.run.shared.pc = .returned build tests err := by
  have hat := hcw.template sb hi
  rw [hpc] at hat
  cases hrun : c.run.shared.pc with
  | newJail => exact .inl rfl
  | returned build tests err => exact .inr ⟨build, tests, err, rfl⟩
  | build | loop | test | exec | spawn | acquire | wait =>
      rw [hrun] at hat
      cases hat

/-- An operation of one of the call's jails. -/
theorem callRuns_sandbox {i : ℕ} {name : GoString} {sb sb' : Sandbox} {pool : Pool}
    {disk : Disk} (hcw : CallWf cfg c) (hw : CallRuns ex cfg h.disk c)
    (hi : c.sandboxes[i]? = some sb)
    (hr : sandboxStep cfg.cgActive cfg.umask (resolveSourceName c.req c.lc)
      c.req.source h.pool h.disk sb none name = some (pool, disk, sb'))
    (ha : sb.jail.pc = .alloc → ∃ uid pool', h.pool.alloc = .ok (uid, pool'))
    (hkeep : ∀ (j : ℕ) x, c.sandboxes[j]? = some x → x.jail.pc = .live → j ≠ i →
      disk.app x.name = h.disk.app x.name) :
    CallRuns ex cfg disk (c.setSandbox i sb') := by
  refine ⟨hw.calm, hw.place, hw.log, hw.started, noErr_sandbox hw.noErr hi hr ha,
    fun x hx hlive => ?_, fun k p x hk hx hlive => ?_⟩
  · show TemplateTree ex cfg c.req c.lc (disk.app x.name) c.run.shared.pc
    rcases getElem?_set_cases hx with ⟨rfl, rfl⟩ | ⟨hne, hx⟩
    · obtain ⟨hpc, happ⟩ := source_of_live hr hlive
      rw [happ]
      rcases waits_for_template hcw hi hpc with hrun | ⟨_, _, _, hrun⟩
      · rw [hrun]
        exact ⟨_, rfl⟩
      · rw [hrun]
        trivial
    · rw [hkeep 0 x hx hlive hne]
      exact hw.template x hx hlive
  · show TestTree ex cfg c.req c.lc (disk.app x.name) p.pc
    rcases getElem?_set_cases hx with ⟨rfl, rfl⟩ | ⟨hne, hx⟩
    · obtain ⟨hpc, happ⟩ := source_of_live hr hlive
      have hat := hcw.tests k p sb hk hi
      rw [hpc] at hat
      rw [happ]
      cases hrun : p.pc with
      | start => exact ⟨_, rfl⟩
      | stored | released | finished => trivial
      | jailed | seeded | exec =>
          rw [hrun] at hat
          cases hat
    · rw [hkeep (k + 1) x hx hlive hne]
      exact hw.tests k p x hk hx hlive

/-! ## A step of a goroutine -/

theorem setRun_sandboxes (c : Call) (run : St RunState TestProc) :
    (c.setRun run []).sandboxes = c.sandboxes := List.append_nil _

theorem name_eq {i : ℕ} {sb : Sandbox} (hi : c.sandboxes[i]? = some sb) :
    c.name i = sb.name := by
  rw [Call.name, hi]
  rfl

/-- While a goroutine is not finished, the call is in its parallel loop. -/
theorem atTests {k : ℕ} {p : TestProc} (hcw : CallWf cfg c)
    (hw : CallRuns ex cfg h.disk c) (hk : c.run.procs[k]? = some p)
    (hp : p.pc ≠ .finished) :
    effectiveParallel cfg.numCPU c.req > 1 ∧
      ∀ sb, c.sandboxes[0]? = some sb → sb.jail.pc = .live ∧
        (h.disk.app sb.name).Wf ∧
        (h.disk.app sb.name).contents = builtTree ex cfg.umask c.req c.lc := by
  have hne : c.run.procs ≠ [] := by
    intro hnil
    rw [hnil] at hk
    cases hk
  have hphase := phaseWf_of_reachable hcw.run
  have hplace := hw.place
  have htmpl := hw.template
  have hat := hcw.template
  unfold PhaseWf at hphase
  cases hpc : c.run.shared.pc with
  | newJail | build | loop | test | exec =>
      simp only [hpc] at hphase
      exact absurd hphase hne
  | returned =>
      have hret : c.run.shared.pc.isReturned = true := by
        rw [hpc]
        rfl
      exact absurd (finished_of_returned hcw.run hret k p hk) hp
  | spawn | acquire | wait =>
      rw [hpc] at hplace htmpl hat
      exact ⟨hplace.2, fun sb hsb => ⟨hat sb hsb, htmpl sb hsb (hat sb hsb)⟩⟩

theorem jail_not_failed {i : ℕ} {err : GoString}
    (hold : ∀ sb ∈ c.sandboxes, sb.jail.err = none)
    (ha : c.answers cfg i (.error err) = true) : False := by
  unfold Call.answers at ha
  cases hi : c.sandboxes[i]? with
  | none =>
      rw [hi] at ha
      cases ha
  | some sb =>
      rw [hi, Option.any_some, Sandbox.answers, decide_eq_true_eq,
        hold sb (List.mem_of_getElem? hi)] at ha
      cases ha.2

/-- Seeding succeeds, and makes the copy. -/
theorem seed_copies {k : ℕ} {p : TestProc} {j : JailFields} (hcw : CallWf cfg c)
    (hw : CallRuns ex cfg h.disk c) (hsrc : SourceKept ex cfg.umask c.req c.lc)
    (hk : c.run.procs[k]? = some p) (hp : p.pc = .jailed j) (uid : ℤ) :
    ∃ es, copyTree cfg.umask uid (h.disk.app (c.name 0))
        (h.disk.app (c.name (k + 1))) = .ok es ∧
      es.contents = copiedTree ex cfg.umask c.req c.lc := by
  obtain ⟨_, htmpl⟩ := exists_template hcw
  obtain ⟨_, hown⟩ := exists_sandbox hcw hk
  obtain ⟨-, hwf, hcontents⟩ :=
    (atTests hcw hw hk (by rw [hp]; exact TestPc.noConfusion)).2 _ htmpl
  have hat := hcw.tests k p _ hk hown
  have htree := hw.tests k p _ hk hown
  rw [hp] at hat htree
  obtain ⟨uid', hsource⟩ := htree hat
  rw [name_eq htmpl, name_eq hown, hsource]
  refine ⟨_, Entries.copyTree_fresh hwf ?_ (fun _ _ => List.not_mem_nil)
    List.not_mem_nil, ?_⟩
  · exact Entries.hasFile_of_contents (hcontents ▸ hsrc)
  · show (Entries.seeded cfg.umask uid _).contents = _
    rw [Entries.contents_seeded, hcontents]
    rfl

/-- A step of a goroutine that keeps away from the other jails, given what its
own jail holds afterwards. -/
theorem CallRuns.goroutine {k : ℕ} {p' : TestProc} {sh : RunState} {disk : Disk}
    (hw : CallRuns ex cfg h.disk c) (hsame : SamePlace c.run.shared sh)
    (hlog : ∀ x ∈ sh.log, Ran ex cfg c.req c.lc x)
    (hstarted : ∀ j ctxErr, p'.pc = .exec j ctxErr → ctxErr = none)
    (hown : ∀ sb, c.sandboxes[k + 1]? = some sb → sb.jail.pc = .live →
      TestTree ex cfg c.req c.lc (disk.app sb.name) p'.pc)
    (hkeep : ∀ (i : ℕ) sb, c.sandboxes[i]? = some sb → sb.jail.pc = .live →
      i ≠ k + 1 → disk.app sb.name = h.disk.app sb.name) :
    CallRuns ex cfg disk (c.setRun ⟨sh, c.run.procs.set k p'⟩ []) := by
  refine ⟨?_, ?_, hlog, fun q p'' j ctxErr hq hp => ?_, ?_, ?_, ?_⟩
  · exact hsame.cancelled.trans hw.calm
  · show PlaceWf ex cfg c.req c.lc sh.pc
    rw [hsame.pc]
    exact hw.place
  · rcases getElem?_set_cases hq with ⟨-, rfl⟩ | ⟨-, hq⟩
    · exact hstarted j ctxErr hp
    · exact hw.started q p'' j ctxErr hq hp
  · rw [setRun_sandboxes]
    exact hw.noErr
  · rw [setRun_sandboxes]
    intro sb hsb hlive
    show TemplateTree ex cfg c.req c.lc (disk.app sb.name) sh.pc
    rw [hsame.pc, hkeep 0 sb hsb hlive (by omega)]
    exact hw.template sb hsb hlive
  · rw [setRun_sandboxes]
    intro q p'' sb hq hsb hlive
    show TestTree ex cfg c.req c.lc (disk.app sb.name) p''.pc
    rcases getElem?_set_cases hq with ⟨rfl, rfl⟩ | ⟨hne, hq⟩
    · exact hown sb hsb hlive
    · rw [hkeep (q + 1) sb hsb hlive (by omega)]
      exact hw.tests q p'' sb hq hsb hlive

/-- The exec of a goroutine is the program's, in the copy. -/
theorem ran_of_finish {k : ℕ} {p : TestProc} {j : JailFields} {w : TestWorld}
    {tree : AppTree} (hcw : CallWf cfg c) (hw : CallRuns ex cfg h.disk c)
    (hk : c.run.procs[k]? = some p) (hp : p.pc = .exec j w.ctxBefore)
    (hcalm : c.undisturbed ex cfg h.disk (.run (.own k (.finish w)) tree) = true) :
    Ran ex cfg c.req c.lc (p.idx, .ran w j) := by
  obtain ⟨sb, hown⟩ := exists_sandbox hcw hk
  have hat := hcw.tests k p sb hk hown
  have htree := hw.tests k p sb hk hown
  rw [hp] at hat htree
  have hcopied : (h.disk.app sb.name).contents = copiedTree ex cfg.umask c.req c.lc :=
    htree hat
  have hk' : c.run.procs[k]? = some ⟨p.idx, p.tc, .exec j w.ctxBefore⟩ := by
    rw [hk, ← hp]
  simp only [Call.undisturbed, hk'] at hcalm
  have hfacts := (of_decide_eq_true hcalm).1
  have hpar := (atTests hcw hw hk (by rw [hp]; exact TestPc.noConfusion)).1
  have htest := testWf_of_reachable hcw.run k p hk
  refine ⟨w, j, p.tc, rfl, ?_, hw.started k p j _ hk hp, ?_⟩
  · rw [htest.idx]
    exact htest.tc
  · rw [hfacts, name_eq hown, hcopied, ranTree, if_pos hpar]

theorem callRuns_own {k : ℕ} {a : TestAct} {tree : AppTree}
    {run : St RunState TestProc} {disk : Disk} (hcw : CallWf cfg c)
    (hw : CallRuns ex cfg h.disk c) (hsrc : SourceKept ex cfg.umask c.req c.lc)
    (hmay : c.mayRun cfg (.own k a) = true)
    (hrun : (c.machine cfg).step c.run (.own k a) = some run)
    (hdisk : c.diskAfter cfg h.disk tree (.own k a) = some disk)
    (hcalm : c.undisturbed ex cfg h.disk (.run (.own k a) tree) = true)
    (hkeep : ∀ (i : ℕ) sb, c.sandboxes[i]? = some sb → sb.jail.pc = .live →
      runTouches (.own k a) ≠ some i → disk.app sb.name = h.disk.app sb.name) :
    CallRuns ex cfg disk (c.setRun run []) := by
  obtain ⟨p, r, hk, hr, rfl⟩ := step_own.mp hrun
  have hmove : TestMove c.req c.lc c.run.shared p a r := testStep_move hr
  have hsame := samePlace_of_move hmove
  have hother : ∀ (i : ℕ) sb, c.sandboxes[i]? = some sb → sb.jail.pc = .live →
      i ≠ k + 1 → disk.app sb.name = h.disk.app sb.name :=
    fun i sb hi hlive hne => hkeep i sb hi hlive fun ht => hne (runTouches_own ht)
  have htree := hw.tests k p
  cases hmove with
  | noJail => exact (jail_not_failed hw.noErr hmay).elim
  | noSeed hp =>
      obtain ⟨es, hok, -⟩ := seed_copies hcw hw hsrc hk hp
        ((c.sandboxes[k + 1]?.map fun sb => sb.jail.uid).getD 0)
      simp only [Call.undisturbed, hok] at hcalm
      cases hcalm
  | jailed hp =>
      rw [hp] at htree
      cases hdisk
      exact hw.goroutine hsame hw.log (fun j ctxErr hj => by cases hj)
        (fun sb hsb hlive => htree sb hk hsb hlive) hother
  | @seeded j hp =>
      -- the copy takes the place of the source
      obtain ⟨es, hok, hcontents⟩ := seed_copies hcw hw hsrc hk hp
        ((c.sandboxes[k + 1]?.map fun sb => sb.jail.uid).getD 0)
      simp only [Call.diskAfter, hok] at hdisk
      cases hdisk
      refine hw.goroutine hsame hw.log (fun j ctxErr hj => by cases hj)
        (fun sb hsb _ => ?_) hother
      rw [name_eq hsb, setApp_app_self]
      exact hcontents
  | begin hp =>
      rw [hp] at htree
      cases hdisk
      refine hw.goroutine hsame hw.log (fun j ctxErr hj => ?_)
        (fun sb hsb hlive => htree sb hk hsb hlive) hother
      cases hj
      rw [RunState.ctxErr, hw.calm]
      rfl
  | @finish j w hp =>
      refine hw.goroutine hsame (fun x hx => ?_) (fun j ctxErr hj => by cases hj)
        (fun _ _ _ => trivial) hother
      rcases List.mem_append.mp hx with hx | hx
      · exact hw.log x hx
      · rw [List.mem_singleton.mp hx]
        exact ran_of_finish hcw hw hk hp hcalm
  | release | done =>
      exact hw.goroutine hsame hw.log (fun j ctxErr hj => by cases hj)
        (fun _ _ _ => trivial) hother

/-! ## A step of the call itself -/

/-- The tests are started if the build succeeded, and else the call returns with
a build that is not ok. -/
theorem finishBuild_cases {req : RunRequest} {lc : LanguageConfig} {tmpl : JailFields}
    {w : BuildWorld} (numCPU : ℤ) (sh : RunState) (build : BuildResult)
    (hb : build.status = (runBuild w tmpl req lc).1.status) :
    ((w.facts tmpl req lc).built = true ∧
        sh.finishBuild numCPU req tmpl build (runBuild w tmpl req lc).2 =
          sh.startTests numCPU req tmpl build) ∨
      ((w.facts tmpl req lc).built ≠ true ∧ build.status ≠ .ok ∧
        ∃ err, sh.finishBuild numCPU req tmpl build (runBuild w tmpl req lc).2 =
          sh.setPc (.returned build [] err)) := by
  have hiff : _ ↔ (w.facts tmpl req lc).built = true := runBuild_ok_iff
  rw [← hb] at hiff
  unfold RunState.finishBuild
  split
  · next herr =>
      have hstatus := runBuild_err.2 herr
      rw [← hb] at hstatus
      refine .inr ⟨fun hok => herr (hiff.mpr hok).1, ?_, _, rfl⟩
      rw [hstatus]
      exact BuildStatus.noConfusion
  · next herr =>
      split
      · next hne => exact .inr ⟨fun hok => hne (hiff.mpr hok).2, hne, _, rfl⟩
      · next hok => exact .inl ⟨hiff.mp ⟨not_not.mp herr, not_not.mp hok⟩, rfl⟩

theorem place_startTests {req : RunRequest} {lc : LanguageConfig} (sh : RunState)
    (tmpl : JailFields) (build : BuildResult)
    (hb : BuildSucceeds ex cfg.umask req lc) :
    PlaceWf ex cfg req lc (sh.startTests cfg.numCPU req tmpl build).pc := by
  unfold RunState.startTests
  split
  · next hpar => exact ⟨hb, hpar⟩
  · next hpar => exact ⟨hb, hpar⟩

theorem template_startTests {req : RunRequest} {lc : LanguageConfig} {es : Entries}
    (sh : RunState) (tmpl : JailFields) (build : BuildResult) (hwf : es.Wf)
    (hes : es.contents = builtTree ex cfg.umask req lc) :
    TemplateTree ex cfg req lc es (sh.startTests cfg.numCPU req tmpl build).pc := by
  unfold RunState.startTests
  split <;> exact ⟨hwf, hes⟩

/-- A step of the call that starts no goroutine, and leaves the jails of those
there are alone. -/
theorem CallRuns.move {sh : RunState} {disk : Disk} (hw : CallRuns ex cfg h.disk c)
    (hcalm : sh.cancelled = false) (hplace : PlaceWf ex cfg c.req c.lc sh.pc)
    (hlog : ∀ x ∈ sh.log, Ran ex cfg c.req c.lc x)
    (htmpl : ∀ sb, c.sandboxes[0]? = some sb → sb.jail.pc = .live →
      TemplateTree ex cfg c.req c.lc (disk.app sb.name) sh.pc)
    (hkeep : ∀ (k : ℕ) sb, c.sandboxes[k + 1]? = some sb → sb.jail.pc = .live →
      disk.app sb.name = h.disk.app sb.name) :
    CallRuns ex cfg disk (c.setRun ⟨sh, c.run.procs ++ []⟩ []) := by
  rw [List.append_nil]
  refine ⟨hcalm, hplace, hlog, hw.started, ?_, ?_, ?_⟩
  · rw [setRun_sandboxes]
    exact hw.noErr
  · rw [setRun_sandboxes]
    exact htmpl
  · rw [setRun_sandboxes]
    intro k p sb hk hsb hlive
    rw [hkeep k sb hsb hlive]
    exact hw.tests k p sb hk hsb hlive

/-- The build's exec was the program's, in the source. -/
theorem build_of_source {tmpl : JailFields} {w : BuildWorld} {tree : AppTree} {sb : Sandbox}
    {uid : ℤ} (hsb : c.sandboxes[0]? = some sb)
    (hsource : h.disk.app sb.name =
      sourceDir cfg.umask uid (resolveSourceName c.req c.lc) c.req.source)
    (hbuild : c.lc.buildCmd ≠ [])
    (hx : c.buildExec ex h.disk w tmpl tree = true) :
    (BuildSucceeds ex cfg.umask c.req c.lc ↔
        (w.facts tmpl c.req c.lc).built = true) ∧
      tree.entries.contents = builtTree ex cfg.umask c.req c.lc := by
  obtain ⟨hfacts, htree⟩ := of_decide_eq_true hx
  have hcontents : (h.disk.app (c.name 0)).contents =
      sourceTree cfg.umask c.req c.lc := by
    rw [name_eq hsb, hsource]
    rfl
  rw [hcontents] at hfacts htree
  refine ⟨?_, ?_⟩
  · rw [BuildSucceeds, hfacts]
    exact or_iff_right hbuild
  · rw [htree, builtTree, if_neg hbuild]

/-- After the build the tests are run if it succeeded, and the template holds
what it left. -/
theorem callRuns_build {tmpl : JailFields} {w : BuildWorld} {durationMs : ℤ}
    {tree : AppTree} {disk : Disk} (hcw : CallWf cfg c) (hw : CallRuns ex cfg h.disk c)
    (hp : c.run.shared.pc = .build tmpl)
    (hdisk : c.diskAfter cfg h.disk tree (.env (.build w durationMs)) = some disk)
    (hcalm : c.undisturbed ex cfg h.disk (.run (.env (.build w durationMs)) tree) = true)
    (hother : ∀ (k : ℕ) sb, c.sandboxes[k + 1]? = some sb → sb.jail.pc = .live →
      disk.app sb.name = h.disk.app sb.name) :
    CallRuns ex cfg disk (c.setRun ⟨c.run.shared.finishBuild cfg.numCPU c.req tmpl
      { (runBuild w tmpl c.req c.lc).1 with durationMs := durationMs }
      (runBuild w tmpl c.req c.lc).2, c.run.procs ++ []⟩ []) := by
  have hplace := hw.place
  have htmpl := hw.template
  obtain ⟨_, hsb⟩ := exists_template hcw
  have hlive := hcw.template _ hsb
  rw [hp] at hplace htmpl hlive
  simp only [Call.undisturbed, hp] at hcalm
  obtain ⟨uid, hsource⟩ := htmpl _ hsb hlive
  obtain ⟨hsucc, htree⟩ := build_of_source hsb hsource hplace hcalm
  have happ : ∀ sb, c.sandboxes[0]? = some sb → disk.app sb.name = tree.entries := by
    intro sb hi
    cases hdisk
    rw [name_eq hi, setApp_app_self]
  have hcases := finishBuild_cases cfg.numCPU c.run.shared
    { (runBuild w tmpl c.req c.lc).1 with durationMs := durationMs }
    (show _ = (runBuild w tmpl c.req c.lc).1.status from rfl)
  rcases hcases with ⟨hok, heq⟩ | ⟨hbad, hstatus, err, heq⟩
  · rw [heq]
    obtain ⟨-, hcalm', hlog, -⟩ := startTests_cases cfg.numCPU c.req c.run.shared
      tmpl { (runBuild w tmpl c.req c.lc).1 with durationMs := durationMs }
    refine hw.move (hcalm'.trans hw.calm) (place_startTests _ _ _ (hsucc.mpr hok))
      ?_ (fun sb hi _ => ?_) hother
    · rw [hlog]
      exact hw.log
    · rw [happ sb hi]
      exact template_startTests _ _ _ tree.wf htree
  · rw [heq]
    refine hw.move hw.calm ?_ hw.log (fun _ _ _ => trivial) hother
    exact ⟨fun hs => absurd hs hstatus, fun hb => absurd (hsucc.mp hb) hbad⟩

/-- A test of the sequential loop finds the build's tree, and leaves it for the
next one. -/
theorem callRuns_finish {tmpl : JailFields} {i : ℕ} {tc : TestCase} {w : TestWorld}
    {tree : AppTree} {disk : Disk} (hcw : CallWf cfg c) (hw : CallRuns ex cfg h.disk c)
    (hp : c.run.shared.pc = .exec tmpl i tc w.ctxBefore)
    (hdisk : c.diskAfter cfg h.disk tree (.env (.finish w)) = some disk)
    (hcalm : c.undisturbed ex cfg h.disk (.run (.env (.finish w)) tree) = true)
    (hother : ∀ (k : ℕ) sb, c.sandboxes[k + 1]? = some sb → sb.jail.pc = .live →
      disk.app sb.name = h.disk.app sb.name) :
    CallRuns ex cfg disk (c.setRun
      ⟨c.run.shared.append c.req c.lc tmpl i tc (.ran w tmpl), c.run.procs ++ []⟩ []) := by
  have hplace := hw.place
  have htmpl := hw.template
  obtain ⟨_, hsb⟩ := exists_template hcw
  have hlive := hcw.template _ hsb
  rw [hp] at hplace htmpl hlive
  obtain ⟨hsucc, hseq, htc, hbefore⟩ := hplace
  simp only [Call.undisturbed, hp] at hcalm
  obtain ⟨hfacts, htree⟩ := of_decide_eq_true hcalm
  obtain ⟨-, hbuilt⟩ := htmpl _ hsb hlive
  rw [name_eq hsb, hbuilt] at hfacts htree
  refine hw.move hw.calm ⟨hsucc, hseq⟩ (fun x hx => ?_) (fun sb hi _ => ?_) hother
  · rcases List.mem_append.mp hx with hx | hx
    · exact hw.log x hx
    · obtain rfl := List.mem_singleton.mp hx
      refine ⟨w, tmpl, tc, rfl, htc, hbefore, ?_⟩
      rw [hfacts, ranTree, if_neg hseq]
  · cases hdisk
    rw [name_eq hi, setApp_app_self]
    exact ⟨tree.wf, htree⟩

/-- A goroutine starts without a jail. -/
theorem callRuns_spawn {sh : RunState} {i : ℕ} {tc : TestCase} (hcw : CallWf cfg c)
    (hw : CallRuns ex cfg h.disk c) (hcalm : sh.cancelled = false)
    (hplace : PlaceWf ex cfg c.req c.lc sh.pc)
    (hlog : ∀ x ∈ sh.log, Ran ex cfg c.req c.lc x)
    (htmpl : ∀ sb, c.sandboxes[0]? = some sb → sb.jail.pc = .live →
      TemplateTree ex cfg c.req c.lc (h.disk.app sb.name) sh.pc) :
    CallRuns ex cfg h.disk
      (c.setRun ⟨sh, c.run.procs ++ [⟨i, tc, .start⟩]⟩ [.fresh]) := by
  have hlen := List.length_pos_of_ne_nil (sandboxes_ne_nil hcw)
  refine ⟨hcalm, hplace, hlog, fun k p j ctxErr hk hpc => ?_, fun sb hsb => ?_,
    fun sb hsb hlive => ?_, fun k p sb hk hsb hlive => ?_⟩
  · rcases getElem?_append_cases hk with hk | ⟨m, -, hm⟩
    · exact hw.started k p j ctxErr hk hpc
    · cases m with
      | zero => cases hm; cases hpc
      | succ m => cases hm
  · rcases List.mem_append.mp hsb with hsb | hsb
    · exact hw.noErr sb hsb
    · rw [List.mem_singleton.mp hsb]
      rfl
  · have hsb' : c.sandboxes[0]? = some sb := by
      rw [← hsb]
      exact (List.getElem?_append_left hlen).symm
    exact htmpl sb hsb' hlive
  · rcases getElem?_append_cases hsb with hsb | ⟨m, -, hm⟩
    · obtain ⟨hlt, -⟩ := List.getElem?_eq_some_iff.mp hsb
      have hk' : c.run.procs[k]? = some p := by
        rw [← hk]
        exact (List.getElem?_append_left (by have := hcw.size; omega)).symm
      exact hw.tests k p sb hk' hsb hlive
    · -- the new jail is not made yet
      cases m with
      | zero => cases hm; cases hlive
      | succ m => cases hm

theorem callRuns_env {e : RunEvent} {tree : AppTree} {run : St RunState TestProc}
    {disk : Disk} (hcw : CallWf cfg c) (hw : CallRuns ex cfg h.disk c)
    (hmay : c.mayRun cfg (.env e) = true)
    (hrun : (c.machine cfg).step c.run (.env e) = some run)
    (hdisk : c.diskAfter cfg h.disk tree (.env e) = some disk)
    (hcalm : c.undisturbed ex cfg h.disk (.run (.env e) tree) = true)
    (hkeep : ∀ (i : ℕ) sb, c.sandboxes[i]? = some sb → sb.jail.pc = .live →
      runTouches (.env e) ≠ some i → disk.app sb.name = h.disk.app sb.name) :
    CallRuns ex cfg disk (c.setRun run (spawned (.env e))) := by
  obtain ⟨r, hr, rfl⟩ := step_env.mp hrun
  have hmove : RunMove cfg.numCPU c.req c.lc c.run.shared e r := runEvent_move hr
  have hother : ∀ (k : ℕ) sb, c.sandboxes[k + 1]? = some sb → sb.jail.pc = .live →
      disk.app sb.name = h.disk.app sb.name :=
    fun k sb hi hlive => hkeep (k + 1) sb hi hlive fun ht => by
      have hzero := runTouches_env ht
      omega
  have hplace := hw.place
  have htmpl := hw.template
  have hprog := progressWf_of_reachable hcw.run
  have hphase := phaseWf_of_reachable hcw.run
  unfold ProgressWf at hprog
  unfold PhaseWf at hphase
  cases hmove with
  | cancel => cases hmay
  | jailFails =>
      rw [Call.mayRun, Bool.and_eq_true] at hmay
      exact (jail_not_failed hw.noErr hmay.2).elim
  | @compiled tmpl hp hb =>
      rw [hp] at htmpl
      cases hdisk
      exact hw.move hw.calm hb hw.log htmpl hother
  | @interpreted tmpl hp hb =>
      rw [hp] at htmpl
      cases hdisk
      obtain ⟨-, hcalm', hlog, -⟩ :=
        startTests_cases cfg.numCPU c.req c.run.shared tmpl buildSkipped
      refine hw.move (hcalm'.trans hw.calm) (place_startTests _ _ _ (.inl hb)) ?_
        (fun sb hi hlive => ?_) hother
      · rw [hlog]
        exact hw.log
      · obtain ⟨uid, hes⟩ := htmpl sb hi hlive
        rw [hes]
        refine template_startTests _ _ _ ⟨List.not_mem_nil, trivial⟩ ?_
        rw [builtTree, if_pos hb]
        rfl
  | build hp => exact callRuns_build hcw hw hp hdisk hcalm hother
  | loopEnds hp =>
      simp only [hp] at hprog
      rw [hp] at hplace
      refine hw.move hw.calm ?_ hw.log (fun _ _ _ => trivial) hother
      exact ⟨fun _ => hplace.1, fun _ => hprog.1⟩
  | loopNext hp htc =>
      rw [hp] at hplace htmpl
      cases hdisk
      exact hw.move hw.calm ⟨hplace.1, hplace.2, htc⟩ hw.log htmpl hother
  | spawnEnds hp | spawnNext hp =>
      rw [hp] at hplace htmpl
      cases hdisk
      exact hw.move hw.calm hplace hw.log htmpl hother
  | begin hp =>
      rw [hp] at hplace htmpl
      cases hdisk
      refine hw.move hw.calm ⟨hplace.1, hplace.2.1, hplace.2.2, ?_⟩ hw.log htmpl hother
      rw [RunState.ctxErr, hw.calm]
      rfl
  | finish hp => exact callRuns_finish hcw hw hp hdisk hcalm hother
  | acquire hp =>
      rw [hp] at hplace htmpl
      cases hdisk
      exact callRuns_spawn hcw hw hw.calm hplace hw.log htmpl
  | wait hp =>
      simp only [hp] at hphase
      rw [hp] at hplace
      refine hw.move hw.calm ?_ hw.log (fun _ _ _ => trivial) hother
      exact ⟨fun _ => hplace.1, fun _ => hphase.1⟩

end

section

variable {ex : Exec} {cfg : ServiceConfig} {p : ℕ} {s t : St HostState Call}

/-! ## Whole runs -/

/-- What is in a live jail's app dir stays there, unless the step is that jail's. -/
theorem live_app_kept {G : St HostState Call → Act CallAct ServiceEvent → Prop}
    {q i : ℕ} {c d : Call} {a : CallAct} {r : HostState × Call} {sb : Sandbox}
    (hn : cfg.leftover.Nodup) (hr : (service cfg).machine.Reach G s)
    (hd : s.procs[q]? = some d) (hs : callStep cfg s.shared d a = some r)
    (hc : s.procs[p]? = some c) (hi : c.sandboxes[i]? = some sb)
    (hlive : sb.jail.pc = .live) (hne : q ≠ p ∨ a.touches ≠ some i) :
    r.1.disk.app sb.name = s.shared.disk.app sb.name := by
  have hwf := jailWf_of_reachable hr p c hc sb (List.mem_of_getElem? hi)
  exact app_kept hn hr hd (callStep_move hs) hc hi (dir_of_live hwf hlive) hne

/-- One step of the call. -/
theorem callRuns_step {c : Call} {a : CallAct} {r : HostState × Call}
    (hn : cfg.leftover.Nodup) (hr : (service cfg).machine.Reach (Steady ex cfg p) s)
    (hG : Steady ex cfg p s (.own p a)) (hc : s.procs[p]? = some c)
    (hs : callStep cfg s.shared c a = some r)
    (hsrc : SourceKept ex cfg.umask c.req c.lc)
    (hw : CallRuns ex cfg s.shared.disk c) : CallRuns ex cfg r.1.disk r.2 := by
  have hcw := callWf_of_reachable hr.reachable p c hc
  have hmove := callStep_move hs
  have hcalm : c.undisturbed ex cfg s.shared.disk a = true := hG.1 a c rfl hc
  have hkeep : ∀ (i : ℕ) sb, c.sandboxes[i]? = some sb → sb.jail.pc = .live →
      a.touches ≠ some i → r.1.disk.app sb.name = s.shared.disk.app sb.name :=
    fun i sb hi hlive hne => live_app_kept hn hr hc hs hc hi hlive (.inr hne)
  have halloc := hG.2 a rfl
  cases hmove with
  | gate =>
      exact ⟨hw.calm, hw.place, hw.log, hw.started, hw.noErr, hw.template, hw.tests⟩
  | cancel => cases hcalm
  | @sandbox i e name sb sb' pool disk hi hmay hstep =>
      obtain rfl : e = none := Option.isNone_iff_eq_none.mp hcalm
      refine callRuns_sandbox hcw hw hi hstep (fun hpc => ?_) fun j x hj hlive hne =>
        hkeep j x hj hlive fun hji => hne (Option.some.inj hji).symm
      exact halloc _ sb none (step_own.mpr ⟨c, _, hc, hs, rfl⟩)
        ⟨p, i, name, c, rfl, hc, hi⟩ hpc
  | @run b tree run disk hmay hrun hdisk =>
      cases b with
      | own k b => exact callRuns_own hcw hw hsrc hmay hrun hdisk hcalm hkeep
      | env e => exact callRuns_env hcw hw hmay hrun hdisk hcalm hkeep

/-- The request and its language stay what they were. -/
theorem request_kept {c : Call} {h : HostState} {a : CallAct} {r : HostState × Call}
    (hmove : CallMove cfg h c a r) : r.2.req = c.req ∧ r.2.lc = c.lc := by
  cases hmove <;> exact ⟨rfl, rfl⟩

/-- In a steady run, the call is in every state what an undisturbed call is. -/
theorem callRuns_of_reach (hn : cfg.leftover.Nodup)
    (hr : (service cfg).machine.Reach (Steady ex cfg p) s) :
    Each (fun h q c => q = p → SourceKept ex cfg.umask c.req c.lc →
      CallRuns ex cfg h.disk c) s := by
  refine Family.each ?_ ?_ ?_ ?_ hr
  · intro s q a c r hr hw hG hc hs hq hsrc
    subst hq
    obtain ⟨hreq, hlc⟩ := request_kept (callStep_move hs)
    rw [hreq, hlc] at hsrc
    exact callRuns_step hn hr hG hc hs hsrc (hw q c hc rfl hsrc)
  · intro s q a d r i c hr hw hG hd hs hne hc hip hsrc
    exact (hw i c hc hip hsrc).frame fun j sb hj hlive =>
      live_app_kept hn hr hd hs hc hj hlive (.inl hne.symm)
  · intro s e r q c _ hw _ he hc hq hsrc
    refine (hw q c hc hq hsrc).frame fun j sb _ _ => ?_
    cases e <;> cases he <;> rfl
  · intro s e r k c _ _ he hk _ _
    cases e with
    | call req lc =>
        cases he
        cases k with
        | zero => cases hk; exact callRuns_start req lc _
        | succ k => cases hk
    | stop =>
        cases he
        cases hk

end

end Goboxd.Api
