import Goboxd.Proofs.ParallelRefines

/-!
# Tests that share the template

The sequential loop runs the tests of a request one after the other in the app
dir of the template, and what a test's program makes of the app dir is what the
next one finds. Here the programs may do to it whatever they like.

A test's answer is then a function of the request and of the tree that the
earlier tests left behind, which is a fold over them that begins with the built
tree. Had the test been the only one, its program would have found the built
tree itself. So the earlier tests matter exactly as far as its program tells the
two trees apart, and for a program that looks at everything they matter as soon
as the trees differ.
-/

namespace Goboxd.Runner

open Go Models Config Family

section

variable (ex : Exec) (umask : Mode) (req : RunRequest) (lc : LanguageConfig)

/-- What a test leaves of the app dir. -/
def treeAfter (tree : Entries) (tc : TestCase) : Entries :=
  (ex tree (runCmdArgs req lc) (stageLimits lc.runLimits req.run) tc.stdin
    (outputCap req)).2.contents

/-- What test `i` of the sequential loop finds in the app dir. -/
def treeBefore (i : ℕ) : Entries :=
  (req.tests.take i).foldl (treeAfter ex req lc) (builtTree ex umask req lc)

/-- If the tests are run, test `i` answers in the tree that the earlier tests left
what it answers in the built one. -/
def AnswersAlone (i : ℕ) (tc : TestCase) : Prop :=
  BuildSucceeds ex umask req lc →
    testAnswer ex req lc (treeBefore ex umask req lc i) tc =
      testAnswer ex req lc (builtTree ex umask req lc) tc

end

section

variable {ex ex' : Exec} {umask : Mode} {req : RunRequest} {lc : LanguageConfig}

theorem treeBefore_succ {i : ℕ} {tc : TestCase} (htc : req.tests[i]? = some tc) :
    treeBefore ex umask req lc (i + 1) =
      treeAfter ex req lc (treeBefore ex umask req lc i) tc := by
  unfold treeBefore
  rw [List.take_add_one, htc, List.foldl_append]
  rfl

/-- Tests that leave the built tree as it is leave it to every test. -/
theorem treeBefore_of_kept {i : ℕ}
    (hkept : ∀ tc ∈ req.tests.take i,
      treeAfter ex req lc (builtTree ex umask req lc) tc = builtTree ex umask req lc) :
    treeBefore ex umask req lc i = builtTree ex umask req lc := by
  unfold treeBefore
  generalize req.tests.take i = earlier at hkept
  induction earlier with
  | nil => rfl
  | cons tc earlier ih =>
      rw [List.foldl_cons, hkept tc List.mem_cons_self]
      exact ih fun tc' h => hkept tc' (List.mem_cons_of_mem _ h)

/-- Programs that do the same to the app dir, and build alike. -/
structure SameEffects (ex ex' : Exec) : Prop where
  left : ∀ tree cmd lim stdin cap,
    (ex' tree cmd lim stdin cap).2 = (ex tree cmd lim stdin cap).2
  built : ∀ tree cmd lim stdin cap,
    (ex' tree cmd lim stdin cap).1.built = (ex tree cmd lim stdin cap).1.built

theorem SameEffects.builtTree (h : SameEffects ex ex') :
    builtTree ex' umask req lc = builtTree ex umask req lc := by
  unfold Runner.builtTree buildOutcome
  rw [h.left]

theorem SameEffects.treeBefore (h : SameEffects ex ex') (i : ℕ) :
    treeBefore ex' umask req lc i = treeBefore ex umask req lc i := by
  have hafter : treeAfter ex' req lc = treeAfter ex req lc := by
    funext tree tc
    unfold treeAfter
    rw [h.left]
  unfold Runner.treeBefore
  rw [hafter, h.builtTree]

theorem SameEffects.buildSucceeds (h : SameEffects ex ex') :
    BuildSucceeds ex' umask req lc ↔ BuildSucceeds ex umask req lc := by
  unfold BuildSucceeds buildOutcome
  rw [h.built]

/-- The program that does what `ex` does, and prints whether it found `tree`. -/
def Exec.watching (ex : Exec) (tree : Entries) : Exec :=
  fun found cmd lim stdin cap =>
    ({ (ex found cmd lim stdin cap).1 with
        stdout := if found = tree then [] else str "other" },
      (ex found cmd lim stdin cap).2)

theorem sameEffects_watching (ex : Exec) (tree : Entries) :
    SameEffects ex (ex.watching tree) :=
  ⟨fun _ _ _ _ _ => rfl, fun _ _ _ _ _ => rfl⟩

theorem answer_stdout (f : ExecFacts) (lim : ExecLimits) (expected : GoString) :
    (f.answer lim expected).stdout = f.stdout := by
  unfold ExecFacts.answer
  split <;> rfl

/-- Whatever the programs print, test `i` answers as if it were alone, exactly when
the build fails or the earlier tests leave the tree that the build left. -/
theorem answersAlone_all_iff {i : ℕ} (tc : TestCase) :
    (∀ ex', SameEffects ex ex' → AnswersAlone ex' umask req lc i tc) ↔
      (BuildSucceeds ex umask req lc →
        treeBefore ex umask req lc i = builtTree ex umask req lc) := by
  constructor
  · intro hall hb
    have hsame := sameEffects_watching ex (builtTree ex umask req lc)
    have heq := congrArg TestAnswer.stdout
      (hall _ hsame (hsame.buildSucceeds.mpr hb))
    rw [testAnswer, testAnswer, answer_stdout, answer_stdout, hsame.treeBefore,
      hsame.builtTree] at heq
    by_contra hne
    simp only [testFacts, Exec.watching, if_neg hne, if_true] at heq
    cases heq
  · intro hkept ex' hsame hb
    rw [hsame.treeBefore, hsame.builtTree, hkept (hsame.buildSucceeds.mp hb)]

end

end Goboxd.Runner

namespace Goboxd.Api

open Go Models Config Family Runner Uidpool

section

variable (ex : Exec) (cfg : ServiceConfig)

/-- The exec of a test in the template is the program's, and leaves the program's
tree. -/
def Call.loopExec (disk : Disk) (c : Call) (w : TestWorld) (tc : TestCase)
    (j : JailFields) (tree : AppTree) : Bool :=
  w.facts tc c.lc j c.req = testFacts ex c.req c.lc (disk.app (c.name 0)).contents tc ∧
    tree.entries.contents = treeAfter ex c.req c.lc (disk.app (c.name 0)).contents tc

/-- The client stays, no operation of the system fails, and every exec in the
template is the program's. -/
def Call.unhindered (disk : Disk) (c : Call) : CallAct → Bool
  | .cancel => false
  | .sandbox _ e _ => e.isNone
  | .run (.env (.build w _)) tree =>
      match c.run.shared.pc with
      | .build tmpl => c.buildExec ex disk w tmpl tree
      | _ => true
  | .run (.env (.finish w)) tree =>
      match c.run.shared.pc with
      | .exec tmpl _ tc _ => c.loopExec ex disk w tc tmpl tree
      | _ => true
  | _ => true

/-- A step of the call `p` is unhindered, and an `Alloc` of it gets a uid. What the
other calls do is theirs. -/
def Unhindered (p : ℕ) (s : St HostState Call) (a : Act CallAct ServiceEvent) : Prop :=
  (∀ b c, a = .own p b → s.procs[p]? = some c →
    c.unhindered ex s.shared.disk b = true) ∧
  ∀ b, a = .own p b → AllocSucceeds cfg s a

/-! ## What holds of a sequential call -/

/-- What the app dir of the template holds. -/
def LoopTree (req : RunRequest) (lc : LanguageConfig) (es : Entries) : RunPc → Prop
  | .newJail | .build _ =>
      ∃ uid, es = sourceDir cfg.umask uid (resolveSourceName req lc) req.source
  | .loop _ i | .test _ i _ | .exec _ i _ _ =>
      es.contents = treeBefore ex cfg.umask req lc i
  | _ => True

/-- The test went through `runSingleTest`, and its exec was the program's, in the
tree that the earlier tests left. -/
def RanInTurn (req : RunRequest) (lc : LanguageConfig) (x : ℕ × Attempt) : Prop :=
  ∃ w j tc, x.2 = .ran w j ∧ req.tests[x.1]? = some tc ∧ w.ctxBefore = none ∧
    w.facts tc lc j req =
      testFacts ex req lc (treeBefore ex cfg.umask req lc x.1) tc

structure CallLoops (disk : Disk) (c : Call) : Prop where
  alone : c.run.procs = []
  calm : c.run.shared.cancelled = false
  place : PlaceWf ex cfg c.req c.lc c.run.shared.pc
  log : ∀ x ∈ c.run.shared.log, RanInTurn ex cfg c.req c.lc x
  noErr : ∀ sb ∈ c.sandboxes, sb.jail.err = none
  template : ∀ sb, c.sandboxes[0]? = some sb → sb.jail.pc = .live →
    LoopTree ex cfg c.req c.lc (disk.app sb.name) c.run.shared.pc

end

section

variable {ex : Exec} {cfg : ServiceConfig} {h : HostState} {c : Call}

theorem CallLoops.frame {disk disk' : Disk} (hw : CallLoops ex cfg disk c)
    (hkeep : ∀ (i : ℕ) sb, c.sandboxes[i]? = some sb → sb.jail.pc = .live →
      disk'.app sb.name = disk.app sb.name) : CallLoops ex cfg disk' c :=
  { hw with
    template := fun sb hi hlive => by
      rw [hkeep 0 sb hi hlive]
      exact hw.template sb hi hlive }

theorem callLoops_start (req : RunRequest) (lc : LanguageConfig) (disk : Disk) :
    CallLoops ex cfg disk (Call.start req lc) where
  alone := rfl
  calm := rfl
  place := trivial
  log := fun x hx => by cases hx
  noErr := fun sb hsb => by rw [List.mem_singleton.mp hsb]; rfl
  template := fun sb hi hlive => by cases hi; cases hlive

/-- An operation of one of the call's jails. -/
theorem callLoops_sandbox {i : ℕ} {name : GoString} {sb sb' : Sandbox} {pool : Pool}
    {disk : Disk} (hcw : CallWf cfg c) (hw : CallLoops ex cfg h.disk c)
    (hi : c.sandboxes[i]? = some sb)
    (hr : sandboxStep cfg.cgActive cfg.umask (resolveSourceName c.req c.lc)
      c.req.source h.pool h.disk sb none name = some (pool, disk, sb'))
    (ha : sb.jail.pc = .alloc → ∃ uid pool', h.pool.alloc = .ok (uid, pool'))
    (hkeep : ∀ (j : ℕ) x, c.sandboxes[j]? = some x → x.jail.pc = .live → j ≠ i →
      disk.app x.name = h.disk.app x.name) :
    CallLoops ex cfg disk (c.setSandbox i sb') := by
  refine ⟨hw.alone, hw.calm, hw.place, hw.log, noErr_sandbox hw.noErr hi hr ha,
    fun x hx hlive => ?_⟩
  show LoopTree ex cfg c.req c.lc (disk.app x.name) c.run.shared.pc
  rcases getElem?_set_cases hx with ⟨rfl, rfl⟩ | ⟨hne, hx⟩
  · obtain ⟨hpc, happ⟩ := source_of_live hr hlive
    rw [happ]
    rcases waits_for_template hcw hi hpc with hrun | ⟨_, _, _, hrun⟩
    · rw [hrun]
      exact ⟨_, rfl⟩
    · rw [hrun]
      trivial
  · rw [hkeep 0 x hx hlive hne]
    exact hw.template x hx hlive

/-! ## A step of the call itself -/

theorem loopTree_startTests {req : RunRequest} {lc : LanguageConfig} {es : Entries}
    (sh : RunState) (tmpl : JailFields) (build : BuildResult)
    (hes : es.contents = builtTree ex cfg.umask req lc) :
    LoopTree ex cfg req lc es (sh.startTests cfg.numCPU req tmpl build).pc := by
  unfold RunState.startTests
  split
  · trivial
  · exact hes

/-- A step of the call that starts no goroutine. -/
theorem CallLoops.move {sh : RunState} {disk : Disk} (hw : CallLoops ex cfg h.disk c)
    (hcalm : sh.cancelled = false) (hplace : PlaceWf ex cfg c.req c.lc sh.pc)
    (hlog : ∀ x ∈ sh.log, RanInTurn ex cfg c.req c.lc x)
    (htmpl : ∀ sb, c.sandboxes[0]? = some sb → sb.jail.pc = .live →
      LoopTree ex cfg c.req c.lc (disk.app sb.name) sh.pc) :
    CallLoops ex cfg disk (c.setRun ⟨sh, c.run.procs ++ []⟩ []) := by
  rw [List.append_nil]
  refine ⟨hw.alone, hcalm, hplace, hlog, ?_, ?_⟩
  · rw [setRun_sandboxes]
    exact hw.noErr
  · rw [setRun_sandboxes]
    exact htmpl

/-- After the build the loop begins in what it left, if it succeeded. -/
theorem callLoops_build {tmpl : JailFields} {w : BuildWorld} {durationMs : ℤ}
    {tree : AppTree} {disk : Disk} (hcw : CallWf cfg c) (hw : CallLoops ex cfg h.disk c)
    (hp : c.run.shared.pc = .build tmpl)
    (hdisk : c.diskAfter cfg h.disk tree (.env (.build w durationMs)) = some disk)
    (hcalm : c.unhindered ex h.disk (.run (.env (.build w durationMs)) tree) = true) :
    CallLoops ex cfg disk (c.setRun ⟨c.run.shared.finishBuild cfg.numCPU c.req tmpl
      { (runBuild w tmpl c.req c.lc).1 with durationMs := durationMs }
      (runBuild w tmpl c.req c.lc).2, c.run.procs ++ []⟩ []) := by
  have hplace := hw.place
  have htmpl := hw.template
  obtain ⟨_, hsb⟩ := exists_template hcw
  have hlive := hcw.template _ hsb
  rw [hp] at hplace htmpl hlive
  simp only [Call.unhindered, hp] at hcalm
  obtain ⟨uid, hsource⟩ := htmpl _ hsb hlive
  obtain ⟨hsucc, htree⟩ := build_of_source hsb hsource hplace hcalm
  have hcases := finishBuild_cases cfg.numCPU c.run.shared
    { (runBuild w tmpl c.req c.lc).1 with durationMs := durationMs }
    (show _ = (runBuild w tmpl c.req c.lc).1.status from rfl)
  rcases hcases with ⟨hok, heq⟩ | ⟨hbad, hstatus, err, heq⟩
  · rw [heq]
    obtain ⟨-, hcalm', hlog, -⟩ := startTests_cases cfg.numCPU c.req c.run.shared
      tmpl { (runBuild w tmpl c.req c.lc).1 with durationMs := durationMs }
    refine hw.move (hcalm'.trans hw.calm) (place_startTests _ _ _ (hsucc.mpr hok)) ?_
      (fun sb hi _ => ?_)
    · rw [hlog]
      exact hw.log
    · cases hdisk
      rw [name_eq hi, setApp_app_self]
      exact loopTree_startTests _ _ _ htree
  · rw [heq]
    refine hw.move hw.calm ?_ hw.log (fun _ _ _ => trivial)
    exact ⟨fun hs => absurd hs hstatus, fun hb => absurd (hsucc.mp hb) hbad⟩

/-- A test finds what the earlier ones left, and leaves it to the next one with its
own doing. -/
theorem callLoops_finish {tmpl : JailFields} {i : ℕ} {tc : TestCase} {w : TestWorld}
    {tree : AppTree} {disk : Disk} (hcw : CallWf cfg c) (hw : CallLoops ex cfg h.disk c)
    (hp : c.run.shared.pc = .exec tmpl i tc w.ctxBefore)
    (hdisk : c.diskAfter cfg h.disk tree (.env (.finish w)) = some disk)
    (hcalm : c.unhindered ex h.disk (.run (.env (.finish w)) tree) = true) :
    CallLoops ex cfg disk (c.setRun
      ⟨c.run.shared.append c.req c.lc tmpl i tc (.ran w tmpl), c.run.procs ++ []⟩ []) := by
  have hplace := hw.place
  have htmpl := hw.template
  obtain ⟨_, hsb⟩ := exists_template hcw
  have hlive := hcw.template _ hsb
  rw [hp] at hplace htmpl hlive
  obtain ⟨hsucc, hseq, htc, hbefore⟩ := hplace
  simp only [Call.unhindered, hp] at hcalm
  obtain ⟨hfacts, htree⟩ := of_decide_eq_true hcalm
  have hfound : (h.disk.app _).contents = treeBefore ex cfg.umask c.req c.lc i :=
    htmpl _ hsb hlive
  rw [name_eq hsb, hfound] at hfacts htree
  refine hw.move hw.calm ⟨hsucc, hseq⟩ (fun x hx => ?_) (fun sb hi _ => ?_)
  · rcases List.mem_append.mp hx with hx | hx
    · exact hw.log x hx
    · obtain rfl := List.mem_singleton.mp hx
      exact ⟨w, tmpl, tc, rfl, htc, hbefore, hfacts⟩
  · cases hdisk
    rw [name_eq hi, setApp_app_self]
    show tree.entries.contents = treeBefore ex cfg.umask c.req c.lc (i + 1)
    rw [htree, treeBefore_succ htc]

theorem callLoops_env {e : RunEvent} {tree : AppTree} {run : St RunState TestProc}
    {disk : Disk} (hcw : CallWf cfg c) (hw : CallLoops ex cfg h.disk c)
    (hseq : ¬ effectiveParallel cfg.numCPU c.req > 1)
    (hmay : c.mayRun cfg (.env e) = true)
    (hrun : (c.machine cfg).step c.run (.env e) = some run)
    (hdisk : c.diskAfter cfg h.disk tree (.env e) = some disk)
    (hcalm : c.unhindered ex h.disk (.run (.env e) tree) = true) :
    CallLoops ex cfg disk (c.setRun run (spawned (.env e))) := by
  obtain ⟨r, hr, rfl⟩ := step_env.mp hrun
  have hmove : RunMove cfg.numCPU c.req c.lc c.run.shared e r := runEvent_move hr
  have hplace := hw.place
  have htmpl := hw.template
  have hprog := progressWf_of_reachable hcw.run
  unfold ProgressWf at hprog
  cases hmove with
  | cancel => cases hmay
  | jailFails =>
      rw [Call.mayRun, Bool.and_eq_true] at hmay
      exact (jail_not_failed hw.noErr hmay.2).elim
  | @compiled tmpl hp hb =>
      rw [hp] at htmpl
      cases hdisk
      exact hw.move hw.calm hb hw.log htmpl
  | @interpreted tmpl hp hb =>
      rw [hp] at htmpl
      cases hdisk
      obtain ⟨-, hcalm', hlog, -⟩ :=
        startTests_cases cfg.numCPU c.req c.run.shared tmpl buildSkipped
      refine hw.move (hcalm'.trans hw.calm) (place_startTests _ _ _ (.inl hb)) ?_
        (fun sb hi hlive => ?_)
      · rw [hlog]
        exact hw.log
      · obtain ⟨uid, hes⟩ := htmpl sb hi hlive
        rw [hes]
        refine loopTree_startTests _ _ _ ?_
        rw [builtTree, if_pos hb]
        rfl
  | build hp => exact callLoops_build hcw hw hp hdisk hcalm
  | loopEnds hp =>
      simp only [hp] at hprog
      rw [hp] at hplace
      refine hw.move hw.calm ?_ hw.log (fun _ _ _ => trivial)
      exact ⟨fun _ => hplace.1, fun _ => hprog.1⟩
  | loopNext hp htc =>
      rw [hp] at hplace htmpl
      cases hdisk
      exact hw.move hw.calm ⟨hplace.1, hplace.2, htc⟩ hw.log htmpl
  | begin hp =>
      rw [hp] at hplace htmpl
      cases hdisk
      refine hw.move hw.calm ⟨hplace.1, hplace.2.1, hplace.2.2, ?_⟩ hw.log htmpl
      rw [RunState.ctxErr, hw.calm]
      rfl
  | finish hp => exact callLoops_finish hcw hw hp hdisk hcalm
  | spawnEnds hp | spawnNext hp | acquire hp | wait hp =>
      -- the places of the parallel loop
      rw [hp] at hplace
      exact absurd hplace.2 hseq

end

section

variable {ex : Exec} {cfg : ServiceConfig} {p q : ℕ} {s t : St HostState Call}

/-! ## Whole runs -/

/-- One step of the call. -/
theorem callLoops_step {c : Call} {a : CallAct} {r : HostState × Call}
    (hn : cfg.leftover.Nodup) (hr : (service cfg).machine.Reach (Unhindered ex cfg p) s)
    (hG : Unhindered ex cfg p s (.own p a)) (hc : s.procs[p]? = some c)
    (hs : callStep cfg s.shared c a = some r)
    (hseq : ¬ effectiveParallel cfg.numCPU c.req > 1)
    (hw : CallLoops ex cfg s.shared.disk c) : CallLoops ex cfg r.1.disk r.2 := by
  have hcw := callWf_of_reachable hr.reachable p c hc
  have hmove := callStep_move hs
  have hcalm : c.unhindered ex s.shared.disk a = true := hG.1 a c rfl hc
  have halloc := hG.2 a rfl
  have hkeep : ∀ (i : ℕ) sb, c.sandboxes[i]? = some sb → sb.jail.pc = .live →
      a.touches ≠ some i → r.1.disk.app sb.name = s.shared.disk.app sb.name :=
    fun i sb hi hlive hne => live_app_kept hn hr hc hs hc hi hlive (.inr hne)
  cases hmove with
  | gate => exact ⟨hw.alone, hw.calm, hw.place, hw.log, hw.noErr, hw.template⟩
  | cancel => cases hcalm
  | @sandbox i e name sb sb' pool disk hi hmay hstep =>
      obtain rfl : e = none := Option.isNone_iff_eq_none.mp hcalm
      refine callLoops_sandbox hcw hw hi hstep (fun hpc => ?_) fun j x hj hlive hne =>
        hkeep j x hj hlive fun hji => hne (Option.some.inj hji).symm
      exact halloc _ sb none (step_own.mpr ⟨c, _, hc, hs, rfl⟩)
        ⟨p, i, name, c, rfl, hc, hi⟩ hpc
  | @run b tree run disk hmay hrun hdisk =>
      cases b with
      | own k b =>
          obtain ⟨proc, _, hk, -⟩ := step_own.mp hrun
          rw [hw.alone] at hk
          cases hk
      | env e => exact callLoops_env hcw hw hseq hmay hrun hdisk hcalm

/-- A sequential call that nothing hinders is in every state what `CallLoops` says. -/
theorem callLoops_of_reach (hn : cfg.leftover.Nodup)
    (hr : (service cfg).machine.Reach (Unhindered ex cfg p) s) :
    Each (fun h q c => q = p → ¬ effectiveParallel cfg.numCPU c.req > 1 →
      CallLoops ex cfg h.disk c) s := by
  refine Family.each ?_ ?_ ?_ ?_ hr
  · intro s q a c r hr hw hG hc hs hq hseq
    subst hq
    rw [(request_kept (callStep_move hs)).1] at hseq
    exact callLoops_step hn hr hG hc hs hseq (hw q c hc rfl hseq)
  · intro s q a d r i c hr hw hG hd hs hne hc hip hseq
    exact (hw i c hc hip hseq).frame fun j sb hj hlive =>
      live_app_kept hn hr hd hs hc hj hlive (.inl hne.symm)
  · intro s e r q c _ hw _ he hc hq hseq
    refine (hw q c hc hq hseq).frame fun j sb _ _ => ?_
    cases e <;> cases he <;> rfl
  · intro s e r k c _ _ he hk _ _
    cases e with
    | call req lc =>
        cases he
        cases k with
        | zero => cases hk; exact callLoops_start req lc _
        | succ k => cases hk
    | stop =>
        cases he
        cases hk

/-- The answer of test `i` of a sequential call. -/
theorem answer_in_turn {c : Call} {build : BuildResult} {tests : List TestResult}
    {err : Option GoString} {i : ℕ} {tc : TestCase} (hn : cfg.leftover.Nodup)
    (hr : (service cfg).machine.Reach (Unhindered ex cfg p) s) (hc : s.procs[p]? = some c)
    (hseq : ¬ effectiveParallel cfg.numCPU c.req > 1)
    (hpc : c.run.shared.pc = .returned build tests err)
    (htc : c.req.tests[i]? = some tc) :
    tests[i]?.map TestResult.answer =
      if BuildSucceeds ex cfg.umask c.req c.lc then
        some (testAnswer ex c.req c.lc (treeBefore ex cfg.umask c.req c.lc i) tc)
      else none := by
  have hw := callLoops_of_reach hn hr p c hc rfl hseq
  have hplace := hw.place
  rw [hpc] at hplace
  have hret := returnWf_of_reachable (callWf_of_reachable hr.reachable p c hc).run hpc
  rcases results_of_return hw.calm hplace hret with ⟨hb, -, hres⟩ | ⟨hb, rfl⟩
  · rw [if_pos hb]
    obtain ⟨hlt, -⟩ := List.getElem?_eq_some_iff.mp htc
    obtain ⟨att, hmem, hi⟩ := hres i tc hlt htc
    obtain ⟨w, j, tc', hatt, htc', hbefore, hfacts⟩ := hw.log _ hmem
    rw [show c.req.tests[i]? = some tc' from htc'] at htc
    obtain rfl := Option.some.inj htc
    rw [hi, show att = .ran w j from hatt]
    exact congrArg some (ran_answer hbefore hfacts)
  · rw [if_neg hb]
    rfl

/-- Tests of a sequential request are isolated from one another exactly as far as
their programs do not tell the tree that the earlier tests left from the tree that
the build left: test `i` gets the answer that it gets as the only test of the
request, whatever else the service does in either run, if and only if its program
answers alike in the two trees. So it does when the trees are the same, and of all
programs that make the same of the app dir, whatever they print, only then. -/
theorem tests_isolated_iff {c d : Call} {build build' : BuildResult}
    {tests tests' : List TestResult} {err err' : Option GoString} {i : ℕ} {tc : TestCase}
    (hn : cfg.leftover.Nodup)
    (hs : (service cfg).machine.Reach (Unhindered ex cfg p) s) (hc : s.procs[p]? = some c)
    (hseq : ¬ effectiveParallel cfg.numCPU c.req > 1)
    (hpc : c.run.shared.pc = .returned build tests err)
    (htc : c.req.tests[i]? = some tc)
    (ht : (service cfg).machine.Reach (Unhindered ex cfg q) t) (hd : t.procs[q]? = some d)
    (hreq : d.req = { c.req with tests := [tc] }) (hlc : d.lc = c.lc)
    (hpc' : d.run.shared.pc = .returned build' tests' err') :
    (tests[i]?.map TestResult.answer = tests'[0]?.map TestResult.answer ↔
        AnswersAlone ex cfg.umask c.req c.lc i tc) ∧
      (treeBefore ex cfg.umask c.req c.lc i = builtTree ex cfg.umask c.req c.lc →
        tests[i]?.map TestResult.answer = tests'[0]?.map TestResult.answer) ∧
      ((∀ ex', SameEffects ex ex' → AnswersAlone ex' cfg.umask c.req c.lc i tc) ↔
        (BuildSucceeds ex cfg.umask c.req c.lc →
          treeBefore ex cfg.umask c.req c.lc i = builtTree ex cfg.umask c.req c.lc)) := by
  have hinTurn := answer_in_turn hn hs hc hseq hpc htc
  have hseq' : ¬ effectiveParallel cfg.numCPU d.req > 1 := by
    rw [hreq]
    exact hseq
  have htc' : d.req.tests[0]? = some tc := by
    rw [hreq]
    rfl
  have halone : tests'[0]?.map TestResult.answer =
      if BuildSucceeds ex cfg.umask c.req c.lc then
        some (testAnswer ex c.req c.lc (builtTree ex cfg.umask c.req c.lc) tc)
      else none := by
    have hfirst := answer_in_turn hn ht hd hseq' hpc' htc'
    rw [hreq, hlc] at hfirst
    exact hfirst
  have hiff : tests[i]?.map TestResult.answer = tests'[0]?.map TestResult.answer ↔
      AnswersAlone ex cfg.umask c.req c.lc i tc := by
    rw [hinTurn, halone]
    unfold AnswersAlone
    by_cases hb : BuildSucceeds ex cfg.umask c.req c.lc
    · rw [if_pos hb, if_pos hb, Option.some.injEq]
      exact ⟨fun h _ => h, fun h => h hb⟩
    · rw [if_neg hb, if_neg hb]
      exact ⟨fun _ h => absurd h hb, fun _ => rfl⟩
  refine ⟨hiff, fun heq => hiff.mpr fun _ => ?_, answersAlone_all_iff tc⟩
  rw [heq]

end

/-! ## A test that finds a directory

The program makes a directory when it does not find one. -/

def openTest : TestCase := ⟨[], str "open"⟩

def dirRequest (tests : List TestCase) : RunRequest where
  language := str "py3"
  source := str "main()"
  sourceFilename := []
  artifactFilename := []
  build := none
  run := none
  tests := tests
  maxParallel := none
  maxOutputBytes := none

def pyTree (mode : Mode) : AppTree where
  entries :=
    .leaf (str "solution.py") 10000 (.file 0o644 (str "main()"))
      (.dir (str "d") 10000 mode .nil .nil)
  wf := ⟨show str "solution.py" ∉ [str "d"] by decide, List.not_mem_nil, trivial,
    trivial⟩

/-- Up to the loop over the tests. -/
def untilLoop (tests : List TestCase) : List (Act CallAct ServiceEvent) :=
  [.env (.call (dirRequest tests) (newLanguageConfig pyLang)), .own 0 (.gate .enter)]
    ++ makeJail 0 (str "1")
    ++ [runStep (.env (.newJail (.ok (jailNamed (str "1") 10000))))]

/-- One round of the loop. -/
def loopRound (mode : Mode) (out : GoString) : List (Act CallAct ServiceEvent) :=
  [runStep (.env .next), runStep (.env .begin),
    .own 0 (.run (.env (.finish (printing out))) (pyTree mode))]

/-- A request with one test. -/
def runAlone (mode : Mode) : List (Act CallAct ServiceEvent) :=
  untilLoop [openTest] ++ loopRound mode [] ++ [runStep (.env .next)]

/-- And with the same test twice. -/
def runTwice (mode : Mode) : List (Act CallAct ServiceEvent) :=
  untilLoop [openTest, openTest] ++ loopRound mode [] ++ loopRound mode (describe mode)
    ++ [runStep (.env .next)]

def unhinderedCheck (mode : Mode) (s : St HostState Call) :
    Act CallAct ServiceEvent → Bool
  | .own _ b =>
      s.shared.pool.alloc.toOption.isSome &&
        s.procs[0]?.all fun c => c.unhindered (dirProgram mode) s.shared.disk b
  | .env _ => true

theorem unhinderedCheck_sound (mode : Mode) (s : St HostState Call)
    (a : Act CallAct ServiceEvent) (h : unhinderedCheck mode s a = true) :
    Unhindered (dirProgram mode) twoCPU 0 s a := by
  refine ⟨fun b c hb hc => ?_, fun b hb t sb e _ _ _ => ?_⟩
  · subst hb
    rw [unhinderedCheck, Bool.and_eq_true, hc] at h
    exact h.2
  · subst hb
    rw [unhinderedCheck, Bool.and_eq_true] at h
    exact exists_alloc h.1

/-- A sequential call that went through a run of the service to its end. -/
structure Looped (mode : Mode) (given : List TestCase) where
  s : St HostState Call
  c : Call
  build : BuildResult
  tests : List TestResult
  err : Option GoString
  reach : (service twoCPU).machine.Reach (Unhindered (dirProgram mode) twoCPU 0) s
  call : s.procs[0]? = some c
  req : c.req = dirRequest given
  lc : c.lc = newLanguageConfig pyLang
  pc : c.run.shared.pc = .returned build tests err

theorem looped_of_run {mode : Mode} {given : List TestCase}
    (as : List (Act CallAct ServiceEvent))
    (h : ((service twoCPU).machine.execIf (unhinderedCheck mode)
      ⟨startHost twoCPU, []⟩ as).any
        (returnedFor (dirRequest given) (newLanguageConfig pyLang)) = true) :
    Nonempty (Looped mode given) := by
  obtain ⟨s, c, build, tests, err, hreach, hc, hreq, hlc, hpc⟩ :=
    returned_of_run (unhinderedCheck_sound mode) as h
  exact ⟨⟨s, c, build, tests, err, hreach, hc, hreq, hlc, hpc⟩⟩

theorem looped_alone (mode : Mode) (h : mode = 0o755 ∨ mode = 0o777) :
    Nonempty (Looped mode [openTest]) := by
  refine looped_of_run (runAlone mode) ?_
  rcases h with rfl | rfl <;> rfl

theorem looped_twice (mode : Mode) (h : mode = 0o755 ∨ mode = 0o777) :
    Nonempty (Looped mode [openTest, openTest]) := by
  refine looped_of_run (runTwice mode) ?_
  rcases h with rfl | rfl <;> rfl

/-- The second test finds another tree than the first, and a program that does not
say so answers as if it were alone. -/
theorem tests_isolated_iff_755 :
    ∃ (a : Looped 0o755 [openTest, openTest]) (b : Looped 0o755 [openTest]),
      treeBefore (dirProgram 0o755) twoCPU.umask a.c.req a.c.lc 1 ≠
          builtTree (dirProgram 0o755) twoCPU.umask a.c.req a.c.lc ∧
        a.tests[1]?.map TestResult.answer = b.tests[0]?.map TestResult.answer := by
  obtain ⟨a⟩ := looped_twice 0o755 (.inl rfl)
  obtain ⟨b⟩ := looped_alone 0o755 (.inl rfl)
  have hseq : ¬ effectiveParallel twoCPU.numCPU a.c.req > 1 := by
    rw [a.req]
    decide
  have htc : a.c.req.tests[1]? = some openTest := by
    rw [a.req]
    rfl
  have halone : AnswersAlone (dirProgram 0o755) twoCPU.umask a.c.req a.c.lc 1 openTest := by
    rw [a.req, a.lc]
    intro _
    decide
  refine ⟨a, b, ?_, ?_⟩
  · rw [a.req, a.lc]
    decide
  · exact (tests_isolated_iff List.nodup_nil a.reach a.call hseq a.pc htc b.reach b.call
      (b.req.trans (by rw [a.req]; rfl)) (b.lc.trans a.lc.symm) b.pc).1.mpr halone

/-- A test that fails alone is accepted after another one that left a directory. -/
theorem earlier_test_seen :
    ¬ ∀ ex cfg (s t : St HostState Call) (p q : ℕ) c d build build' tests tests' err err'
        (i : ℕ) tc,
      cfg.leftover.Nodup → (service cfg).machine.Reach (Unhindered ex cfg p) s →
      s.procs[p]? = some c → ¬ effectiveParallel cfg.numCPU c.req > 1 →
      c.run.shared.pc = .returned build tests err → c.req.tests[i]? = some tc →
      (service cfg).machine.Reach (Unhindered ex cfg q) t → t.procs[q]? = some d →
      d.req = { c.req with tests := [tc] } → d.lc = c.lc →
      d.run.shared.pc = .returned build' tests' err' →
      tests[i]?.map TestResult.answer = tests'[0]?.map TestResult.answer := by
  intro hall
  obtain ⟨a⟩ := looped_twice 0o777 (.inr rfl)
  obtain ⟨b⟩ := looped_alone 0o777 (.inr rfl)
  have hseq : ¬ effectiveParallel twoCPU.numCPU a.c.req > 1 := by
    rw [a.req]
    decide
  have hseq' : ¬ effectiveParallel twoCPU.numCPU b.c.req > 1 := by
    rw [b.req]
    decide
  have htc : a.c.req.tests[1]? = some openTest := by
    rw [a.req]
    rfl
  have htc' : b.c.req.tests[0]? = some openTest := by
    rw [b.req]
    rfl
  have heq := hall _ _ _ _ _ _ _ _ _ _ _ _ _ _ 1 _ List.nodup_nil a.reach a.call hseq a.pc
    htc b.reach b.call (b.req.trans (by rw [a.req]; rfl)) (b.lc.trans a.lc.symm) b.pc
  rw [answer_in_turn List.nodup_nil a.reach a.call hseq a.pc htc,
    answer_in_turn List.nodup_nil b.reach b.call hseq' b.pc htc', a.req, a.lc, b.req,
    b.lc] at heq
  exact absurd heq (by decide)

end Goboxd.Api
