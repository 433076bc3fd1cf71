import Goboxd.Proofs.JailLedgers

/-!
# Whose app dir a step writes to

A jail writes under the name of its directory, and so does what runs in it. Two
jails whose directories exist have different names, of whatever calls they are,
and a new directory gets a name that no directory has. So a step changes the app
dir of one jail at most: its own, if it is the jail's, or the one of the jail in
which `ExecuteRun` builds, runs a test or seeds.
-/

namespace Goboxd.Runner

open Family

variable {umask : Mode} {srcName source name : GoString} {disk : Disk}
  {sb : Sandbox} {e : Option GoString} {n : GoString}

theorem setApp_app_self (disk : Disk) (name : GoString) (es : Entries) :
    (disk.setApp name es).app name = es :=
  Function.update_self ..

theorem setApp_app_of_ne {es : Entries} (h : n ≠ name) :
    (disk.setApp name es).app n = disk.app n :=
  Function.update_of_ne h ..

/-- An operation of a jail leaves the app dirs of the others alone. -/
theorem diskStep_app {r : Disk × GoString} (hw : JailWf False sb.jail)
    (h : diskStep umask srcName source disk sb e name = some r)
    (hn : n ∈ disk.dirs) (hne : sb.jail.dir = true → n ≠ sb.name) :
    r.1.app n = disk.app n := by
  unfold diskStep at h
  split at h
  · split at h
    · cases h
    · next hfree =>
        cases h
        refine Function.update_of_ne ?_ ..
        rintro rfl
        exact hfree hn
  · cases h; rfl
  · cases h; rfl
  · split at h <;> cases h
    rfl
  · cases h; rfl
  · cases h
    simp only []
    split <;> rfl
  · next hpc =>
      cases h
      rw [JailWf, hpc] at hw
      exact setApp_app_of_ne (hne hw.1)
  · next hpc =>
      cases h
      rw [JailWf, hpc] at hw
      exact setApp_app_of_ne (hne hw.1)
  · cases h; rfl

/-- A live jail has its directory. -/
theorem dir_of_live {clean : Prop} {j : Jail} (hw : JailWf clean j)
    (hlive : j.pc = .live) : j.dir = true := by
  rw [JailWf, hlive] at hw
  exact hw.1

end Goboxd.Runner

namespace Goboxd.Api

open Family Runner

variable {cfg : ServiceConfig} {s : St HostState Call}
  {G : St HostState Call → Act CallAct ServiceEvent → Prop}

/-! ## The names of the directories -/

theorem name_mem_dirs {sb : Sandbox} (hdir : sb.jail.dir = true) :
    sb.name ∈ sb.dirs := by
  rw [Sandbox.dirs, if_pos hdir]
  exact List.mem_singleton.mpr rfl

theorem name_on_disk (hn : cfg.leftover.Nodup) (hr : (service cfg).machine.Reach G s)
    {p i : ℕ} {c : Call} {sb : Sandbox} (hc : s.procs[p]? = some c)
    (hi : c.sandboxes[i]? = some sb) (hdir : sb.jail.dir = true) :
    sb.name ∈ s.shared.disk.dirs := by
  refine (dirs_balanced hn hr).mem_of_held ?_
  refine List.mem_flatMap.mpr ⟨c, List.mem_of_getElem? hc, ?_⟩
  exact List.mem_flatMap.mpr ⟨sb, List.mem_of_getElem? hi, name_mem_dirs hdir⟩

/-- Two jails with directories have different names. -/
theorem names_apart (hn : cfg.leftover.Nodup) (hr : (service cfg).machine.Reach G s)
    {p q i j : ℕ} {c d : Call} {sb sb' : Sandbox} (hc : s.procs[p]? = some c)
    (hi : c.sandboxes[i]? = some sb) (hd : s.procs[q]? = some d)
    (hj : d.sandboxes[j]? = some sb') (hne : q ≠ p ∨ j ≠ i)
    (hdir : sb.jail.dir = true) (hdir' : sb'.jail.dir = true) :
    sb.name ≠ sb'.name := by
  have hnodup := (dirs_balanced hn hr).held_nodup
  intro heq
  have hmem : sb.name ∈ sb'.dirs := by
    rw [heq]
    exact name_mem_dirs hdir'
  by_cases hqp : q = p
  · -- two jails of one call
    subst hqp
    rw [hc] at hd
    cases hd
    have hcall : (c.sandboxes.flatMap Sandbox.dirs).Nodup :=
      (List.nodup_flatMap.mp hnodup).1 c (List.mem_of_getElem? hc)
    exact disjoint_of_nodup hcall (hne.resolve_left (fun h => h rfl)).symm hi hj
      (name_mem_dirs hdir) hmem
  · refine disjoint_of_nodup hnodup (Ne.symm hqp) hc hd
      (List.mem_flatMap.mpr ⟨sb, List.mem_of_getElem? hi, name_mem_dirs hdir⟩)
      (List.mem_flatMap.mpr ⟨sb', List.mem_of_getElem? hj, hmem⟩)

/-! ## What a step writes to -/

/-- The jail in which `ExecuteRun` writes. -/
def runTouches : Act TestAct RunEvent → Option ℕ
  | .env (.build ..) | .env (.finish _) => some 0
  | .own k (.seed _) | .own k (.finish _) => some (k + 1)
  | _ => none

/-- The jail of the call whose app dir a step may change. -/
def CallAct.touches : CallAct → Option ℕ
  | .gate _ | .cancel => none
  | .sandbox i _ _ => some i
  | .run a _ => runTouches a

theorem runTouches_own {k i : ℕ} {a : TestAct} (h : runTouches (.own k a) = some i) :
    i = k + 1 := by
  cases a <;> cases h <;> rfl

theorem runTouches_env {e : RunEvent} {i : ℕ} (h : runTouches (.env e) = some i) :
    i = 0 := by
  cases e <;> cases h <;> rfl

theorem diskAfter_app {c : Call} {disk d : Disk} {tree : AppTree}
    {a : Act TestAct RunEvent} {n : GoString}
    (hd : c.diskAfter cfg disk tree a = some d)
    (hne : ∀ i, runTouches a = some i → n ≠ c.name i) : d.app n = disk.app n := by
  unfold Call.diskAfter at hd
  split at hd
  · cases hd; exact setApp_app_of_ne (hne _ rfl)
  · cases hd; exact setApp_app_of_ne (hne _ rfl)
  · cases hd; exact setApp_app_of_ne (hne _ rfl)
  · split at hd <;> cases hd
    exact setApp_app_of_ne (hne _ rfl)
  · cases hd; exact setApp_app_of_ne (hne _ rfl)
  · cases hd; rfl

/-- `ExecuteRun` writes in live jails only. -/
theorem live_of_touches {c : Call} {a : Act TestAct RunEvent}
    {run : St RunState TestProc} {i : ℕ} (hw : CallWf cfg c)
    (hrun : (c.machine cfg).step c.run a = some run) (ha : runTouches a = some i) :
    ∃ sb, c.sandboxes[i]? = some sb ∧ sb.jail.pc = .live := by
  cases a with
  | env e =>
      obtain ⟨r, hr, rfl⟩ := step_env.mp hrun
      have hmove : RunMove cfg.numCPU c.req c.lc c.run.shared e r := runEvent_move hr
      obtain ⟨sb, htmpl⟩ := exists_template hw
      have hat := hw.template sb htmpl
      cases hmove with
      | build hp | finish hp =>
          cases ha
          rw [hp] at hat
          exact ⟨sb, htmpl, hat⟩
      | cancel | jailFails | compiled | interpreted | loopEnds | loopNext | spawnEnds
      | spawnNext | begin | acquire | wait => cases ha
  | own k a =>
      obtain ⟨p, r, hk, hr, rfl⟩ := step_own.mp hrun
      have hmove : TestMove c.req c.lc c.run.shared p a r := testStep_move hr
      obtain ⟨sb, hsb⟩ := exists_sandbox hw hk
      have hat := hw.tests k p sb hk hsb
      cases hmove with
      | noSeed hp | seeded hp | finish hp =>
          cases ha
          rw [hp] at hat
          exact ⟨sb, hsb, hat⟩
      | noJail | jailed | begin | release | done => cases ha

/-- A step changes the app dir of no jail but the one it touches. -/
theorem app_kept (hn : cfg.leftover.Nodup) (hr : (service cfg).machine.Reach G s)
    {p q i : ℕ} {c d : Call} {a : CallAct} {r : HostState × Call} {sb : Sandbox}
    (hd : s.procs[q]? = some d) (hmove : CallMove cfg s.shared d a r)
    (hc : s.procs[p]? = some c) (hi : c.sandboxes[i]? = some sb)
    (hdir : sb.jail.dir = true) (hne : q ≠ p ∨ a.touches ≠ some i) :
    r.1.disk.app sb.name = s.shared.disk.app sb.name := by
  have hwf := jailWf_of_reachable hr q d hd
  -- another jail than `sb`, by the jail that the step touches
  have hother : ∀ j sb', d.sandboxes[j]? = some sb' → a.touches = some j →
      sb'.jail.dir = true → sb.name ≠ sb'.name := by
    intro j sb' hj ha hdir'
    refine names_apart hn hr hc hi hd hj (hne.imp_right fun hi => ?_) hdir hdir'
    rintro rfl
    exact hi ha
  cases hmove with
  | gate | cancel => rfl
  | @sandbox j e name sb' sb'' pool disk hj hmay hstep =>
      exact diskStep_app (hwf sb' (List.mem_of_getElem? hj)) (sandboxStep_some hstep).2
        (name_on_disk hn hr hc hi hdir) (hother j sb' hj rfl)
  | @run b tree run disk hmay hrun hdisk =>
      refine diskAfter_app hdisk fun j hb => ?_
      obtain ⟨sb', hj, hlive⟩ :=
        live_of_touches (callWf_of_reachable hr.reachable q d hd) hrun hb
      rw [Call.name, hj]
      exact hother j sb' hj hb (dir_of_live (hwf sb' (List.mem_of_getElem? hj)) hlive)

end Goboxd.Api
