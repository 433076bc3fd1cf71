import Goboxd.Proofs.CallJails
import Goboxd.Proofs.JailTurns

/-!
# The ledgers of the service

Two rules carry what the jails' operations keep, one at a time, to the service
as a whole. What every jail satisfies when it is fresh and after each of its
operations is satisfied by all jails of all calls. And what is a turn of a
register for the jail that moves is a turn for the service, since everything
else that happens leaves the registers alone.

Two of the three ledgers balance in every run. The directories do even when
removals fail, because what was not removed stays with its jail; so no two jails
have a directory of the same name. The uids do up to those that `Release`
ignored.
-/

namespace Goboxd.Api

open Family Runner Uidpool

variable {cfg : ServiceConfig} {s : St HostState Call}
  {G : St HostState Call → Act CallAct ServiceEvent → Prop}


theorem diskAfter_dirs {c : Call} {disk d : Disk} {tree : AppTree}
    {a : Act TestAct RunEvent} (hd : c.diskAfter cfg disk tree a = some d) :
    d.dirs = disk.dirs ∧ d.leaves = disk.leaves := by
  unfold Call.diskAfter at hd
  split at hd
  · cases hd; exact ⟨rfl, rfl⟩
  · cases hd; exact ⟨rfl, rfl⟩
  · cases hd; exact ⟨rfl, rfl⟩
  · split at hd <;> cases hd
    exact ⟨rfl, rfl⟩
  · cases hd; exact ⟨rfl, rfl⟩
  · cases hd; exact ⟨rfl, rfl⟩

/-- The step `a` is the next operation of the jail `sb`, and the system answers
it with `e`. -/
def JailMoves (s : St HostState Call) (a : Act CallAct ServiceEvent) (sb : Sandbox)
    (e : Option GoString) : Prop :=
  ∃ (p : ℕ) (i : ℕ) (name : GoString) (c : Call),
    a = .own p (.sandbox i e name) ∧ s.procs[p]? = some c ∧
      c.sandboxes[i]? = some sb

/-- What an operation of a jail in the state `s` makes of it. -/
def JailStep (cfg : ServiceConfig) (s : St HostState Call) (sb : Sandbox)
    (e : Option GoString) (r : Pool × Disk × Sandbox) : Prop :=
  ∃ srcName source name, sandboxStep cfg.cgActive cfg.umask srcName source
    s.shared.pool s.shared.disk sb e name = some r

/-- The rule for what holds of every jail. -/
theorem eachSandbox {P : Sandbox → Prop} (hfresh : P .fresh)
    (hstep : ∀ (s : St HostState Call) a sb e r, (service cfg).machine.Reach G s →
      G s a → JailMoves s a sb e → JailStep cfg s sb e r → P sb → P r.2.2)
    (hr : (service cfg).machine.Reach G s) :
    Each (fun _ _ c => ∀ sb ∈ c.sandboxes, P sb) s := by
  refine Family.each ?_ ?_ ?_ ?_ hr
  · intro s p a c r hr hw hG hc hs
    have hP := hw p c hc
    cases callStep_move hs with
    | gate | cancel =>
        simp only [Call.setRun, Call.setCaller, List.append_nil]
        exact hP
    | @run a tree run disk hmay hrun hdisk =>
        intro sb hsb
        rcases List.mem_append.mp hsb with hsb | hsb
        · exact hP sb hsb
        · unfold spawned at hsb
          split at hsb
          · rw [List.mem_singleton] at hsb
            rw [hsb]
            exact hfresh
          · cases hsb
    | @sandbox i e name sb sb' pool disk hi hmay hstep' =>
        intro x hx
        obtain ⟨j, hj⟩ := List.mem_iff_getElem?.mp hx
        rcases getElem?_set_cases hj with ⟨-, rfl⟩ | ⟨-, hj⟩
        · exact hstep s _ sb e (pool, disk, x) hr hG ⟨p, i, name, c, rfl, hc, hi⟩
            ⟨_, _, _, hstep'⟩ (hP sb (List.mem_of_getElem? hi))
        · exact hP x (List.mem_of_getElem? hj)
  · exact fun s p a c r q d _ hw _ _ _ _ hd => hw q d hd
  · exact fun s e r q d _ hw _ _ hd => hw q d hd
  · intro s e r k d _ _ he hk
    cases e with
    | call req lc =>
        cases he
        cases k with
        | zero =>
            cases hk
            intro sb hsb
            rw [show sb = .fresh from List.mem_singleton.mp hsb]
            exact hfresh
        | succ k => cases hk
    | stop =>
        cases he
        cases hk

/-- The ledger rule for jails: a register of the host that only their
operations touch, each with a turn, stays balanced. -/
theorem sandboxLedger {κ : Type} [DecidableEq κ] {L : κ → Prop} {base : List κ}
    (reg : HostState → List κ) (part : Sandbox → List κ)
    (hinit : reg (startHost cfg) = base) (hbase : base.Nodup)
    (hgate : ∀ h g, reg { h with gate := g } = reg h)
    (happ : ∀ h d, d.dirs = h.disk.dirs → d.leaves = h.disk.leaves →
      reg { h with disk := d } = reg h)
    (hfresh : part .fresh = [])
    (hstep : ∀ (s : St HostState Call) a sb e r, (service cfg).machine.Reach G s →
      Balanced L base (reg s.shared)
        (s.procs.flatMap fun c => c.sandboxes.flatMap part) →
      G s a → JailMoves s a sb e → JailStep cfg s sb e r →
      Turn L (reg s.shared) (part sb)
        (reg { s.shared with pool := r.1, disk := r.2.1 }) (part r.2.2))
    (hr : (service cfg).machine.Reach G s) :
    Balanced L base (reg s.shared)
      (s.procs.flatMap fun c => c.sandboxes.flatMap part) := by
  refine Family.ledger reg (fun c => c.sandboxes.flatMap part) ?_ ?_ ?_ hr
  · intro sh hsh
    rw [show sh = startHost cfg from hsh, hinit]
    exact ⟨.refl _, hbase⟩
  · intro s p a c r hr hbal hG hc hs
    have hkeep : ∀ (h : HostState) (ps : List κ), reg h = reg s.shared →
        ps = c.sandboxes.flatMap part →
        Turn L (reg s.shared) (c.sandboxes.flatMap part) (reg h) ps := by
      intro h ps hreg hps
      rw [hreg, hps]
      exact .keep (.refl _)
    cases callStep_move hs with
    | gate => exact hkeep _ _ (hgate _ _) rfl
    | cancel =>
        refine hkeep _ _ rfl ?_
        simp only [Call.setRun, Call.setCaller, List.append_nil]
    | @run a tree run disk hmay hrun hdisk =>
        obtain ⟨hdirs, hleaves⟩ := diskAfter_dirs hdisk
        refine hkeep _ _ (happ _ _ hdirs hleaves) ?_
        have hmore : (spawned a).flatMap part = [] := by
          unfold spawned
          split
          · rw [List.flatMap_cons, hfresh]
            rfl
          · rfl
        rw [show (c.setRun run (spawned a)).sandboxes = c.sandboxes ++ spawned a
          from rfl, List.flatMap_append, hmore, List.append_nil]
    | @sandbox i e name sb sb' pool disk hi hmay hstep' =>
        exact Turn.lift hi (hstep s _ sb e (pool, disk, sb') hr hbal hG
          ⟨p, i, name, c, rfl, hc, hi⟩ ⟨_, _, _, hstep'⟩)
  · intro s e r he
    cases e with
    | call req lc =>
        cases he
        refine ⟨rfl, fun c hc => ?_⟩
        rw [List.mem_singleton.mp hc]
        show [Sandbox.fresh].flatMap part = []
        rw [List.flatMap_cons, hfresh]
        rfl
    | stop =>
        cases he
        exact ⟨hgate _ _, List.forall_mem_nil _⟩

/-! ## What holds in every run -/

theorem jailWf_of_reachable (hr : (service cfg).machine.Reach G s) :
    Each (fun _ _ c => ∀ sb ∈ c.sandboxes, JailWf False sb.jail) s :=
  eachSandbox (jailWf_fresh False)
    (fun _ _ _ _ _ _ _ _ ⟨_, _, _, hs⟩ hw =>
      jailWf_step hw (fun hf => hf.elim) (sandboxStep_some hs).1) hr

/-- The pool's range is what it was made with. -/
theorem pool_of_reachable (hr : (service cfg).machine.Reach G s) :
    s.shared.pool.min = (startHost cfg).pool.min ∧
      s.shared.pool.size = (startHost cfg).pool.size := by
  refine Family.sharedInv
    (I := fun h => h.pool.min = (startHost cfg).pool.min ∧
      h.pool.size = (startHost cfg).pool.size) ?_ ?_ ?_ hr
  · intro sh hsh
    rw [show sh = startHost cfg from hsh]
    exact ⟨rfl, rfl⟩
  · intro s p a c r _ hI _ hs
    cases callStep_move hs with
    | gate | cancel | run => exact hI
    | @sandbox i e name sb sb' pool disk hi hmay hstep =>
        obtain ⟨hmin, hsize⟩ := jailStep_pool (sandboxStep_some hstep).1
        exact ⟨hmin.trans hI.1, hsize.trans hI.2⟩
  · intro s e r _ hI he
    cases e <;> cases he <;> exact hI

theorem dirs_balanced (hn : cfg.leftover.Nodup)
    (hr : (service cfg).machine.Reach G s) :
    Balanced (fun _ => False) cfg.leftover s.shared.disk.dirs (ownedDirs s) := by
  refine sandboxLedger (fun h => h.disk.dirs) Sandbox.dirs rfl hn
    (fun _ _ => rfl) (fun _ _ hd _ => hd) rfl ?_ hr
  intro s a sb e r hr _ _ hm hs
  obtain ⟨p, i, name, c, -, hc, hi⟩ := hm
  obtain ⟨_, _, _, hs⟩ := hs
  obtain ⟨hj, hd⟩ := sandboxStep_some hs
  exact dirs_turn (jailWf_of_reachable hr p c hc sb (List.mem_of_getElem? hi)) hj hd

theorem uids_balanced (hr : (service cfg).machine.Reach G s) :
    Balanced (fun u => ¬ InPool (startHost cfg).pool u) [] s.shared.pool.inUse
      (heldUids s) := by
  refine sandboxLedger (fun h => h.pool.inUse) Sandbox.uids rfl
    List.nodup_nil (fun _ _ => rfl) (fun _ _ _ _ => rfl) rfl ?_ hr
  intro s a sb e r hr _ _ _ hs
  obtain ⟨_, _, _, hs⟩ := hs
  obtain ⟨hmin, hsize⟩ := pool_of_reachable hr
  refine (uids_turn (sandboxStep_some hs).1).mono fun u _ hu hin => hu ?_
  unfold InPool at hin ⊢
  rw [hmin, hsize]
  exact hin

/-! ## When `Release` takes everything back -/

/-- `Alloc` hands out a uid that `Release` takes back. -/
def AllocsInPool (s : St HostState Call) (a : Act CallAct ServiceEvent) : Prop :=
  ∀ sb e, JailMoves s a sb e → sb.jail.pc = .alloc →
    ∀ uid, s.shared.pool.FirstFree uid → InPool s.shared.pool uid

/-- The uids that jails hold are then in the pool's range. -/
theorem held_inPool
    (hG : ∀ s a, (service cfg).machine.Reach G s → G s a → AllocsInPool s a)
    (hr : (service cfg).machine.Reach G s) :
    Each (fun _ _ c => ∀ sb ∈ c.sandboxes,
      sb.jail.holds = true → InPool (startHost cfg).pool sb.jail.uid) s := by
  refine eachSandbox (fun hh => by cases hh) ?_ hr
  intro s a sb e r hreach hGa hm hs hP hh
  obtain ⟨_, _, _, hs⟩ := hs
  have heff := jailStep_effect (sandboxStep_some hs).1
  generalize hpair : (r.1, r.2.2.jail) = q at heff
  obtain ⟨-, hjail⟩ := Prod.ext_iff.mp hpair
  rw [show r.2.2.jail = q.2 from hjail] at hh ⊢
  cases heff with
  | alloc hpc ha huid _ =>
      obtain ⟨hmin, hsize⟩ := pool_of_reachable hreach
      have hin := hG s a hreach hGa sb e hm hpc _ (Pool.alloc_ok ha).1
      unfold InPool at hin ⊢
      rw [huid, ← hmin, ← hsize]
      exact hin
  | release _ _ hrel _ => rw [hrel] at hh; cases hh
  | keep huid hholds _ _ _ =>
      rw [huid]
      exact hP (hholds ▸ hh)

/-- Then no uid is lost. -/
theorem uids_exact
    (hG : ∀ s a, (service cfg).machine.Reach G s → G s a → AllocsInPool s a)
    (hr : (service cfg).machine.Reach G s) :
    Balanced (fun _ => False) [] s.shared.pool.inUse (heldUids s) := by
  refine sandboxLedger (fun h => h.pool.inUse) Sandbox.uids rfl List.nodup_nil
    (fun _ _ => rfl) (fun _ _ _ _ => rfl) rfl ?_ hr
  intro s a sb e r hreach _ _ hm hs
  obtain ⟨p, i, name, c, -, hc, hi⟩ := hm
  obtain ⟨_, _, _, hs⟩ := hs
  obtain ⟨hmin, hsize⟩ := pool_of_reachable hreach
  refine (uids_turn (sandboxStep_some hs).1).mono fun u hu hout => hout ?_
  unfold Sandbox.uids Jail.uids at hu
  split at hu
  · next hh =>
      rw [List.mem_singleton.mp hu]
      have hin := held_inPool hG hreach p c hc sb (List.mem_of_getElem? hi) hh
      unfold InPool at hin ⊢
      rw [hmin, hsize]
      exact hin
  · cases hu

end Goboxd.Api
