import Goboxd.Proofs.JailLedgers
import Goboxd.Proofs.OutputVerdict

/-!
# Jail resources are conserved

`newJail` can stop at any of its operations, `ExecuteRun` at any of its steps,
and every exit cleans up in its own way. The three ledgers say that together
they forget nothing: whatever fails, and however requests and tests interleave,
the uids in use, the jail directories and the jail cgroups are those of the
jails that exist, each of one jail only. A call that has returned has none left.

One thing stands in the way, and it is no exit. `Release` tests its argument
against `min + size`, which wraps when the budget is near the largest `int`, as
it is when it saturates; then every uid looks foreign to it and stays in use for
good. So the uids need that `Alloc` hands out what `Release` takes back.
-/

namespace Goboxd.Api

open Family Runner Uidpool

/-- Every removal of a directory succeeds. -/
def RemovalsSucceed (s : St HostState Call) (a : Act CallAct ServiceEvent) : Prop :=
  ∀ sb e, JailMoves s a sb e → sb.jail.pc.removes = true → e = none

def Conserving (s : St HostState Call) (a : Act CallAct ServiceEvent) : Prop :=
  RemovalsSucceed s a ∧ AllocsInPool s a

/-- What the call `p` has. -/
def holdings (s : St HostState Call) (p : ℕ) :
    List Int × List GoString × List GoString :=
  s.procs[p]?.elim ([], [], []) fun c => (c.uids, c.dirs, c.leaves)

/-- The same uids are in use, and the same jail directories and jail cgroups
exist. -/
structure SameResources (s t : St HostState Call) : Prop where
  uids : ∀ u, u ∈ t.shared.pool.inUse ↔ u ∈ s.shared.pool.inUse
  dirs : ∀ d, d ∈ t.shared.disk.dirs ↔ d ∈ s.shared.disk.dirs
  leaves : ∀ l, l ∈ t.shared.disk.leaves ↔ l ∈ s.shared.disk.leaves

/-- Once the call `p`, which had nothing in `s`, is over in `t`, everything is
as it was in `s`, if the other calls have what they had. -/
def Restores (p : ℕ) (s t : St HostState Call) : Prop :=
  holdings s p = ([], [], []) → (∃ c, t.procs[p]? = some c ∧ c.done = true) →
    (∀ q, q ≠ p → holdings t q = holdings s q) → SameResources s t

/-- The registers are what the jails have, each of one jail only, and a call
that is not under way has nothing. -/
structure Conserved (cfg : ServiceConfig) (s : St HostState Call) : Prop where
  uids : s.shared.pool.inUse.Perm (heldUids s)
  uids_nodup : (heldUids s).Nodup
  dirs : s.shared.disk.dirs.Perm (cfg.leftover ++ ownedDirs s)
  dirs_nodup : (cfg.leftover ++ ownedDirs s).Nodup
  leaves : s.shared.disk.leaves.Perm (ownedLeaves s)
  leaves_nodup : (ownedLeaves s).Nodup
  idle : ∀ (p : ℕ) c, s.procs[p]? = some c →
    c.caller.phase ≠ .admitted ∨ c.done = true → holdings s p = ([], [], [])

/-- No step takes away what belongs to a jail that does not move. -/
def SparesOthers (cfg : ServiceConfig) (s : St HostState Call) : Prop :=
  ∀ a t, Conserving s a → (service cfg).machine.step s a = some t →
    ∀ (q : ℕ) c (j : ℕ) sb, s.procs[q]? = some c → c.sandboxes[j]? = some sb →
      (∀ e name, a ≠ .own q (.sandbox j e name)) →
      (∃ d, t.procs[q]? = some d ∧ d.sandboxes[j]? = some sb) ∧
        (∀ u ∈ sb.uids, u ∈ t.shared.pool.inUse) ∧
        (∀ d ∈ sb.dirs, d ∈ t.shared.disk.dirs) ∧
        ∀ l ∈ sb.leaves, l ∈ t.shared.disk.leaves

section

variable {cfg : ServiceConfig} {s t : St HostState Call}

/-! ## The three ledgers -/

theorem jailWf_of_clean (hr : (service cfg).machine.Reach Conserving s) :
    Each (fun _ _ c => ∀ sb ∈ c.sandboxes, JailWf True sb.jail) s := by
  refine eachSandbox (jailWf_fresh True) ?_ hr
  intro s a sb e r _ hG hm hs hw
  obtain ⟨_, _, _, hs⟩ := hs
  exact jailWf_step hw (fun _ hrem => hG.1 sb e hm hrem) (sandboxStep_some hs).1

/-- A jail with a directory and no cgroup finds no cgroup of its name: the jail
that has it would have a directory of the same name. -/
theorem leaf_free (hn : cfg.leftover.Nodup)
    (hr : (service cfg).machine.Reach Conserving s)
    (hbal : Balanced (fun _ => False) [] s.shared.disk.leaves (ownedLeaves s))
    {p i : ℕ} {c : Call} {sb : Sandbox} (hc : s.procs[p]? = some c)
    (hi : c.sandboxes[i]? = some sb) (hdir : sb.jail.dir = true)
    (hleaf : sb.jail.leaf = false) : sb.name ∉ s.shared.disk.leaves := by
  intro hmem
  have hall := (hbal.exact fun _ h => h).mem_iff.mp hmem
  obtain ⟨d, hd, hmem⟩ := List.mem_flatMap.mp hall
  obtain ⟨sb', hsb', hmem⟩ := List.mem_flatMap.mp hmem
  have hleaf' : sb'.jail.leaf = true ∧ sb.name = sb'.name := by
    unfold Sandbox.leaves at hmem
    split at hmem
    · next hl => exact ⟨hl, List.mem_singleton.mp hmem⟩
    · cases hmem
  obtain ⟨q, hq⟩ := List.mem_iff_getElem?.mp hd
  obtain ⟨j, hj⟩ := List.mem_iff_getElem?.mp hsb'
  have hdir' : sb'.jail.dir = true := by
    have hw := jailWf_of_clean hr q d hq sb' hsb'
    unfold JailWf at hw
    split at hw <;> simp_all
  have hmine : sb.name ∈ sb.dirs := by
    rw [Sandbox.dirs, if_pos hdir]
    exact List.mem_singleton.mpr rfl
  have hother : sb.name ∈ sb'.dirs := by
    rw [Sandbox.dirs, if_pos hdir', hleaf'.2]
    exact List.mem_singleton.mpr rfl
  have hnodup := (dirs_balanced hn hr).held_nodup
  by_cases hpq : p = q
  · subst hpq
    rw [hc] at hq
    cases hq
    have hij : i ≠ j := by
      rintro rfl
      rw [hi] at hj
      cases hj
      rw [hleaf] at hleaf'
      cases hleaf'.1
    have hsub := (List.nodup_flatMap.mp hnodup).1 c (List.mem_of_getElem? hc)
    exact disjoint_of_nodup hsub hij hi hj hmine hother
  · exact disjoint_of_nodup hnodup hpq hc hq
      (List.mem_flatMap.mpr ⟨sb, List.mem_of_getElem? hi, hmine⟩)
      (List.mem_flatMap.mpr ⟨sb', hsb', hother⟩)

theorem leaves_exact (hn : cfg.leftover.Nodup)
    (hr : (service cfg).machine.Reach Conserving s) :
    Balanced (fun _ => False) [] s.shared.disk.leaves (ownedLeaves s) := by
  refine sandboxLedger (fun h => h.disk.leaves) Sandbox.leaves rfl List.nodup_nil
    (fun _ _ => rfl) (fun _ _ _ hl => hl) rfl ?_ hr
  intro s a sb e r hreach hbal _ hm hs
  obtain ⟨p, i, name, c, -, hc, hi⟩ := hm
  obtain ⟨_, _, _, hs⟩ := hs
  obtain ⟨hj, hd⟩ := sandboxStep_some hs
  exact leaves_turn (jailWf_of_clean hreach p c hc sb (List.mem_of_getElem? hi))
    (fun hdir hleaf => leaf_free hn hreach hbal hc hi hdir hleaf) hj hd

/-! ## What is left of a call that is over -/

theorem nothing_of_idle {sb : Sandbox} (hidle : Sandbox.idle sb)
    (hw : JailWf True sb.jail) : sb.uids = [] ∧ sb.dirs = [] ∧ sb.leaves = [] := by
  rcases hidle with rfl | hpc
  · exact ⟨rfl, rfl, rfl⟩
  · unfold JailWf at hw
    rw [hpc] at hw
    obtain ⟨hdir, hleaf⟩ := hw trivial
    refine ⟨?_, ?_, ?_⟩
    · rw [Sandbox.uids, Jail.uids, Jail.holds, hpc]
      rfl
    · rw [Sandbox.dirs, hdir]
      rfl
    · rw [Sandbox.leaves, hleaf]
      rfl

theorem holdings_over (hr : (service cfg).machine.Reach Conserving s) {p : ℕ}
    {c : Call} (hc : s.procs[p]? = some c)
    (hover : c.caller.phase ≠ .admitted ∨ c.done = true) :
    holdings s p = ([], [], []) := by
  have hidle := idle_of_done (callWf_of_reachable hr.reachable p c hc) hover
  have hwf := jailWf_of_clean hr p c hc
  have hnone : ∀ sb ∈ c.sandboxes, _ := fun sb hsb =>
    nothing_of_idle (hidle sb hsb) (hwf sb hsb)
  have huids : c.uids = [] :=
    List.flatMap_eq_nil_iff.mpr fun sb hsb => (hnone sb hsb).1
  have hdirs : c.dirs = [] :=
    List.flatMap_eq_nil_iff.mpr fun sb hsb => (hnone sb hsb).2.1
  have hleaves : c.leaves = [] :=
    List.flatMap_eq_nil_iff.mpr fun sb hsb => (hnone sb hsb).2.2
  rw [holdings, hc, Option.elim_some, huids, hdirs, hleaves]

theorem conserved_of_reach (hn : cfg.leftover.Nodup)
    (hr : (service cfg).machine.Reach Conserving s) : Conserved cfg s := by
  have huids := uids_exact (fun _ _ _ hG => hG.2) hr
  have hdirs := dirs_balanced hn hr
  have hleaves := leaves_exact hn hr
  have hperm := hdirs.exact fun _ h => h
  exact
    { uids := huids.exact fun _ h => h
      uids_nodup := huids.held_nodup
      dirs := hperm
      dirs_nodup := hperm.nodup_iff.mp hdirs.nodup
      leaves := hleaves.exact fun _ h => h
      leaves_nodup := hleaves.held_nodup
      idle := fun _ _ hc hover => holdings_over hr hc hover }

/-! ## Before and after -/

theorem mem_procs_iff {κ : Type} {f : Call → List κ} {k : κ} :
    k ∈ s.procs.flatMap f ↔ ∃ q : ℕ, k ∈ (s.procs[q]?.elim [] f) := by
  rw [List.mem_flatMap]
  constructor
  · intro h
    obtain ⟨c, hc, hk⟩ := h
    obtain ⟨q, hq⟩ := List.mem_iff_getElem?.mp hc
    exact ⟨q, by rw [hq]; exact hk⟩
  · intro h
    obtain ⟨q, hk⟩ := h
    cases hq : s.procs[q]? with
    | none => rw [hq] at hk; cases hk
    | some c =>
        rw [hq] at hk
        exact ⟨c, List.mem_of_getElem? hq, hk⟩

theorem holdings_eq (s : St HostState Call) (q : ℕ) :
    holdings s q = (s.procs[q]?.elim [] Call.uids, s.procs[q]?.elim [] Call.dirs,
      s.procs[q]?.elim [] Call.leaves) := by
  unfold holdings
  cases s.procs[q]? <;> rfl

theorem restores_of_conserved (hs : Conserved cfg s) (ht : Conserved cfg t) (p : ℕ) :
    Restores p s t := by
  intro hbefore hdone hothers
  obtain ⟨c, hc, hdone⟩ := hdone
  have hall : ∀ q, holdings t q = holdings s q := by
    intro q
    by_cases hqp : q = p
    · rw [hqp, hbefore, ht.idle p c hc (.inr hdone)]
    · exact hothers q hqp
  have hparts := fun q => Prod.ext_iff.mp
    ((holdings_eq t q).symm.trans ((hall q).trans (holdings_eq s q)))
  have huids : ∀ q, t.procs[q]?.elim [] Call.uids = s.procs[q]?.elim [] Call.uids :=
    fun q => (hparts q).1
  have hdirs : ∀ q, t.procs[q]?.elim [] Call.dirs = s.procs[q]?.elim [] Call.dirs :=
    fun q => (Prod.ext_iff.mp (hparts q).2).1
  have hleaves : ∀ q,
      t.procs[q]?.elim [] Call.leaves = s.procs[q]?.elim [] Call.leaves :=
    fun q => (Prod.ext_iff.mp (hparts q).2).2
  refine ⟨fun u => ?_, fun d => ?_, fun l => ?_⟩
  · rw [ht.uids.mem_iff, hs.uids.mem_iff, heldUids, heldUids, mem_procs_iff,
      mem_procs_iff]
    exact exists_congr fun q => by rw [huids q]
  · rw [ht.dirs.mem_iff, hs.dirs.mem_iff, List.mem_append, List.mem_append,
      ownedDirs, ownedDirs, mem_procs_iff, mem_procs_iff]
    exact or_congr_right (exists_congr fun q => by rw [hdirs q])
  · rw [ht.leaves.mem_iff, hs.leaves.mem_iff, ownedLeaves, ownedLeaves,
      mem_procs_iff, mem_procs_iff]
    exact exists_congr fun q => by rw [hleaves q]

/-- Everything a jail has is in the registers. -/
theorem present_of_conserved (ht : Conserved cfg t) {q j : ℕ} {d : Call}
    {sb : Sandbox} (hq : t.procs[q]? = some d) (hj : d.sandboxes[j]? = some sb) :
    (∀ u ∈ sb.uids, u ∈ t.shared.pool.inUse) ∧
      (∀ n ∈ sb.dirs, n ∈ t.shared.disk.dirs) ∧
      ∀ l ∈ sb.leaves, l ∈ t.shared.disk.leaves := by
  have hd := List.mem_of_getElem? hq
  have hsb := List.mem_of_getElem? hj
  refine ⟨fun u hu => ?_, fun n hn => ?_, fun l hl => ?_⟩
  · rw [ht.uids.mem_iff]
    exact List.mem_flatMap.mpr ⟨d, hd, List.mem_flatMap.mpr ⟨sb, hsb, hu⟩⟩
  · rw [ht.dirs.mem_iff]
    exact List.mem_append_right _
      (List.mem_flatMap.mpr ⟨d, hd, List.mem_flatMap.mpr ⟨sb, hsb, hn⟩⟩)
  · rw [ht.leaves.mem_iff]
    exact List.mem_flatMap.mpr ⟨d, hd, List.mem_flatMap.mpr ⟨sb, hsb, hl⟩⟩

/-- A jail stays as it is when another one moves. -/
theorem sandbox_stays {a : Act CallAct ServiceEvent}
    (hs : (service cfg).machine.step s a = some t) {q j : ℕ} {c : Call}
    {sb : Sandbox} (hq : s.procs[q]? = some c) (hj : c.sandboxes[j]? = some sb)
    (ha : ∀ e name, a ≠ .own q (.sandbox j e name)) :
    ∃ d, t.procs[q]? = some d ∧ d.sandboxes[j]? = some sb := by
  obtain ⟨hlt, -⟩ := List.getElem?_eq_some_iff.mp hj
  cases a with
  | own p a =>
      obtain ⟨c', r, hc', hr, rfl⟩ := step_own.mp hs
      by_cases hpq : p = q
      · subst hpq
        rw [hq] at hc'
        cases hc'
        refine ⟨r.2, getElem?_set_self hq, ?_⟩
        cases callStep_move hr with
        | gate => exact hj
        | cancel | run =>
            show (c.sandboxes ++ _)[j]? = some sb
            rw [List.getElem?_append_left hlt]
            exact hj
        | @sandbox i e name sb₁ sb' pool disk hi hmay hstep =>
            have hij : i ≠ j := by
              rintro rfl
              exact ha e name rfl
            show (c.sandboxes.set i sb')[j]? = some sb
            rw [List.getElem?_set_ne hij]
            exact hj
      · refine ⟨c, ?_, hj⟩
        show (s.procs.set p r.2)[q]? = some c
        rw [List.getElem?_set_ne hpq]
        exact hq
  | env e =>
      obtain ⟨r, hr, rfl⟩ := step_env.mp hs
      obtain ⟨hlq, -⟩ := List.getElem?_eq_some_iff.mp hq
      refine ⟨c, ?_, hj⟩
      show (s.procs ++ r.2)[q]? = some c
      rw [List.getElem?_append_left hlq]
      exact hq

/-- Conservation of jail resources. In every run whose removals succeed and
whose `Alloc`s hand out only uids that `Release` takes back, the registers are
exactly what the jails have, in every state; what was there before a call is
there after it, and no more; and nobody takes away what another jail has. -/
theorem jail_resources_conserved (hn : cfg.leftover.Nodup)
    (hs : (service cfg).machine.Reach Conserving s)
    (ht : (service cfg).machine.Reach Conserving t) :
    Conserved cfg t ∧ (∀ p, Restores p s t) ∧ SparesOthers cfg t := by
  have hct := conserved_of_reach hn ht
  refine ⟨hct, restores_of_conserved (conserved_of_reach hn hs) hct, ?_⟩
  intro a u hG hu q c j sb hq hj ha
  obtain ⟨d, hd, hdj⟩ := sandbox_stays hu hq hj ha
  exact ⟨⟨d, hd, hdj⟩,
    present_of_conserved (conserved_of_reach hn (.next ht hG hu)) hd hdj⟩

end

/-! ## A request whose source cannot be written -/

/-- One CPU, with cgroups, and the value of `GOBOXD_MAX_JOBS`. -/
def oneCPU (maxJobs : String) : ServiceConfig where
  numCPU := 1
  getenv := fun key => if key = "GOBOXD_MAX_JOBS" then Go.str maxJobs else []
  cgActive := true
  umask := 0o022
  tempDir := Go.str "/tmp"
  leftover := []

def noTree : AppTree := ⟨.nil, trivial⟩

/-- An operation of a template jail. -/
def tmplStep (p : ℕ) (e : Option GoString) (name : GoString) :
    Act CallAct ServiceEvent := .own p (.sandbox 0 e name)

def newCall : Act CallAct ServiceEvent :=
  .env (.call (pyRequest (Go.str "abcdef")) (Config.newLanguageConfig pyLang))

/-- `newJail` gives up, and so does `ExecuteRun`. -/
def giveUp (p : ℕ) (err : GoString) : Act CallAct ServiceEvent :=
  .own p (.run (.env (.newJail (.error err))) noTree)

def failedWrite : List (Act CallAct ServiceEvent) :=
  [newCall, .own 0 (.gate .enter), tmplStep 0 none [], tmplStep 0 none (Go.str "1")]
    ++ List.replicate 5 (tmplStep 0 none [])
    ++ [tmplStep 0 (some (Go.str "no space left on device")) []]
    ++ List.replicate 3 (tmplStep 0 none [])
    ++ [giveUp 0 (Go.str "failed to write source: no space left on device")]

/-- The check of a single operation. -/
def conservingJail (h : HostState) (sb : Sandbox) (e : Option GoString) : Bool :=
  (!sb.jail.pc.removes || e.isNone) &&
    match h.pool.alloc with
    | .ok (uid, _) =>
        h.pool.min ≤ uid ∧ uid < Go.wrap (h.pool.min + h.pool.size)
    | .error _ => true

def conservingCheck (s : St HostState Call) : Act CallAct ServiceEvent → Bool
  | .own p (.sandbox i e _) =>
      match s.procs[p]? with
      | some c =>
          match c.sandboxes[i]? with
          | some sb => conservingJail s.shared sb e
          | none => true
      | none => true
  | _ => true

theorem conservingCheck_sound (s : St HostState Call)
    (a : Act CallAct ServiceEvent) (h : conservingCheck s a = true) :
    Conserving s a := by
  have hjail : ∀ sb e, JailMoves s a sb e → conservingJail s.shared sb e = true := by
    intro sb e hm
    obtain ⟨p, i, name, c, rfl, hc, hi⟩ := hm
    simp only [conservingCheck, hc, hi] at h
    exact h
  refine ⟨fun sb e hm hrem => ?_, fun sb e hm _ uid hfirst => ?_⟩
  · have hj := hjail sb e hm
    rw [conservingJail, Bool.and_eq_true, hrem] at hj
    exact Option.isNone_iff_eq_none.mp hj.1
  · have hj := hjail sb e hm
    obtain ⟨pool', ha⟩ := hfirst.alloc
    rw [conservingJail, Bool.and_eq_true, ha] at hj
    unfold InPool
    exact of_decide_eq_true hj.2

theorem jail_resources_conserved_failed_write :
    ∃ t, (service (oneCPU "1")).machine.exec ⟨startHost (oneCPU "1"), []⟩
        failedWrite = some t ∧
      t.procs.map Call.done = [true] ∧ Conserved (oneCPU "1") t ∧
      Restores 0 ⟨startHost (oneCPU "1"), []⟩ t ∧ SparesOthers (oneCPU "1") t := by
  have hinit : (service (oneCPU "1")).machine.init ⟨startHost (oneCPU "1"), []⟩ :=
    ⟨rfl, rfl⟩
  have hr := Machine.reach_of_execIf conservingCheck_sound failedWrite
    (.start hinit) rfl
  have h := jail_resources_conserved List.nodup_nil (.start hinit) hr
  exact ⟨_, rfl, rfl, h.1, h.2.1 0, h.2.2⟩

/-! ## A budget that saturates -/

/-- The template's uid goes back to the pool because its directory cannot be
made. -/
def failedMkdir : List (Act CallAct ServiceEvent) :=
  [newCall, .own 0 (.gate .enter), tmplStep 0 none [],
    tmplStep 0 (some (Go.str "no space left on device")) [], tmplStep 0 none [],
    giveUp 0 (Go.str "failed to create jail dir: no space left on device")]

def removalCheck (s : St HostState Call) : Act CallAct ServiceEvent → Bool
  | .own p (.sandbox i e _) =>
      match s.procs[p]? with
      | some c => c.sandboxes[i]?.all fun sb => !sb.jail.pc.removes || e.isNone
      | none => true
  | _ => true

theorem removalCheck_sound (s : St HostState Call) (a : Act CallAct ServiceEvent)
    (h : removalCheck s a = true) : RemovalsSucceed s a := by
  intro sb e hm hrem
  obtain ⟨p, i, name, c, rfl, hc, hi⟩ := hm
  simp only [removalCheck, hc, hi, Option.all_some, hrem] at h
  exact Option.isNone_iff_eq_none.mp h

/-- With the largest `GOBOXD_MAX_JOBS` the budget is the largest `int`, and one
failed request leaves a uid in use. -/
theorem uid_leaked_when_budget_wraps :
    ¬ ∀ cfg (s t : St HostState Call) p, cfg.leftover.Nodup →
      (service cfg).machine.Reach RemovalsSucceed s →
      (service cfg).machine.Reach RemovalsSucceed t → Restores p s t := by
  intro h
  have hinit : (service (oneCPU "9223372036854775807")).machine.init
      ⟨startHost (oneCPU "9223372036854775807"), []⟩ := ⟨rfl, rfl⟩
  have hr := Machine.reach_of_execIf removalCheck_sound failedMkdir
    (.start hinit) rfl
  have hsame := h _ _ _ 0 List.nodup_nil (.start hinit) hr rfl ⟨_, rfl, rfl⟩
    (fun q hq => by
      cases q with
      | zero => exact absurd rfl hq
      | succ q => rfl)
  cases (hsame.uids 10000).mp List.mem_cons_self

end Goboxd.Api
