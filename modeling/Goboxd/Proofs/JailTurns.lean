import Goboxd.Lib.Ledger
import Goboxd.Runner.Sandbox

/-!
# The turns a jail takes

Three registers are kept for all jails: the uids in use, the jail directories,
the jail cgroups. Each operation of a jail is a turn of each of them, given that
the jail has what its place says it has. The places fall into groups. Until
`MkdirTemp` has succeeded there is nothing; then there is a directory, and with
a cgroup manager its cgroup; `teardown` takes the cgroup and then the directory
away.

A removal that fails leaves something behind, so what is said of the last places
needs the removals to succeed. `clean` stands for that.
-/

namespace Goboxd.Runner

open Go Uidpool Family

/-- What a jail has at each of its places. -/
def JailWf (clean : Prop) (j : Jail) : Prop :=
  match j.pc with
  | .alloc | .mkdirTemp | .releaseUid => j.dir = false ∧ j.leaf = false ∧ j.cg = false
  | .chownDir | .chownRelease | .chownRemove | .cgMkdir =>
      j.dir = true ∧ j.leaf = false ∧ j.cg = false
  | .cgEnable => j.dir = true ∧ j.leaf = true ∧ j.cg = false
  | .cgRemove => j.dir = true ∧ j.cg = false
  | .mkdirApp | .chownApp | .writeSource | .chownSource | .live | .tdRelease
  | .tdCgroup =>
      j.dir = true ∧ (j.cg = true → j.leaf = true) ∧
        (clean → j.leaf = true → j.cg = true)
  | .tdRemove => j.dir = true ∧ (clean → j.leaf = false)
  | .gone => clean → j.dir = false ∧ j.leaf = false

/-- The operations that remove a directory. -/
def JailPc.removes : JailPc → Bool
  | .chownRemove | .cgRemove | .tdCgroup | .tdRemove => true
  | _ => false

section

variable {clean : Prop} {cgActive : Bool} {umask : Mode}
  {srcName source name : GoString} {pool : Pool} {disk : Disk} {j : Jail}
  {sb : Sandbox} {e : Option GoString}

theorem jailWf_fresh (clean : Prop) : JailWf clean .fresh := ⟨rfl, rfl, rfl⟩

theorem jailWf_step {r : Pool × Jail} (hw : JailWf clean j)
    (hclean : clean → j.pc.removes = true → e = none)
    (h : jailStep cgActive pool j e = some r) : JailWf clean r.2 := by
  unfold jailStep at h
  unfold JailWf at hw
  cases hpc : j.pc <;> simp only [hpc] at h hw hclean
  case alloc =>
    split at h <;> cases h
    · exact hw
    · exact fun _ => ⟨hw.1, hw.2.1⟩
  case mkdirTemp =>
    split at h <;> cases h
    · exact ⟨rfl, hw.2⟩
    · exact hw
  case releaseUid =>
    cases h
    exact fun _ => ⟨hw.1, hw.2.1⟩
  case chownDir =>
    split at h <;> cases h
    · cases cgActive
      · exact ⟨hw.1, fun hcg => by simp [hw.2.2] at hcg,
          fun _ hl => by simp [hw.2.1] at hl⟩
      · exact hw
    · exact hw
  case chownRelease =>
    cases h
    exact hw
  case chownRemove =>
    cases h
    intro hc
    rw [hclean hc rfl]
    exact ⟨Bool.and_false _, hw.2.1⟩
  case cgMkdir =>
    split at h <;> cases h
    · exact ⟨hw.1, rfl, hw.2.2⟩
    · exact ⟨hw.1, hw.2.2⟩
  case cgEnable =>
    split at h <;> cases h
    · exact ⟨hw.1, fun _ => hw.2.1, fun _ _ => rfl⟩
    · exact ⟨hw.1, hw.2.2⟩
  case cgRemove =>
    cases h
    refine ⟨hw.1, fun hcg => by simp [hw.2] at hcg, fun hc hl => ?_⟩
    rw [hclean hc rfl] at hl
    simp at hl
  case mkdirApp | chownApp | writeSource | chownSource =>
    split at h <;> cases h <;> exact hw
  case live | tdRelease =>
    cases h
    exact hw
  case tdCgroup =>
    cases h
    refine ⟨hw.1, fun hc => ?_⟩
    rw [hclean hc rfl]
    split
    · simp
    · next hcg =>
        rw [Bool.not_eq_true] at hcg
        cases hl : j.leaf with
        | false => rfl
        | true => rw [hw.2.2 hc hl] at hcg; cases hcg
  case tdRemove =>
    cases h
    intro hc
    rw [hclean hc rfl]
    exact ⟨Bool.and_false _, hw.2 hc⟩
  case gone => cases h

/-! ## The uids -/

/-- The uids that `Release` takes back. -/
def InPool (p : Pool) (uid : Int) : Prop := p.min ≤ uid ∧ uid < wrap (p.min + p.size)

theorem release_inPool {uid : Int} (h : InPool pool uid) :
    (pool.release uid).inUse = pool.inUse.filter fun u => u ≠ uid := by
  obtain ⟨hlo, hhi⟩ := h
  rw [Pool.release, if_neg (by omega)]

theorem release_of_not_inPool {uid : Int} (h : ¬ InPool pool uid) :
    pool.release uid = pool := by
  rw [Pool.release, if_pos (by unfold InPool at h; omega)]

/-- A jail's operation is a turn of the uids in use. What `Release` ignores is
lost. -/
theorem uids_turn {r : Pool × Jail} (h : jailStep cgActive pool j e = some r) :
    Turn (fun u => ¬ InPool pool u) pool.inUse j.uids r.1.inUse r.2.uids := by
  have hrel : ∀ j' : Jail, j.holds = true → j'.holds = false →
      Turn (fun u => ¬ InPool pool u) pool.inUse j.uids
        (pool.release j.uid).inUse j'.uids := by
    intro j' hh hh'
    rw [Jail.uids, Jail.uids, hh, hh']
    by_cases hin : InPool pool j.uid
    · rw [release_inPool hin]
      exact .give (.refl _)
    · rw [release_of_not_inPool hin]
      exact .lose hin (.refl _)
  have hkeep : ∀ j' : Jail, j'.uid = j.uid → j'.holds = j.holds →
      Turn (fun u => ¬ InPool pool u) pool.inUse j.uids pool.inUse j'.uids := by
    intro j' hu hh
    rw [Jail.uids, Jail.uids, hu, hh]
    exact .keep (.refl _)
  unfold jailStep at h
  cases hpc : j.pc <;> simp only [hpc] at h
  case alloc =>
    split at h <;> cases h
    · next uid p ha =>
        obtain ⟨-, hfree, hin⟩ := Pool.alloc_ok ha
        simp only [hin, Jail.uids, Jail.holds, hpc]
        exact .take hfree (.refl _)
    · exact hkeep _ rfl (by simp only [Jail.holds, hpc])
  case releaseUid | chownRelease | tdRelease =>
    cases h
    exact hrel _ (by simp only [Jail.holds, hpc]) rfl
  case gone => cases h
  case chownDir =>
    split at h <;> cases h <;> refine hkeep _ rfl ?_ <;>
      simp only [Jail.holds, hpc]
    cases cgActive <;> rfl
  case mkdirTemp | cgMkdir | cgEnable | mkdirApp | chownApp | writeSource
      | chownSource =>
    split at h <;> cases h <;> refine hkeep _ rfl ?_ <;>
      simp only [Jail.holds, Jail.fail, hpc]
  case chownRemove | cgRemove | live | tdCgroup | tdRemove =>
    cases h
    exact hkeep _ rfl (by simp only [Jail.holds, hpc])

/-! ## The directories and the cgroups -/

/-- What an operation of a jail does to the two registers of the disk. -/
inductive DiskEffect (disk : Disk) (sb : Sandbox) : Disk → Sandbox → Prop where
  | mkdir {j : Jail} {name : GoString} (hpc : sb.jail.pc = .mkdirTemp)
      (hfree : name ∉ disk.dirs) (hdir : j.dir = true)
      (hleaf : j.leaf = sb.jail.leaf) :
      DiskEffect disk sb (disk.mkdir name) ⟨j, name⟩
  | rmdir {sb' : Sandbox} (hpc : sb.jail.pc = .chownRemove ∨ sb.jail.pc = .tdRemove)
      (hdir : sb'.jail.dir = false) (hleaf : sb'.jail.leaf = sb.jail.leaf)
      (hname : sb'.name = sb.name) : DiskEffect disk sb (disk.removeAll sb.name) sb'
  | mkLeaf {sb' : Sandbox} (hpc : sb.jail.pc = .cgMkdir)
      (hfree : sb.name ∉ disk.leaves) (hdir : sb'.jail.dir = sb.jail.dir)
      (hleaf : sb'.jail.leaf = true) (hname : sb'.name = sb.name) :
      DiskEffect disk sb (disk.mkLeaf sb.name) sb'
  | rmLeaf {sb' : Sandbox} (hpc : sb.jail.pc = .cgRemove ∨ sb.jail.pc = .tdCgroup)
      (hdir : sb'.jail.dir = sb.jail.dir) (hleaf : sb'.jail.leaf = false)
      (hname : sb'.name = sb.name) : DiskEffect disk sb (disk.removeLeaf sb.name) sb'
  | keep {d : Disk} {sb' : Sandbox} (hdirs : d.dirs = disk.dirs)
      (hleaves : d.leaves = disk.leaves) (hdir : sb'.jail.dir = sb.jail.dir)
      (hleaf : sb'.jail.leaf = sb.jail.leaf) (hname : sb'.name = sb.name) :
      DiskEffect disk sb d sb'

theorem disk_effect {r : Pool × Jail} {d : Disk × GoString}
    (hj : jailStep cgActive pool sb.jail e = some r)
    (hd : diskStep umask srcName source disk sb e name = some d) :
    DiskEffect disk sb d.1 ⟨r.2, d.2⟩ := by
  unfold jailStep at hj
  unfold diskStep at hd
  cases hpc : sb.jail.pc <;> simp only [hpc] at hj hd
  case mkdirTemp =>
    cases e with
    | none =>
        simp only [] at hj hd
        split at hd
        · cases hd
        · next hfree =>
            cases hd
            cases hj
            exact .mkdir hpc hfree rfl rfl
    | some m => cases hd; cases hj; exact .keep rfl rfl rfl rfl rfl
  case chownRemove =>
    cases e with
    | none => cases hd; cases hj; exact .rmdir (.inl hpc) (Bool.and_false _) rfl rfl
    | some m => cases hd; cases hj; exact .keep rfl rfl (Bool.and_true _) rfl rfl
  case tdRemove =>
    cases e with
    | none => cases hd; cases hj; exact .rmdir (.inr hpc) (Bool.and_false _) rfl rfl
    | some m => cases hd; cases hj; exact .keep rfl rfl (Bool.and_true _) rfl rfl
  case cgMkdir =>
    cases e with
    | none =>
        simp only [] at hj hd
        split at hd
        · cases hd
        · next hfree =>
            cases hd
            cases hj
            exact .mkLeaf hpc hfree rfl rfl rfl
    | some m => cases hd; cases hj; exact .keep rfl rfl rfl rfl rfl
  case cgRemove =>
    cases e with
    | none => cases hd; cases hj; exact .rmLeaf (.inl hpc) rfl (Bool.and_false _) rfl
    | some m => cases hd; cases hj; exact .keep rfl rfl rfl (Bool.and_true _) rfl
  case tdCgroup =>
    cases hcg : sb.jail.cg <;> cases e <;> simp only [hcg] at hj hd <;> cases hd <;>
      cases hj
    · exact .keep rfl rfl rfl rfl rfl
    · exact .keep rfl rfl rfl rfl rfl
    · exact .rmLeaf (.inr hpc) rfl (Bool.and_false _) rfl
    · exact .keep rfl rfl rfl (Bool.and_true _) rfl
  case gone => cases hj
  case alloc =>
    cases hd
    split at hj <;> cases hj <;> exact .keep rfl rfl rfl rfl rfl
  case chownDir | cgEnable | mkdirApp | chownApp | writeSource | chownSource =>
    cases e <;> cases hd <;> cases hj <;> exact .keep rfl rfl rfl rfl rfl
  case releaseUid | chownRelease | live | tdRelease =>
    cases hd
    cases hj
    exact .keep rfl rfl rfl rfl rfl

/-- A jail's operation is a turn of the directories. -/
theorem dirs_turn {r : Pool × Jail} {d : Disk × GoString}
    (hw : JailWf clean sb.jail)
    (hj : jailStep cgActive pool sb.jail e = some r)
    (hd : diskStep umask srcName source disk sb e name = some d) :
    Turn (fun _ => False) disk.dirs sb.dirs d.1.dirs
      (Sandbox.mk r.2 d.2).dirs := by
  have heff := disk_effect hj hd
  generalize d.1 = d', Sandbox.mk r.2 d.2 = sb' at heff
  unfold JailWf at hw
  cases heff with
  | mkdir hpc hfree hdir =>
      simp only [hpc] at hw
      rw [Sandbox.dirs, Sandbox.dirs, hw.1, hdir]
      exact .take hfree (.refl _)
  | rmdir hpc hdir =>
      have hhad : sb.jail.dir = true := by
        rcases hpc with hpc | hpc <;> simp only [hpc] at hw <;> exact hw.1
      rw [Sandbox.dirs, Sandbox.dirs, hhad, hdir]
      exact .give (.refl _)
  | mkLeaf _ _ hdir _ hname | rmLeaf _ hdir _ hname =>
      rw [Sandbox.dirs, Sandbox.dirs, hdir, hname]
      exact .keep (.refl _)
  | keep hdirs _ hdir _ hname =>
      rw [Sandbox.dirs, Sandbox.dirs, hdir, hname, hdirs]
      exact .keep (.refl _)

/-- A jail's operation is a turn of the cgroups, if no cgroup of its name is
left behind by another jail. -/
theorem leaves_turn {r : Pool × Jail} {d : Disk × GoString}
    (hw : JailWf clean sb.jail)
    (hfree : sb.jail.dir = true → sb.jail.leaf = false → sb.name ∉ disk.leaves)
    (hj : jailStep cgActive pool sb.jail e = some r)
    (hd : diskStep umask srcName source disk sb e name = some d) :
    Turn (fun _ => False) disk.leaves sb.leaves d.1.leaves
      (Sandbox.mk r.2 d.2).leaves := by
  have heff := disk_effect hj hd
  generalize d.1 = d', Sandbox.mk r.2 d.2 = sb' at heff
  unfold JailWf at hw
  cases heff with
  | mkdir hpc _ _ hleaf =>
      simp only [hpc] at hw
      rw [Sandbox.leaves, Sandbox.leaves, hleaf, hw.2.1]
      exact .keep (.refl _)
  | rmdir _ _ hleaf hname =>
      rw [Sandbox.leaves, Sandbox.leaves, hleaf, hname]
      exact .keep (.refl _)
  | mkLeaf hpc hnew _ hleaf hname =>
      simp only [hpc] at hw
      rw [Sandbox.leaves, Sandbox.leaves, hw.2.1, hleaf, hname]
      exact .take hnew (.refl _)
  | rmLeaf hpc _ hleaf' =>
      have hdir : sb.jail.dir = true := by
        rcases hpc with hpc | hpc <;> simp only [hpc] at hw <;> exact hw.1
      rw [Sandbox.leaves, Sandbox.leaves, hleaf']
      by_cases hleaf : sb.jail.leaf = true
      · rw [if_pos hleaf]
        exact .give (.refl _)
      · -- there is no cgroup of this name, and removing it changes nothing
        rw [Bool.not_eq_true] at hleaf
        have hnot := hfree hdir hleaf
        have hsame : (disk.removeLeaf sb.name).leaves = disk.leaves := by
          show disk.leaves.filter _ = disk.leaves
          rw [List.filter_eq_self]
          intro n hn
          rw [decide_eq_true_eq]
          exact fun heq => hnot (heq ▸ hn)
        rw [hsame, hleaf]
        exact .keep (.refl _)
  | keep _ hleaves _ hleaf hname =>
      rw [Sandbox.leaves, Sandbox.leaves, hleaf, hname, hleaves]
      exact .keep (.refl _)

end

end Goboxd.Runner
