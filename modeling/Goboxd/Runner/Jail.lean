import Goboxd.Lib.Family
import Goboxd.Uidpool

/-!
# The lifecycle of a jail

`newJail` and `teardown` are modelled one operation at a time: the uid from
the pool, the directory, its owner, the cgroup directory, the app dir, the
source, and the removal of all of it. Each operation that can fail does so when
the step carries an error, and the error exits are the source's: the first two
release by hand, the later ones run `teardown`. Any number of jails take their
steps in any order, which is what concurrent requests and parallel tests do to
the one pool they share.

The order of the operations is the subject here, so each removal is a step
apart from the release of the uid that precedes it in the source.
-/

namespace Goboxd.Runner

open Go Uidpool

inductive JailPc where
  | alloc
  | mkdirTemp
  /-- `uidPool.Release` after a failed `MkdirTemp`. -/
  | releaseUid
  | chownDir
  /-- `uidPool.Release` after a failed `Chown` of the directory. -/
  | chownRelease
  /-- `os.RemoveAll` after a failed `Chown` of the directory. -/
  | chownRemove
  /-- `os.Mkdir` in the manager's `NewJail`. -/
  | cgMkdir
  /-- The `cgroup.subtree_control` writes in the manager's `NewJail`. -/
  | cgEnable
  /-- `RemoveJail` after a failed `NewJail`. -/
  | cgRemove
  | mkdirApp
  | chownApp
  | writeSource
  | chownSource
  /-- `newJail` returned; the deferred `teardown` is next. -/
  | live
  | tdRelease
  | tdCgroup
  | tdRemove
  | gone
deriving DecidableEq, Repr

/-- A jail: its next operation, its uid, whether its directory and its cgroup
directory exist on disk, whether it holds a `*cgroupv2.Jail`, and the error
`newJail` returns. -/
structure Jail where
  pc : JailPc
  uid : Int
  dir : Bool
  leaf : Bool
  cg : Bool
  err : Option GoString
deriving DecidableEq, Repr

def Jail.fresh : Jail :=
  { pc := .alloc, uid := 0, dir := false, leaf := false, cg := false
    err := none }

/-- An error exit that goes through `teardown`. -/
def Jail.fail (j : Jail) (msg : String) (e : GoString) : Jail :=
  { j with pc := .tdRelease, err := some (str msg ++ e) }

/-- One operation of a jail. `e` is the error of the operation, when it fails;
operations that cannot fail, or whose error is dropped with nothing left
behind, do not read it. A removal that fails leaves what it was to remove. -/
def jailStep (cgActive : Bool) (pool : Pool) (j : Jail)
    (e : Option GoString) : Option (Pool × Jail) :=
  match j.pc with
  | .alloc =>
      match pool.alloc with
      | .ok (uid, pool) => some (pool, { j with pc := .mkdirTemp, uid := uid })
      | .error m =>
          some (pool,
            { j with pc := .gone, err := some (str "allocating jail uid: " ++ m) })
  | .mkdirTemp =>
      match e with
      | none => some (pool, { j with pc := .chownDir, dir := true })
      | some m =>
          some (pool,
            { j with
              pc := .releaseUid
              err := some (str "failed to create jail dir: " ++ m) })
  | .releaseUid => some (pool.release j.uid, { j with pc := .gone })
  | .chownDir =>
      match e with
      | none =>
          some (pool, { j with pc := if cgActive then .cgMkdir else .mkdirApp })
      | some m =>
          some (pool,
            { j with
              pc := .chownRelease
              err := some (str "failed to chown jail dir: " ++ m) })
  | .chownRelease => some (pool.release j.uid, { j with pc := .chownRemove })
  | .chownRemove => some (pool, { j with pc := .gone, dir := j.dir && e.isSome })
  | .cgMkdir =>
      match e with
      | none => some (pool, { j with pc := .cgEnable, leaf := true })
      | some _ => some (pool, { j with pc := .cgRemove })
  | .cgEnable =>
      match e with
      | none => some (pool, { j with pc := .mkdirApp, cg := true })
      | some _ => some (pool, { j with pc := .cgRemove })
  | .cgRemove =>
      some (pool, { j with pc := .mkdirApp, leaf := j.leaf && e.isSome })
  | .mkdirApp =>
      match e with
      | none => some (pool, { j with pc := .chownApp })
      | some m => some (pool, j.fail "failed to create app dir: " m)
  | .chownApp =>
      match e with
      | none => some (pool, { j with pc := .writeSource })
      | some m => some (pool, j.fail "failed to chown app dir: " m)
  | .writeSource =>
      match e with
      | none => some (pool, { j with pc := .chownSource })
      | some m => some (pool, j.fail "failed to write source: " m)
  | .chownSource =>
      match e with
      | none => some (pool, { j with pc := .live })
      | some m => some (pool, j.fail "failed to chown source: " m)
  | .live => some (pool, { j with pc := .tdRelease })
  | .tdRelease => some (pool.release j.uid, { j with pc := .tdCgroup })
  | .tdCgroup =>
      some (pool,
        { j with
          pc := .tdRemove
          leaf := if j.cg then j.leaf && e.isSome else j.leaf })
  | .tdRemove => some (pool, { j with pc := .gone, dir := j.dir && e.isSome })
  | .gone => none

inductive JailEvent where
  | newJail
deriving DecidableEq, Repr

/-- Any number of jails over one pool, `cgActive` telling whether the cgroup
manager is active in this process. -/
def jails (cgActive : Bool) (minUid n : Int) :
    Family Pool Jail (Option GoString) JailEvent where
  init p := p = New minUid n
  own _ := jailStep cgActive
  env p
    | .newJail => some (p, [Jail.fresh])

/-! ## What a jail occupies -/

/-- The jail has a uid from `Alloc` that it did not release. -/
def Jail.holds (j : Jail) : Bool :=
  match j.pc with
  | .alloc | .chownRemove | .tdCgroup | .tdRemove | .gone => false
  | _ => true

/-- A directory or a cgroup directory of the jail exists. -/
def Jail.owns (j : Jail) : Bool := j.dir || j.leaf

/-- The uid is back in the pool and its directories are still there. -/
def Jail.cleaning (j : Jail) : Bool := !j.holds && j.owns

/-- The next operation is `uidPool.Release`. -/
def Jail.releases (j : Jail) : Bool :=
  match j.pc with
  | .releaseUid | .chownRelease | .tdRelease => true
  | _ => false

/-- What a jail's step does to the pool, to its uid and to what it occupies. -/
inductive JailEffect (pool : Pool) (j : Jail) : Pool × Jail → Prop where
  | alloc {uid : Int} {pool' : Pool} {j' : Jail} (hpc : j.pc = .alloc)
      (ha : pool.alloc = .ok (uid, pool')) (huid : j'.uid = uid)
      (hholds : j'.holds = true) : JailEffect pool j (pool', j')
  | release {j' : Jail} (hpc : j.releases = true) (hholds : j.holds = true)
      (hrel : j'.holds = false) (huid : j'.uid = j.uid) :
      JailEffect pool j (pool.release j.uid, j')
  | keep {j' : Jail} (huid : j'.uid = j.uid) (hholds : j'.holds = j.holds)
      (howns : j'.owns = true → j.holds = true ∨ j.owns = true)
      (hfail : j.pc = .alloc → ∃ m, pool.alloc = .error m) (hpc : j.releases = false) :
      JailEffect pool j (pool, j')

theorem jailStep_effect {cgActive : Bool} {pool : Pool} {j : Jail}
    {e : Option GoString} {r : Pool × Jail}
    (h : jailStep cgActive pool j e = some r) : JailEffect pool j r := by
  unfold jailStep at h
  cases hpc : j.pc <;> rw [hpc] at h <;> simp only [] at h
  case alloc =>
    split at h
    · next uid pool' ha => cases h; exact .alloc hpc ha rfl rfl
    · next m ha =>
        cases h
        exact .keep rfl (by simp [Jail.holds, hpc]) Or.inr (fun _ => ⟨m, ha⟩)
          (by simp [Jail.releases, hpc])
  case releaseUid | chownRelease | tdRelease =>
    cases h
    exact .release (by simp [Jail.releases, hpc]) (by simp [Jail.holds, hpc]) rfl rfl
  case gone => cases h
  case chownDir =>
    have hh : j.holds = true := by simp [Jail.holds, hpc]
    split at h <;> cases h <;>
      refine .keep rfl ?_ (fun _ => .inl hh) (fun ha => by cases hpc ▸ ha)
        (by simp [Jail.releases, hpc])
    · rw [hh]
      cases cgActive <;> rfl
    · rw [hh]
      rfl
  case mkdirTemp | cgMkdir | cgEnable | mkdirApp | chownApp | writeSource
      | chownSource =>
    have hh : j.holds = true := by simp [Jail.holds, hpc]
    split at h <;> cases h <;>
      exact .keep rfl hh.symm (fun _ => .inl hh) (fun ha => by cases hpc ▸ ha)
        (by simp [Jail.releases, hpc])
  case live | cgRemove =>
    have hh : j.holds = true := by simp [Jail.holds, hpc]
    cases h
    exact .keep rfl hh.symm (fun _ => .inl hh) (fun ha => by cases hpc ▸ ha)
      (by simp [Jail.releases, hpc])
  case chownRemove | tdRemove =>
    cases h
    refine .keep rfl (by simp [Jail.holds, hpc]) (fun ho => .inr ?_)
      (fun ha => by cases hpc ▸ ha) (by simp [Jail.releases, hpc])
    simp only [Jail.owns, Bool.or_eq_true, Bool.and_eq_true] at ho ⊢
    exact ho.imp And.left id
  case tdCgroup =>
    cases h
    refine .keep rfl (by simp [Jail.holds, hpc]) (fun ho => .inr ?_)
      (fun ha => by cases hpc ▸ ha) (by simp [Jail.releases, hpc])
    simp only [Jail.owns, Bool.or_eq_true] at ho ⊢
    refine ho.imp id fun hl => ?_
    split at hl
    · exact (Bool.and_eq_true _ _ ▸ hl).1
    · exact hl

/-- No operation changes the range of the pool. -/
theorem jailStep_pool {cgActive : Bool} {pool : Pool} {j : Jail} {e : Option GoString}
    {r : Pool × Jail} (h : jailStep cgActive pool j e = some r) :
    r.1.min = pool.min ∧ r.1.size = pool.size := by
  have hrel : (pool.release j.uid).min = pool.min ∧
      (pool.release j.uid).size = pool.size := by
    unfold Pool.release
    split <;> exact ⟨rfl, rfl⟩
  cases jailStep_effect h with
  | alloc _ ha =>
      unfold Pool.alloc at ha
      split at ha <;> cases ha
      exact ⟨rfl, rfl⟩
  | release => exact hrel
  | keep => exact ⟨rfl, rfl⟩

/-- No operation leads back to the first one. -/
theorem jailStep_pc {cgActive : Bool} {pool : Pool} {j : Jail}
    {e : Option GoString} {r : Pool × Jail}
    (h : jailStep cgActive pool j e = some r) : r.2.pc ≠ .alloc := by
  unfold jailStep at h
  cases hpc : j.pc <;> rw [hpc] at h <;> simp only [] at h
  case alloc | mkdirTemp | cgMkdir | cgEnable | mkdirApp | chownApp
      | writeSource | chownSource =>
    split at h <;> cases h <;> exact JailPc.noConfusion
  case chownDir =>
    split at h
    · cases h
      simp only []
      split <;> exact JailPc.noConfusion
    · cases h
      exact JailPc.noConfusion
  case gone => cases h
  case releaseUid | chownRelease | chownRemove | cgRemove | live | tdRelease
      | tdCgroup | tdRemove =>
    cases h
    exact JailPc.noConfusion

end Goboxd.Runner
