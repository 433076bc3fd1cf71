import Mathlib.Data.List.Infix

/-!
# A hierarchy of control groups

The directories of a cgroup file system and how many processes each of them holds. A
group can be removed only when it is empty: no process in it, no group below it. The
kernel's own files in a group are no reason to keep it and cannot be removed by hand.

What others do to a hierarchy that no new work comes to, its processes ending and its
groups going, is `Shrinks`. A group is populated when it or a group below it holds a
process. That is what no removal takes away, and the only thing that keeps a group for
good: `rmdir` leaves populated groups alone, and below what it refuses as busy there is
either a process or another group.
-/

namespace Cgroup

inductive Errno where
  | ENOENT
  | EEXIST
  | EBUSY
  /-- Whatever else a call may fail with. -/
  | other (code : ℕ)
deriving DecidableEq, Repr

/-- A group is named by the names on the way to it from the mount. -/
structure Hierarchy (ν : Type) where
  groups : List (List ν)
  procs : List ν → ℕ
  mount : [] ∈ groups
  closed : ∀ p n, p ++ [n] ∈ groups → p ∈ groups
  housed : ∀ p, 0 < procs p → p ∈ groups

namespace Hierarchy

variable {ν : Type} {h h' h'' : Hierarchy ν} {p q : List ν} {n : ν}

/-- The group, or one below it, holds a process. -/
def Populated (h : Hierarchy ν) (p : List ν) : Prop :=
  ∃ q ∈ h.groups, p <+: q ∧ 0 < h.procs q

theorem mem_of_append (r : List ν) : p ++ r ∈ h.groups → p ∈ h.groups := by
  induction r using List.reverseRecOn with
  | nil => simp
  | append_singleton r n ih =>
      intro hmem
      rw [← List.append_assoc] at hmem
      exact ih (h.closed _ _ hmem)

theorem mem_of_ancestor (hpq : p <+: q) (hq : q ∈ h.groups) : p ∈ h.groups := by
  obtain ⟨r, rfl⟩ := hpq
  exact mem_of_append r hq

/-- What is properly below a group is in or below one of its children. -/
theorem eq_or_below_child (hpq : p <+: q) (hq : q ∈ h.groups) :
    q = p ∨ ∃ n, p ++ [n] ∈ h.groups ∧ p ++ [n] <+: q := by
  obtain ⟨r, rfl⟩ := hpq
  cases r with
  | nil => exact .inl (List.append_nil p)
  | cons n r =>
      have hbelow : p ++ [n] <+: p ++ n :: r := ⟨r, by simp⟩
      exact .inr ⟨n, mem_of_ancestor hbelow hq, hbelow⟩

theorem populated_of_procs (hp : 0 < h.procs p) : h.Populated p :=
  ⟨p, h.housed p hp, List.prefix_rfl, hp⟩

theorem Populated.mem (hp : h.Populated p) : p ∈ h.groups := by
  obtain ⟨q, hq, hpq, -⟩ := hp
  exact mem_of_ancestor hpq hq

theorem Populated.above (hq : h.Populated q) (hpq : p <+: q) : h.Populated p := by
  obtain ⟨r, hr, hqr, hpos⟩ := hq
  exact ⟨r, hr, hpq.trans hqr, hpos⟩

/-! ## A hierarchy no new work comes to -/

/-- Processes ended and groups went, and nothing else happened. -/
structure Shrinks (h h' : Hierarchy ν) : Prop where
  groups : h'.groups ⊆ h.groups
  procs : ∀ p, h'.procs p ≤ h.procs p

theorem Shrinks.refl (h : Hierarchy ν) : h.Shrinks h :=
  ⟨List.Subset.refl _, fun _ => Nat.le_refl _⟩

theorem Shrinks.trans (hs : h.Shrinks h') (hs' : h'.Shrinks h'') : h.Shrinks h'' :=
  ⟨fun _ hp => hs.groups (hs'.groups hp), fun p => (hs'.procs p).trans (hs.procs p)⟩

theorem Shrinks.populated (hs : h.Shrinks h') (hp : h'.Populated p) : h.Populated p := by
  obtain ⟨q, hq, hpq, hpos⟩ := hp
  exact ⟨q, hs.groups hq, hpq, Nat.lt_of_lt_of_le hpos (hs.procs q)⟩

/-- Who populates a group is a matter of the processes alone. -/
theorem populated_iff_procs : h.Populated p ↔ ∃ q, p <+: q ∧ 0 < h.procs q := by
  constructor
  · rintro ⟨q, -, hpq, hpos⟩
    exact ⟨q, hpq, hpos⟩
  · rintro ⟨q, hpq, hpos⟩
    exact ⟨q, h.housed q hpos, hpq, hpos⟩

theorem populated_congr (hprocs : h'.procs = h.procs) : h'.Populated p ↔ h.Populated p := by
  rw [populated_iff_procs, populated_iff_procs, hprocs]

/-! ## What removing empty groups leaves -/

/-- `h'` is `h` less some groups that `away` allows and that were not populated. -/
structure Pruned (h : Hierarchy ν) (away : List ν → Prop) (h' : Hierarchy ν) : Prop where
  groups : h'.groups ⊆ h.groups
  procs : h'.procs = h.procs
  kept : ∀ q ∈ h.groups, ¬ away q ∨ h.Populated q → q ∈ h'.groups

theorem Pruned.refl (h : Hierarchy ν) (away : List ν → Prop) : h.Pruned away h :=
  ⟨List.Subset.refl _, rfl, fun _ hq _ => hq⟩

theorem Pruned.populated {away : List ν → Prop} (hp : h.Pruned away h') :
    h'.Populated q ↔ h.Populated q := populated_congr hp.procs

theorem Pruned.trans {away : List ν → Prop} (hp : h.Pruned away h') (hp' : h'.Pruned away h'') :
    h.Pruned away h'' where
  groups := fun _ hq => hp.groups (hp'.groups hq)
  procs := hp'.procs.trans hp.procs
  kept := by
    intro q hq hk
    exact hp'.kept q (hp.kept q hq hk) (hk.imp_right hp.populated.mpr)

/-! ## Removing a group -/

section Rmdir

variable [DecidableEq ν]

instance : Decidable (h.Populated p) :=
  inferInstanceAs (Decidable (∃ q ∈ h.groups, p <+: q ∧ 0 < h.procs q))

def children (h : Hierarchy ν) (p : List ν) : List ν :=
  h.groups.filterMap fun q => if q.dropLast = p then q.getLast? else none

/-- What a group is not removed for. The mount itself always stays. -/
def Busy (h : Hierarchy ν) (p : List ν) : Prop :=
  p = [] ∨ 0 < h.procs p ∨ h.children p ≠ []

instance : Decidable (h.Busy p) :=
  inferInstanceAs (Decidable (p = [] ∨ 0 < h.procs p ∨ h.children p ≠ []))

theorem mem_children : n ∈ h.children p ↔ p ++ [n] ∈ h.groups := by
  rw [children, List.mem_filterMap]
  constructor
  · rintro ⟨q, hq, heq⟩
    split at heq
    · next hp =>
        rw [← hp, List.dropLast_append_getLast? n heq]
        exact hq
    · cases heq
  · intro hq
    exact ⟨p ++ [n], hq, by simp⟩

theorem children_eq_nil_iff : h.children p = [] ↔ ∀ n, p ++ [n] ∉ h.groups := by
  constructor
  · intro hnil n hmem
    have hc := mem_children.mpr hmem
    rw [hnil] at hc
    cases hc
  · intro hall
    rw [List.eq_nil_iff_forall_not_mem]
    exact fun n hn => hall n (mem_children.mp hn)

def without (h : Hierarchy ν) (p : List ν) (hb : ¬ h.Busy p) : Hierarchy ν where
  groups := h.groups.filter (· ≠ p)
  procs := h.procs
  mount := List.mem_filter.mpr ⟨h.mount, decide_eq_true fun heq => hb (.inl heq.symm)⟩
  closed := by
    intro q n hq
    obtain ⟨hmem, -⟩ := List.mem_filter.mp hq
    refine List.mem_filter.mpr ⟨h.closed q n hmem, decide_eq_true ?_⟩
    rintro rfl
    exact hb (.inr (.inr fun hnil => children_eq_nil_iff.mp hnil n hmem))
  housed := by
    intro q hq
    refine List.mem_filter.mpr ⟨h.housed q hq, decide_eq_true ?_⟩
    rintro rfl
    exact hb (.inr (.inl hq))

def rmdir (h : Hierarchy ν) (p : List ν) : Except Errno (Hierarchy ν) :=
  if p ∉ h.groups then .error .ENOENT
  else if hb : h.Busy p then .error .EBUSY
  else .ok (h.without p hb)

theorem mem_without {hb : ¬ h.Busy p} : q ∈ (h.without p hb).groups ↔ q ∈ h.groups ∧ q ≠ p := by
  simp [without]

theorem not_busy_of_rmdir (hr : h.rmdir p = .ok h') : ∃ hb, h' = h.without p hb := by
  rw [rmdir] at hr
  split at hr
  · cases hr
  · split at hr
    · cases hr
    · next hb => exact ⟨hb, (Except.ok.inj hr).symm⟩

/-- A group that was just removed held nothing, nor did any below it. -/
theorem not_populated_of_not_busy (hb : ¬ h.Busy p) : ¬ h.Populated p := by
  rintro ⟨q, hq, hpq, hpos⟩
  rcases eq_or_below_child hpq hq with rfl | ⟨n, hn, -⟩
  · exact hb (.inr (.inl hpos))
  · exact hb (.inr (.inr fun hnil => children_eq_nil_iff.mp hnil n hn))

theorem shrinks_without {hb : ¬ h.Busy p} : h.Shrinks (h.without p hb) :=
  ⟨fun _ hq => (mem_without.mp hq).1, fun _ => Nat.le_refl _⟩

theorem pruned_of_rmdir {away : List ν → Prop} (haway : away p) (hr : h.rmdir p = .ok h') :
    h.Pruned away h' := by
  obtain ⟨hb, rfl⟩ := not_busy_of_rmdir hr
  refine ⟨shrinks_without.groups, rfl, fun q hq hk => mem_without.mpr ⟨hq, ?_⟩⟩
  rintro rfl
  rcases hk with hnot | hpop
  · exact hnot haway
  · exact not_populated_of_not_busy hb hpop

/-- What `os.ReadDir` of a group lists: the groups in it as directories, in any order and
with any of the kernel's own files among them. -/
inductive Listing (h : Hierarchy ν) (p : List ν) : Except Errno (List (ν × Bool)) → Prop
  | groups {entries : List (ν × Bool)} (hp : p ∈ h.groups)
      (hall : ∀ n, (n, true) ∈ entries ↔ p ++ [n] ∈ h.groups) : Listing h p (.ok entries)
  | absent {e : Errno} (hp : p ∉ h.groups) : Listing h p (.error e)

/-- What `os.Remove` does. It fails on the kernel's own files as it does on what is not
there. -/
inductive Removal (h : Hierarchy ν) (p : List ν) : Except Errno Unit → Hierarchy ν → Prop
  | gone {h' : Hierarchy ν} (hr : h.rmdir p = .ok h') : Removal h p (.ok ()) h'
  | busy (hp : h.Busy p) : Removal h p (.error .EBUSY) h
  | absent {e : Errno} (hp : p ∉ h.groups) : Removal h p (.error e) h

variable {x : Except Errno Unit}

theorem Removal.pruned {away : List ν → Prop} (hr : h.Removal p x h') (haway : away p) :
    h.Pruned away h' := by
  cases hr with
  | gone hr => exact pruned_of_rmdir haway hr
  | busy _ => exact .refl _ _
  | absent _ => exact .refl _ _

theorem Removal.shrinks (hr : h.Removal p x h') : h.Shrinks h' := by
  have hpruned : h.Pruned (fun _ => True) h' := hr.pruned trivial
  exact ⟨hpruned.groups, fun q => Nat.le_of_eq (by rw [hpruned.procs])⟩

/-- A group that is still there was refused as busy. -/
theorem Removal.refused (hr : h.Removal p x h') (hp : p ∈ h'.groups) :
    x = .error .EBUSY ∧ h.Busy p := by
  cases hr with
  | gone hr =>
      obtain ⟨hb, rfl⟩ := not_busy_of_rmdir hr
      exact absurd rfl (mem_without.mp hp).2
  | busy hb => exact ⟨rfl, hb⟩
  | absent habsent => exact absurd hp habsent

end Rmdir

/-! ## Making groups, and the processes in them -/

section Make

variable [DecidableEq ν]

/-- A new group, with nothing in it. -/
def add (h : Hierarchy ν) (p : List ν) (hp : p.dropLast ∈ h.groups) : Hierarchy ν where
  groups := p :: h.groups
  procs := h.procs
  mount := List.mem_cons_of_mem _ h.mount
  closed := by
    intro q n hq
    rcases List.mem_cons.mp hq with heq | hq
    · rw [← heq, List.dropLast_concat] at hp
      exact List.mem_cons_of_mem _ hp
    · exact List.mem_cons_of_mem _ (h.closed q n hq)
  housed := fun q hq => List.mem_cons_of_mem _ (h.housed q hq)

def mkdir (h : Hierarchy ν) (p : List ν) : Except Errno (Hierarchy ν) :=
  if p ∈ h.groups then .error .EEXIST
  else if hp : p.dropLast ∈ h.groups then .ok (h.add p hp)
  else .error .ENOENT

/-- The hierarchy with `n` processes in the group `p`. -/
def withProcs (h : Hierarchy ν) (p : List ν) (n : ℕ) (hp : 0 < n → p ∈ h.groups) :
    Hierarchy ν where
  groups := h.groups
  procs := Function.update h.procs p n
  mount := h.mount
  closed := h.closed
  housed := by
    intro q hq
    by_cases heq : q = p
    · subst heq
      rw [Function.update_self] at hq
      exact hp hq
    · rw [Function.update_of_ne heq] at hq
      exact h.housed q hq

/-- A process comes to a group. -/
def enter (h : Hierarchy ν) (p : List ν) (hp : p ∈ h.groups) : Hierarchy ν :=
  h.withProcs p (h.procs p + 1) fun _ => hp

/-- A process of a group ends. -/
def leave (h : Hierarchy ν) (p : List ν) : Hierarchy ν :=
  h.withProcs p (h.procs p - 1) fun hpos => h.housed p (by omega)

/-- The process that came and went. -/
theorem leave_enter {hp : p ∈ h.groups} : (h.enter p hp).leave p = h := by
  have hprocs : Function.update (Function.update h.procs p (h.procs p + 1)) p
      (Function.update h.procs p (h.procs p + 1) p - 1) = h.procs := by
    rw [Function.update_idem, Function.update_self, Nat.add_sub_cancel, Function.update_eq_self]
  cases h
  simp only [leave, enter, withProcs] at hprocs ⊢
  congr

theorem mkdir_eq_ok (hp : p ∉ h.groups) (hup : p.dropLast ∈ h.groups) :
    h.mkdir p = .ok (h.add p hup) := by
  rw [mkdir, if_neg hp, dif_pos hup]

end Make

/-- No group is named by more names. -/
def depth (h : Hierarchy ν) : ℕ := (h.groups.map List.length).foldr max 0

theorem length_le_depth (hq : q ∈ h.groups) : q.length ≤ h.depth := by
  rw [depth]
  generalize h.groups = groups at hq
  induction groups with
  | nil => cases hq
  | cons r rest ih =>
      rw [List.map_cons, List.foldr_cons]
      rcases List.mem_cons.mp hq with rfl | hq
      · exact Nat.le_max_left _ _
      · exact (ih hq).trans (Nat.le_max_right _ _)

theorem depth_le_of_subset (hsub : h'.groups ⊆ h.groups) : h'.depth ≤ h.depth := by
  have hall : ∀ l : List (List ν), (∀ q ∈ l, q.length ≤ h.depth) →
      (l.map List.length).foldr max 0 ≤ h.depth := by
    intro l hl
    induction l with
    | nil => exact Nat.zero_le _
    | cons r rest ih =>
        rw [List.map_cons, List.foldr_cons]
        exact Nat.max_le.mpr ⟨hl r List.mem_cons_self,
          ih fun q hq => hl q (List.mem_cons_of_mem _ hq)⟩
  exact hall h'.groups fun q hq => length_le_depth (hsub hq)

end Hierarchy

end Cgroup
