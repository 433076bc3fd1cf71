import Goboxd.Cgroupv2.Calls

/-!
# What removing jail directories leaves of the hierarchy

`removeJailDir` empties a group from below and then removes it, without ever looking at
what holds processes: the kernel's refusal is all that stands between it and a jail that
still runs. Two things follow, and they are proved apart. Whatever the answers are, the
calls that are made name nothing but groups at or below the path, and what the kernel then
takes away was not populated; this is read off the program alone. That everything which was
not populated does go is an argument about runs, by induction on the levels: each child's
subtree is down to what was populated when its own removal is done, others can only shrink
it further, and so the final `rmdir` finds a child only where there is a process below.

The others are the processes of the jails that end and nsjail that removes its leaves, at
any moment. With nobody else about, the two halves meet, and what is left is known exactly.
-/

namespace Goboxd.Cgroupv2

open Go Cgroup Calls Hierarchy

/-- A hierarchy, and how often the program has slept. -/
structure Host where
  tree : Hierarchy GoString
  slept : ℕ

/-- A hierarchy that others may change by `others`, between the calls and during the sleeps,
and that is in `late` after each sleep. Any other call may answer and do anything. -/
def settling (others : Hierarchy GoString → Hierarchy GoString → Prop)
    (late : ℕ → Hierarchy GoString → Prop) : Setting Call Answer Host where
  others s t := others s.tree t.tree ∧ t.slept = s.slept
  act
    | .readDir p, s, x, t => t = s ∧ s.tree.Listing p x
    | .remove p, s, x, t => s.tree.Removal p x t.tree ∧ t.slept = s.slept
    | .sleep, s, _, t =>
        Relation.ReflTransGen others s.tree t.tree ∧ t.slept = s.slept + 1 ∧
          late t.slept t.tree
    | _, _, _, _ => True

/-! ## The calls that are made -/

/-- A call that looks at a group in `P`, or removes one. -/
def Call.About (P : Path → Prop) : Call → Prop
  | .readDir p | .remove p => P p
  | _ => False

theorem Call.About.mono {P P' : Path → Prop} {c : Call} (h : c.About P)
    (himp : ∀ p, P p → P' p) : c.About P' := by
  cases c <;> first | exact himp _ h | exact h

theorem removeDirs_only {P : Call → Prop} {rd : Path → Prog (Except Errno Unit)} {p : Path}
    {entries : List (GoString × Bool)} (h : ∀ n, (n, true) ∈ entries → (rd (p ++ [n])).Only P) :
    (removeDirs rd p entries).Only P := by
  induction entries with
  | nil => trivial
  | cons e rest ih =>
      obtain ⟨name, isDir⟩ := e
      have hrest := ih fun n hn => h n (List.mem_cons_of_mem _ hn)
      cases isDir with
      | false => exact hrest
      | true => exact Only.bind (h name List.mem_cons_self) fun _ => hrest

theorem removeFiles_only {P : Call → Prop} {p : Path} {names : List GoString}
    (h : ∀ n ∈ names, P (.remove (p ++ [n]))) : (removeFiles p names).Only P := by
  induction names with
  | nil => trivial
  | cons name rest ih =>
      exact ⟨h name List.mem_cons_self, fun _ => ih fun n hn => h n (List.mem_cons_of_mem _ hn)⟩

theorem removeJailDir_only (fuel : ℕ) (p : Path) :
    (removeJailDir fuel p).Only (Call.About (p <+: ·)) := by
  induction fuel generalizing p with
  | zero => trivial
  | succ fuel ih =>
      refine ⟨List.prefix_rfl, fun x => ?_⟩
      have hend : (removeFiles p jailFiles >>= fun _ => remove p).Only (Call.About (p <+: ·)) :=
        Only.bind (removeFiles_only fun n _ => List.prefix_append p [n]) fun _ =>
          ⟨List.prefix_rfl, fun _ => trivial⟩
      cases x with
      | error e => exact hend
      | ok entries =>
          refine Only.bind (p := removeDirs _ p entries) (removeDirs_only fun n _ => ?_)
            fun _ => hend
          exact (ih (p ++ [n])).mono fun c hc =>
            hc.mono fun q hq => (List.prefix_append p [n]).trans hq

/-! ## What a run leaves -/

/-- What removing `p` from `h` leaves at and below it: nothing that was not populated, and
`p` itself only with the refusal that says so. -/
structure Left (h : Hierarchy GoString) (p : Path) (r : Except Errno Unit)
    (h' : Hierarchy GoString) : Prop where
  shrinks : h.Shrinks h'
  populated : ∀ q ∈ h'.groups, p <+: q → h.Populated q
  busy : p ∈ h'.groups → r = .error .EBUSY

section Runs

variable {others : Hierarchy GoString → Hierarchy GoString → Prop}
  {late : ℕ → Hierarchy GoString → Prop} {s t : Host} {p : Path} {fuel : ℕ}

theorem between_shrinks (hothers : ∀ h h', others h h' → h.Shrinks h')
    (h : (settling others late).Between s t) :
    s.tree.Shrinks t.tree ∧ t.slept = s.slept := by
  refine Setting.Between.rel (r := fun s t => s.tree.Shrinks t.tree ∧ t.slept = s.slept)
    (fun s => ⟨.refl _, rfl⟩) (fun s t u hst htu => ?_) (fun s t hst => ?_) h
  · exact ⟨hst.1.trans htu.1, htu.2.trans hst.2⟩
  · exact ⟨hothers _ _ hst.1, hst.2⟩

theorem Left.after {h h' h'' : Hierarchy GoString} {r : Except Errno Unit}
    (hl : Left h p r h') (hs : h'.Shrinks h'') : Left h p r h'' where
  shrinks := hl.shrinks.trans hs
  populated := fun q hq hpq => hl.populated q (hs.groups hq) hpq
  busy := fun hp => hl.busy (hs.groups hp)

theorem Left.before {h₀ h h' : Hierarchy GoString} {r : Except Errno Unit}
    (hs : h₀.Shrinks h) (hl : Left h p r h') : Left h₀ p r h' where
  shrinks := hs.trans hl.shrinks
  populated := fun q hq hpq => hs.populated (hl.populated q hq hpq)
  busy := hl.busy

/-- What the loop over a group's entries leaves below each of them. -/
def Emptied (h : Hierarchy GoString) (p : Path) (entries : List (GoString × Bool))
    (h' : Hierarchy GoString) : Prop :=
  h.Shrinks h' ∧
    ∀ n, (n, true) ∈ entries → ∀ q ∈ h'.groups, p ++ [n] <+: q → h.Populated q

theorem removeDirs_meets (hothers : ∀ h h', others h h' → h.Shrinks h')
    {rd : Path → Prog (Except Errno Unit)} {entries : List (GoString × Bool)}
    (hrd : ∀ n, (n, true) ∈ entries → ∀ t : Host, s.tree.Shrinks t.tree →
      (rd (p ++ [n])).Meets (settling others late)
        (fun r u => Left t.tree (p ++ [n]) r u.tree ∧ u.slept = t.slept) t) :
    (removeDirs rd p entries).Meets (settling others late)
      (fun _ t => Emptied s.tree p entries t.tree ∧ t.slept = s.slept) s := by
  induction entries generalizing s with
  | nil =>
      intro t ht
      obtain ⟨hs, hslept⟩ := between_shrinks hothers ht
      exact ⟨⟨hs, fun n hn => absurd hn List.not_mem_nil⟩, hslept⟩
  | cons e rest ih =>
      obtain ⟨name, isDir⟩ := e
      cases isDir with
      | false =>
          refine (ih fun n hn => hrd n (List.mem_cons_of_mem _ hn)).mono ?_
          rintro _ t ⟨⟨hs, hrest⟩, hslept⟩
          exact ⟨⟨hs, fun n hn => hrest n (by simpa using hn)⟩, hslept⟩
      | true =>
          refine Meets.bind ((hrd name List.mem_cons_self s (.refl _)).mono ?_)
          rintro r u ⟨hl, hu⟩
          refine (ih fun n hn t ht => hrd n (List.mem_cons_of_mem _ hn) t
            (hl.shrinks.trans ht)).mono ?_
          rintro _ t ⟨⟨hs, hrest⟩, ht⟩
          refine ⟨⟨hl.shrinks.trans hs, fun n hn q hq hnq => ?_⟩, ht.trans hu⟩
          rcases List.mem_cons.mp hn with heq | hn
          · obtain rfl := (Prod.mk.inj heq).1
            exact hl.populated q (hs.groups hq) hnq
          · exact hl.shrinks.populated (hrest n hn q hq hnq)

theorem removeFiles_meets (hothers : ∀ h h', others h h' → h.Shrinks h')
    {names : List GoString} :
    (removeFiles p names).Meets (settling others late)
      (fun _ t => s.tree.Shrinks t.tree ∧ t.slept = s.slept) s := by
  induction names generalizing s with
  | nil => exact fun t ht => between_shrinks hothers ht
  | cons name rest ih =>
      intro t ht x u hu
      obtain ⟨hs, hslept⟩ := between_shrinks hothers ht
      refine ih.mono ?_
      rintro _ v ⟨hv, hvslept⟩
      exact ⟨(hs.trans hu.1.shrinks).trans hv, hvslept.trans (hu.2.trans hslept)⟩

/-- The final `rmdir`, once the children are down to what was populated. -/
theorem left_of_removal {h h₁ h' : Hierarchy GoString} {r : Except Errno Unit}
    (hs : h.Shrinks h₁) (hchildren : ∀ n, ∀ q ∈ h₁.groups, p ++ [n] <+: q → h.Populated q)
    (hr : h₁.Removal p r h') (hne : p ≠ []) : Left h p r h' := by
  have hshrinks := hs.trans hr.shrinks
  refine ⟨hshrinks, fun q hq hpq => ?_, fun hp => (hr.refused hp).1⟩
  have hq₁ : q ∈ h₁.groups := hr.shrinks.groups hq
  rcases eq_or_below_child hpq hq₁ with rfl | ⟨n, hn, hnq⟩
  · rcases (hr.refused hq).2 with hroot | hprocs | hchild
    · exact absurd hroot hne
    · exact hs.populated (populated_of_procs hprocs)
    · obtain ⟨n, hn⟩ := List.exists_mem_of_ne_nil _ hchild
      have hmem := mem_children.mp hn
      exact (hchildren n _ hmem List.prefix_rfl).above (List.prefix_append q [n])
  · exact hchildren n q hq₁ hnq

/-- The removal of a group, for any number of levels that is enough. -/
theorem removeJailDir_meets (hothers : ∀ h h', others h h' → h.Shrinks h') (hne : p ≠ [])
    (hfuel : 0 < fuel) (hdepth : ∀ q ∈ s.tree.groups, q.length < p.length + fuel) :
    (removeJailDir fuel p).Meets (settling others late)
      (fun r t => Left s.tree p r t.tree ∧ t.slept = s.slept) s := by
  induction fuel generalizing p s with
  | zero => cases hfuel
  | succ fuel ih =>
      intro s₁ h₁ x s₂ hlist
      obtain ⟨rfl, hlist⟩ := hlist
      obtain ⟨hs₁, hslept₁⟩ := between_shrinks hothers h₁
      -- the files and the group itself, once the entries are dealt with
      have hend : ∀ u : Host, s.tree.Shrinks u.tree →
          (∀ n, ∀ q ∈ u.tree.groups, p ++ [n] <+: q → s.tree.Populated q) →
          u.slept = s.slept →
          (removeFiles p jailFiles >>= fun _ => remove p).Meets (settling others late)
            (fun r t => Left s.tree p r t.tree ∧ t.slept = s.slept) u := by
        intro u hu hchildren huslept
        refine Meets.bind ((removeFiles_meets hothers).mono ?_)
        rintro _ v ⟨hv, hvslept⟩ w hw r y hy z hz
        obtain ⟨hvw, hwslept⟩ := between_shrinks hothers hw
        obtain ⟨hyz, hzslept⟩ := between_shrinks hothers hz
        have huw : u.tree.Shrinks w.tree := hv.trans hvw
        refine ⟨(left_of_removal (hu.trans huw) (fun n q hq hnq =>
          hchildren n q (huw.groups hq) hnq) hy.1 hne).after hyz, ?_⟩
        rw [hzslept, hy.2, hwslept, hvslept, huslept]
      cases hlist with
      | absent habsent =>
          refine hend _ hs₁ (fun n q hq hnq => ?_) hslept₁
          exact absurd (mem_of_ancestor ((List.prefix_append p [n]).trans hnq) hq) habsent
      | groups hp hall =>
          refine Meets.bind (p := removeDirs _ p _)
            ((removeDirs_meets hothers fun n hn t ht => ?_).mono ?_)
          · have hmem := (hall n).mp hn
            have hlen := hdepth _ (hs₁.groups hmem)
            rw [List.length_append, List.length_singleton] at hlen
            refine ih (by simp) (by omega) fun q hq => ?_
            have hq' := hdepth q ((hs₁.trans ht).groups hq)
            rw [List.length_append, List.length_singleton]
            omega
          · rintro _ u ⟨⟨hu, hempty⟩, huslept⟩
            refine hend u (hs₁.trans hu) (fun n q hq hnq => ?_) (huslept.trans hslept₁)
            have hmem := (hall n).mpr (hu.groups (mem_of_ancestor hnq hq))
            exact hs₁.populated (hempty n hmem q hq hnq)

theorem sweep_meets (hothers : ∀ h h', others h h' → h.Shrinks h')
    (hdepth : ∀ q ∈ s.tree.groups, q.length < p.length + 1 + fuel) :
    (Sweep fuel p).Meets (settling others late)
      (fun _ t => s.tree.Shrinks t.tree ∧
        ∀ q ∈ t.tree.groups, p <+: q → q ≠ p → s.tree.Populated q) s := by
  intro s₁ h₁ x s₂ hlist
  obtain ⟨rfl, hlist⟩ := hlist
  obtain ⟨hs₁, -⟩ := between_shrinks hothers h₁
  cases hlist with
  | absent habsent =>
      intro t ht
      obtain ⟨hs, -⟩ := between_shrinks hothers ht
      refine ⟨hs₁.trans hs, fun q hq hpq _ => ?_⟩
      exact absurd (mem_of_ancestor hpq (hs.groups hq)) habsent
  | groups hp hall =>
      show (removeDirs _ p _).Meets _ _ _
      refine (removeDirs_meets hothers fun n hn t ht => ?_).mono ?_
      · have hmem := (hall n).mp hn
        have hlen := hdepth _ (hs₁.groups hmem)
        rw [List.length_append, List.length_singleton] at hlen
        refine removeJailDir_meets hothers (by simp) (by omega) fun q hq => ?_
        have hq' := hdepth q ((hs₁.trans ht).groups hq)
        rw [List.length_append, List.length_singleton]
        omega
      · rintro _ t ⟨⟨hs, hempty⟩, -⟩
        refine ⟨hs₁.trans hs, fun q hq hpq hne => ?_⟩
        rcases eq_or_below_child hpq hq with heq | ⟨n, hn, hnq⟩
        · exact absurd heq hne
        · exact hs₁.populated (hempty n ((hall n).mpr (hs.groups hn)) q hq hnq)

/-- One attempt after another: what is left is what was populated, and nothing is when the
group was drained before the last attempt. -/
theorem teardownLoop_meets (hothers : ∀ h h', others h h' → h.Shrinks h') (hne : p ≠ [])
    (hfuel : 0 < fuel) {h : Hierarchy GoString} (hh : h.Shrinks s.tree)
    (hdepth : ∀ q ∈ h.groups, q.length < p.length + fuel) {left : ℕ} (hleft : 0 < left)
    (hslept : s.slept + left = 5) (hdrained : 4 ≤ s.slept → ¬ s.tree.Populated p) :
    (teardownLoop fuel p left).Meets
      (settling others fun n t => 4 ≤ n → ¬ t.Populated p)
      (fun _ t => p ∉ t.tree.groups) s := by
  induction left generalizing s with
  | zero => cases hleft
  | succ left ih =>
      refine Meets.bind ((removeJailDir_meets hothers hne hfuel
        fun q hq => hdepth q (hh.groups hq)).mono ?_)
      rintro r t ⟨hl, htslept⟩
      have hgone : r ≠ .error .EBUSY → ∀ u, (settling others fun n t => 4 ≤ n →
          ¬ t.Populated p).Between t u → p ∉ u.tree.groups := by
        intro hr u hu hp
        exact hr (hl.busy ((between_shrinks hothers hu).1.groups hp))
      cases r with
      | ok _ => exact hgone (by simp)
      | error e =>
          cases e with
          | EBUSY =>
              intro u hu _ v hv
              obtain ⟨hus, huslept⟩ := between_shrinks hothers hu
              obtain ⟨hgo, hvslept, hlate⟩ := hv
              have hvs : u.tree.Shrinks v.tree :=
                Relation.ReflTransGen.rec (.refl _) (fun _ hstep ih => ih.trans (hothers _ _ hstep))
                  hgo
              cases left with
              | zero =>
                  -- the last attempt began with the group drained
                  intro w hw hp
                  have hpt : p ∈ t.tree.groups :=
                    hus.groups (hvs.groups ((between_shrinks hothers hw).1.groups hp))
                  exact hdrained (by omega) (hl.populated p hpt List.prefix_rfl)
              | succ left =>
                  exact ih (((hh.trans hl.shrinks).trans hus).trans hvs) (Nat.succ_pos _)
                    (by omega) hlate
          | ENOENT => exact hgone (by simp)
          | EEXIST => exact hgone (by simp)
          | other code => exact hgone (by simp)

end Runs

/-! ## The sweep and the teardown -/

/-- Below a directory, and not the directory itself. -/
def Below (base q : Path) : Prop := base <+: q ∧ q ≠ base

theorem below_child {base : Path} {n : GoString} {q : Path} (h : base ++ [n] <+: q) :
    Below base q := by
  refine ⟨(List.prefix_append base [n]).trans h, ?_⟩
  rintro rfl
  have hlen := h.length_le
  rw [List.length_append, List.length_singleton] at hlen
  omega

theorem sweep_only (fuel : ℕ) (base : Path) :
    (Sweep fuel base).Only fun c => c = .readDir base ∨ c.About (Below base) := by
  refine ⟨.inl rfl, fun x => ?_⟩
  cases x with
  | error e => trivial
  | ok entries =>
      show (removeDirs _ base entries).Only _
      exact removeDirs_only fun n _ => (removeJailDir_only fuel (base ++ [n])).mono fun c hc =>
        .inr (hc.mono fun q hq => below_child hq)

/-- `RemoveJail` keeps to the jail's directory, and leaves of it, whatever the others do,
nothing that was not populated. -/
theorem removeJail_left {others : Hierarchy GoString → Hierarchy GoString → Prop}
    {late : ℕ → Hierarchy GoString → Prop} (hothers : ∀ h h', others h h' → h.Shrinks h')
    (h : Hierarchy GoString) (base : Path) (id : GoString) (n k : ℕ) :
    (∀ fuel, (RemoveJail fuel base id).Only (Call.About (base ++ [id] <+: ·))) ∧
    (RemoveJail (h.depth + k + 1) base id).Meets (settling others late)
      (fun r t => Left h (base ++ [id]) r t.tree) ⟨h, n⟩ := by
  refine ⟨fun fuel => removeJailDir_only fuel _, ?_⟩
  have hdepth : ∀ q ∈ h.groups, q.length < (base ++ [id]).length + (h.depth + k + 1) := by
    intro q hq
    have hle : q.length ≤ h.depth := length_le_depth hq
    omega
  exact (removeJailDir_meets hothers (by simp) (Nat.succ_pos _) hdepth).mono fun _ _ ht => ht.1

theorem teardown_only (fuel : ℕ) (p : Path) (left : ℕ) :
    (teardownLoop fuel p left).Only fun c => c = .sleep ∨ c.About (p <+: ·) := by
  induction left with
  | zero => trivial
  | succ left ih =>
      refine Only.bind ((removeJailDir_only fuel p).mono fun c hc => .inr hc) fun r => ?_
      cases r with
      | ok _ => trivial
      | error e =>
          cases e with
          | EBUSY => exact ⟨.inl rfl, fun _ => ih⟩
          | ENOENT => trivial
          | EEXIST => trivial
          | other code => trivial

theorem pruned_of_about {others : Hierarchy GoString → Hierarchy GoString → Prop}
    {late : ℕ → Hierarchy GoString → Prop} {away : Path → Prop} {c : Call} {s t : Host}
    {x : Answer c} (hc : c.About away) (hact : (settling others late).act c s x t) :
    s.tree.Pruned away t.tree := by
  cases c <;> first | exact absurd hc id | skip
  case readDir p =>
    obtain ⟨rfl, -⟩ := hact
    exact .refl _ _
  case remove p => exact hact.1.pruned hc

/-- With nobody else about, a program that only takes away unpopulated groups of `away`
leaves the rest as it was. -/
theorem pruned_of_only {α : Type} {late : ℕ → Hierarchy GoString → Prop} {away : Path → Prop}
    {prog : Prog α} {Q : α → Host → Prop} {s : Host} {P : Call → Prop} (honly : prog.Only P)
    (hP : ∀ c u x v, P c → (settling (fun _ _ => False) late).act c u x v →
      u.tree.Pruned away v.tree)
    (h : prog.Meets (settling (fun _ _ => False) late) Q s) :
    prog.Meets (settling (fun _ _ => False) late)
      (fun a t => Q a t ∧ s.tree.Pruned away t.tree) s := by
  refine honly.keeps (I := fun t => s.tree.Pruned away t.tree) ?_ ?_ h (.refl _ _)
  · intro u v huv
    exact huv.1.elim
  · intro c u x v hc hact hu
    exact hu.trans (hP c u x v hc hact)

theorem sweep_prunes (base : Path) (fuel : ℕ)
    (others : Hierarchy GoString → Hierarchy GoString → Prop)
    (late : ℕ → Hierarchy GoString → Prop) :
    (Sweep fuel base).Only fun c => ∀ s x t,
      (settling others late).act c s x t → s.tree.Pruned (Below base) t.tree := by
  refine (sweep_only fuel base).mono fun c hc s x t hact => ?_
  rcases hc with rfl | hc
  · obtain ⟨rfl, -⟩ := hact
    exact .refl _ _
  · exact pruned_of_about hc hact

/-- A sweep that nobody disturbs leaves the groups that are not below the base and those
that something runs in or below. -/
theorem sweep_alone (h : Hierarchy GoString) (base : Path) (n k : ℕ)
    (late : ℕ → Hierarchy GoString → Prop) :
    (Sweep (h.depth + k) base).Meets (settling (fun _ _ => False) late)
      (fun _ t => t.tree.procs = h.procs ∧
        ∀ q, q ∈ t.tree.groups ↔ q ∈ h.groups ∧ (¬ Below base q ∨ h.Populated q)) ⟨h, n⟩ := by
  have hmeets : (Sweep (h.depth + k) base).Meets (settling (fun _ _ => False) late)
      (fun _ t => h.Shrinks t.tree ∧ ∀ q ∈ t.tree.groups, base <+: q → q ≠ base →
        h.Populated q) ⟨h, n⟩ := by
    refine sweep_meets (fun _ _ hf => hf.elim) fun q hq => ?_
    have hle : q.length ≤ h.depth := length_le_depth hq
    omega
  refine (pruned_of_only (sweep_prunes base _ _ late) (fun c s x t hc hact => hc s x t hact)
    hmeets).mono ?_
  rintro _ t ⟨⟨hs, hbelow⟩, hpruned⟩
  refine ⟨hpruned.procs, fun q => ⟨fun hq => ⟨hpruned.groups hq, ?_⟩, fun hq =>
    hpruned.kept q hq.1 hq.2⟩⟩
  by_cases hb : Below base q
  · exact .inr (hbelow q hq hb.1 hb.2)
  · exact .inl hb

/-- Whatever the others do and whatever it is answered, the sweep only ever takes away
groups below the base that nothing runs in; and alone it leaves exactly the groups that are
not below the base or that something runs in or below. -/
theorem sweep_exact (h : Hierarchy GoString) (base : Path) (n k : ℕ)
    (late : ℕ → Hierarchy GoString → Prop) :
    (∀ fuel others, (Sweep fuel base).Only fun c => ∀ s x t,
      (settling others late).act c s x t → s.tree.Pruned (Below base) t.tree) ∧
    (Sweep (h.depth + k) base).Meets (settling (fun _ _ => False) late)
      (fun _ t => t.tree.procs = h.procs ∧
        ∀ q, q ∈ t.tree.groups ↔ q ∈ h.groups ∧ (¬ Below base q ∨ h.Populated q)) ⟨h, n⟩ :=
  ⟨fun fuel others => sweep_prunes base fuel others late, sweep_alone h base n k late⟩

/-- Whatever it is answered, the teardown takes away nothing outside the jail's directory and
nothing that something runs in. When the jail's processes are all gone by the end of the
fourth wait, whatever the others do and in whatever order, the directory is gone in the
end. -/
theorem teardown_removes (h : Hierarchy GoString) (path : Path) (name : GoString) (k : ℕ) :
    (∀ fuel others late, (Teardown fuel (path ++ [name])).Only fun c => c = .sleep ∨ ∀ s x t,
      (settling others late).act c s x t → s.tree.Pruned (path ++ [name] <+: ·) t.tree) ∧
    (Teardown (h.depth + k + 1) (path ++ [name])).Meets
      (settling Shrinks fun n t => 4 ≤ n → ¬ t.Populated (path ++ [name]))
      (fun _ t => path ++ [name] ∉ t.tree.groups) ⟨h, 0⟩ := by
  constructor
  · intro fuel others late
    refine (teardown_only fuel _ 5).mono fun c hc => hc.imp_right fun hc s x t hact => ?_
    exact pruned_of_about hc hact
  · refine teardownLoop_meets (fun _ _ hs => hs) (by simp) (Nat.succ_pos _) (.refl _)
      (fun q hq => ?_) (by decide) rfl fun h4 => absurd h4 (by simp)
    have hle : q.length ≤ h.depth := length_le_depth hq
    omega

end Goboxd.Cgroupv2
