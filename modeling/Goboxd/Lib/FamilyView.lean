import Goboxd.Lib.Family
import Mathlib.Data.List.Perm.Basic

/-!
# One family seen in another

A family whose processes do a smaller family's steps among others of their own,
and join it in the middle of their lives. The view of a process is the
process of the smaller family that it is by now, if it is one. A step of the
larger family is then no step of the smaller one, or a step of that process, or
the smaller family's own start of it.

The processes join in another order than they are listed in, so the two lists
agree up to a permutation. That is the only cost: the process that steps has to be
found again in the other list.
-/

namespace List

variable {α : Type*}

/-- In a permutation of a list, one entry can be replaced as well. -/
theorem Perm.exists_set {l pre post : List α} {c : α} (h : l.Perm (pre ++ c :: post)) (c' : α) :
    ∃ q, l[q]? = some c ∧ (l.set q c').Perm (pre ++ c' :: post) := by
  obtain ⟨xs, ys, rfl⟩ := List.append_of_mem (h.mem_iff.mpr (by simp : c ∈ pre ++ c :: post))
  have hrest : (xs ++ ys).Perm (pre ++ post) := by
    refine List.Perm.cons_inv (a := c) ?_
    exact List.perm_middle.symm.trans (h.trans List.perm_middle)
  refine ⟨xs.length, by simp, ?_⟩
  rw [List.set_append_right _ _ (Nat.le_refl _), Nat.sub_self, List.set_cons_zero]
  exact List.perm_middle.trans ((hrest.cons c').trans List.perm_middle.symm)

theorem exists_split_of_getElem? {l : List α} {p : ℕ} {x : α} (h : l[p]? = some x) :
    ∃ pre post, l = pre ++ x :: post ∧ ∀ y, l.set p y = pre ++ y :: post := by
  obtain ⟨hp, hx⟩ := List.getElem?_eq_some_iff.mp h
  refine ⟨l.take p, l.drop (p + 1), ?_, fun y => ?_⟩
  · rw [← hx, List.getElem_cons_drop, List.take_append_drop]
  · rw [List.set_eq_take_append_cons_drop, if_pos hp]

end List

namespace Family

variable {σ ℓ α ε τ m β δ : Type*} {F : Family σ ℓ α ε} {N : Family τ m β δ}
  {G : St σ ℓ → Act α ε → Prop}

/-- The state of the smaller family: it shares what the view says, and has the
processes the view sees, in some order. -/
def Seen (g : σ → τ) (f : ℓ → Option m) (s : St σ ℓ) (t : St τ m) : Prop :=
  t.shared = g s.shared ∧ t.procs.Perm (s.procs.filterMap f)

/-- What a step of a process is to the smaller family. -/
inductive SeenStep (N : Family τ m β δ) (g : σ → τ) (f : ℓ → Option m) (s : σ) (l : ℓ)
    (r : σ × ℓ) : Prop where
  | still (hg : g r.1 = g s) (hf : f r.2 = f l)
  | step {c c' : m} {b : β} (hl : f l = some c) (hr : f r.2 = some c')
      (hstep : ∀ q, N.own q (g s) c b = some (g r.1, c'))
  | join {c : m} {e : δ} (hl : f l = none) (hr : f r.2 = some c)
      (hstep : N.env (g s) e = some (g r.1, [c]))

/-- The view rule: what the larger family reaches is seen in something the smaller
one reaches. -/
theorem seen {g : σ → τ} {f : ℓ → Option m} (hinit : ∀ s, F.init s → N.init (g s))
    (hown : ∀ s p a l r, F.machine.Reach G s → s.procs[p]? = some l →
      F.own p s.shared l a = some r → SeenStep N g f s.shared l r)
    (henv : ∀ s e r, F.env s e = some r →
      (g r.1 = g s ∧ r.2.filterMap f = []) ∨
        ∃ e', N.env (g s) e' = some (g r.1, r.2.filterMap f))
    {s : St σ ℓ} (h : F.machine.Reach G s) :
    ∃ t, N.machine.Reachable t ∧ Seen g f s t := by
  induction h with
  | @start s h =>
      refine ⟨⟨g s.shared, []⟩, .start ⟨hinit _ h.1, rfl⟩, rfl, ?_⟩
      rw [h.2]
      exact List.Perm.refl _
  | @next s s' a hreach hG hs ih =>
      obtain ⟨t, ht, hshared, hperm⟩ := ih
      cases a with
      | own p a =>
          obtain ⟨l, r, hl, hr, rfl⟩ := step_own.mp hs
          obtain ⟨pre, post, hprocs, hset⟩ := List.exists_split_of_getElem? hl
          rw [hprocs, List.filterMap_append] at hperm
          cases hown s p a l r hreach hl hr with
          | still hg hf =>
              refine ⟨t, ht, hshared.trans hg.symm, ?_⟩
              show t.procs.Perm ((s.procs.set p r.2).filterMap f)
              rw [hset, List.filterMap_append]
              simpa only [List.filterMap_cons, hf] using hperm
          | @step c c' b hc hc' hstep =>
              rw [List.filterMap_cons, hc] at hperm
              obtain ⟨q, hq, hperm⟩ := hperm.exists_set c'
              refine ⟨⟨g r.1, t.procs.set q c'⟩, .next ht trivial (step_own.mpr
                ⟨c, (g r.1, c'), hq, hshared ▸ hstep q, rfl⟩), rfl, ?_⟩
              show (t.procs.set q c').Perm ((s.procs.set p r.2).filterMap f)
              rw [hset, List.filterMap_append, List.filterMap_cons, hc']
              exact hperm
          | @join c e hc hc' hstep =>
              rw [List.filterMap_cons, hc] at hperm
              refine ⟨⟨g r.1, t.procs ++ [c]⟩, .next ht trivial (step_env.mpr
                ⟨(g r.1, [c]), hshared ▸ hstep, rfl⟩), rfl, ?_⟩
              show (t.procs ++ [c]).Perm ((s.procs.set p r.2).filterMap f)
              rw [hset, List.filterMap_append, List.filterMap_cons, hc']
              exact (List.perm_append_singleton c _).trans
                ((hperm.cons c).trans List.perm_middle.symm)
      | env e =>
          obtain ⟨r, hr, rfl⟩ := step_env.mp hs
          rcases henv _ e r hr with ⟨hg, hnone⟩ | ⟨e', he'⟩
          · refine ⟨t, ht, hshared.trans hg.symm, ?_⟩
            show t.procs.Perm ((s.procs ++ r.2).filterMap f)
            rw [List.filterMap_append, hnone, List.append_nil]
            exact hperm
          · refine ⟨⟨g r.1, t.procs ++ r.2.filterMap f⟩, .next ht trivial (step_env.mpr
              ⟨(g r.1, r.2.filterMap f), hshared ▸ he', rfl⟩), rfl, ?_⟩
            show (t.procs ++ r.2.filterMap f).Perm ((s.procs ++ r.2).filterMap f)
            rw [List.filterMap_append]
            exact hperm.append_right _

/-- A sum over the processes does not depend on their order. -/
theorem total_perm {w : ℓ → ℤ} {ls ls' : List ℓ} (h : ls.Perm ls') :
    total w ls = total w ls' := by
  induction h with
  | nil => rfl
  | cons x _ ih => rw [total_cons, total_cons, ih]
  | swap x y l => rw [total_cons, total_cons, total_cons, total_cons]; omega
  | trans _ _ ih ih' => exact ih.trans ih'

/-- What the seen processes add up to is what the others add with nothing for those
that are not seen. -/
theorem total_filterMap (w : m → ℤ) (f : ℓ → Option m) (ls : List ℓ) :
    total w (ls.filterMap f) = total (fun l => (f l).elim 0 w) ls := by
  induction ls with
  | nil => rfl
  | cons x xs ih =>
      rw [List.filterMap_cons, total_cons, ← ih]
      cases f x with
      | none => exact (Int.zero_add _).symm
      | some c => rfl

end Family
