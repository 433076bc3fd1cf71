import Goboxd.Lib.Family
import Mathlib.Data.List.Perm.Basic
import Mathlib.Data.List.Nodup

/-!
# Ledgers

A register lists what has been handed out, and every process knows what it
holds. A turn hands a key out that the register did not list, or takes one back
and removes it; where a removal has no effect, the key is lost to the register.

If every step is a turn, the register lists each key once, and it lists exactly
what was there at the start, what the processes hold, and what was lost. Since
it lists nothing twice, no two processes hold the same key. A process may keep
what it holds in a list of parts, each with its own; a turn of a part is a turn
of the whole.
-/

namespace Family

variable {κ : Type*} {L : κ → Prop}

/-- One turn: `reg` and `own` before it, the register and the holding after it.
Giving back a key for which `L` holds may leave it in the register. -/
inductive Turn [DecidableEq κ] (L : κ → Prop) (reg own : List κ) : List κ → List κ → Prop where
  | keep {own' : List κ} (hown : own'.Perm own) : Turn L reg own reg own'
  | take {k : κ} {own' : List κ} (hfree : k ∉ reg) (hown : own'.Perm (k :: own)) :
      Turn L reg own (k :: reg) own'
  | give {k : κ} {own' : List κ} (hown : own.Perm (k :: own')) :
      Turn L reg own (reg.filter fun x => x ≠ k) own'
  | lose {k : κ} {own' : List κ} (hk : L k) (hown : own.Perm (k :: own')) :
      Turn L reg own reg own'

/-- The register lists the base, the holdings and what was lost, each key
once. -/
structure Balanced (L : κ → Prop) (base reg held : List κ) : Prop where
  nodup : reg.Nodup
  perm : ∃ lost, (∀ k ∈ lost, L k) ∧ reg.Perm (lost ++ base ++ held)

section

variable {base reg reg' own own' : List κ}

theorem Balanced.mem_of_held (h : Balanced L base reg own) {k : κ} (hk : k ∈ own) :
    k ∈ reg := by
  obtain ⟨lost, -, hperm⟩ := h.perm
  rw [hperm.mem_iff]
  exact List.mem_append_right _ hk

theorem Balanced.held_nodup (h : Balanced L base reg own) : own.Nodup := by
  obtain ⟨lost, -, hperm⟩ := h.perm
  have hall := hperm.nodup_iff.mp h.nodup
  exact (List.nodup_append.mp hall).2.1

/-- Where nothing can be lost, nothing is missing and nothing is left over. -/
theorem Balanced.exact (h : Balanced L base reg own) (hL : ∀ k, ¬ L k) :
    reg.Perm (base ++ own) := by
  obtain ⟨lost, hlost, hperm⟩ := h.perm
  have hnil : lost = [] := List.eq_nil_iff_forall_not_mem.mpr fun k hk =>
    hL k (hlost k hk)
  rw [hnil, List.nil_append] at hperm
  exact hperm

variable [DecidableEq κ]

theorem filter_of_perm_cons {k : κ} {rest : List κ} (hn : reg.Nodup)
    (h : reg.Perm (k :: rest)) : (reg.filter fun x => x ≠ k).Perm rest := by
  have hk : k ∉ rest := (List.nodup_cons.mp (h.nodup_iff.mp hn)).1
  have hrest : rest.filter (fun x => x ≠ k) = rest := by
    rw [List.filter_eq_self]
    intro x hx
    rw [decide_eq_true_eq]
    rintro rfl
    exact hk hx
  have hf := h.filter fun x => x ≠ k
  rw [List.filter_cons_of_neg (by simp), hrest] at hf
  exact hf

theorem Balanced.turn (h : Balanced L base reg own) (ht : Turn L reg own reg' own') :
    Balanced L base reg' own' := by
  obtain ⟨hn, lost, hlost, hperm⟩ := h
  cases ht with
  | keep hown => exact ⟨hn, lost, hlost, hperm.trans (hown.symm.append_left _)⟩
  | @take k _ hfree hown =>
      refine ⟨List.nodup_cons.mpr ⟨hfree, hn⟩, lost, hlost, ?_⟩
      calc (k :: reg).Perm (k :: (lost ++ base ++ own)) := hperm.cons k
        _ |>.Perm (lost ++ base ++ k :: own) := List.perm_middle.symm
        _ |>.Perm (lost ++ base ++ own') := hown.symm.append_left _
  | @give k _ hown =>
      refine ⟨hn.filter _, lost, hlost, filter_of_perm_cons hn ?_⟩
      calc reg.Perm (lost ++ base ++ own) := hperm
        _ |>.Perm (lost ++ base ++ k :: own') := hown.append_left _
        _ |>.Perm (k :: (lost ++ base ++ own')) := List.perm_middle
  | @lose k _ hk hown =>
      refine ⟨hn, k :: lost, ?_, ?_⟩
      · intro x hx
        rcases List.mem_cons.mp hx with rfl | hx
        · exact hk
        · exact hlost x hx
      · calc reg.Perm (lost ++ base ++ own) := hperm
          _ |>.Perm (lost ++ base ++ k :: own') := hown.append_left _
          _ |>.Perm (k :: (lost ++ base ++ own')) := List.perm_middle

/-- What cannot be lost is given back. -/
theorem Turn.mono {L' : κ → Prop} {reg reg' own own' : List κ}
    (hL : ∀ k ∈ own, L k → L' k) (h : Turn L reg own reg' own') :
    Turn L' reg own reg' own' := by
  cases h with
  | keep hown => exact .keep hown
  | take hfree hown => exact .take hfree hown
  | give hown => exact .give hown
  | @lose k _ hk hown =>
      exact .lose (hL k (hown.mem_iff.mpr List.mem_cons_self) hk) hown

end

/-! ## Holdings in parts -/

variable {α : Type*} {f : α → List κ}

theorem flatMap_set_perm : ∀ {ls : List α} {i : ℕ} {x : α} (x' : α),
    ls[i]? = some x →
    ((ls.set i x').flatMap f ++ f x).Perm (ls.flatMap f ++ f x') := by
  intro ls
  induction ls with
  | nil => intro i x x' h; cases h
  | cons y ys ih =>
      intro i x x' h
      cases i with
      | zero =>
          cases h
          rw [List.set_cons_zero, List.flatMap_cons, List.flatMap_cons]
          calc (f x' ++ ys.flatMap f ++ f y).Perm (f y ++ (f x' ++ ys.flatMap f)) :=
                List.perm_append_comm
            _ |>.Perm (f y ++ (ys.flatMap f ++ f x')) :=
                List.perm_append_comm.append_left _
            _ |>.Perm (f y ++ ys.flatMap f ++ f x') := by rw [List.append_assoc]
      | succ i =>
          rw [List.getElem?_cons_succ] at h
          rw [List.set_cons_succ, List.flatMap_cons, List.flatMap_cons,
            List.append_assoc, List.append_assoc]
          exact (ih x' h).append_left _

/-- Parts in different places have nothing in common. -/
theorem disjoint_of_nodup {ls : List α} {i j : ℕ} {x y : α} {k : κ}
    (h : (ls.flatMap f).Nodup) (hij : i ≠ j) (hi : ls[i]? = some x)
    (hj : ls[j]? = some y) (hx : k ∈ f x) : k ∉ f y := by
  have hp := (List.nodup_flatMap.mp h).2
  rw [List.pairwise_iff_getElem] at hp
  obtain ⟨hil, rfl⟩ := List.getElem?_eq_some_iff.mp hi
  obtain ⟨hjl, rfl⟩ := List.getElem?_eq_some_iff.mp hj
  intro hy
  rcases Nat.lt_or_gt_of_ne hij with hlt | hgt
  · exact hp i j hil hjl hlt hx hy
  · exact hp j i hjl hil hgt hy hx

variable [DecidableEq κ]

/-- A turn of one part is a turn of the whole. -/
theorem Turn.lift {reg reg' : List κ} {ls : List α} {i : ℕ} {x x' : α}
    (hi : ls[i]? = some x) (h : Turn L reg (f x) reg' (f x')) :
    Turn L reg (ls.flatMap f) reg' ((ls.set i x').flatMap f) := by
  have hset := flatMap_set_perm (f := f) x' hi
  generalize hown : f x = own at h hset
  generalize hown' : f x' = own' at h hset
  cases h with
  | keep hp =>
      exact .keep ((List.perm_append_right_iff own).mp
        (hset.trans (hp.append_left _)))
  | @take k _ hfree hp =>
      refine .take hfree ((List.perm_append_right_iff own).mp ?_)
      exact hset.trans ((hp.append_left _).trans List.perm_middle)
  | @give k _ hp =>
      refine .give ((List.perm_append_right_iff own').mp ?_)
      exact hset.symm.trans ((hp.append_left _).trans List.perm_middle)
  | @lose k _ hk hp =>
      refine .lose hk ((List.perm_append_right_iff own').mp ?_)
      exact hset.symm.trans ((hp.append_left _).trans List.perm_middle)

/-! ## The rule for a family -/

variable {σ ℓ β ε : Type*} {F : Family σ ℓ β ε} {G : St σ ℓ → Act β ε → Prop}

/-- The ledger rule: when every step of a process is a turn and the environment
starts processes that hold nothing, the register stays balanced. -/
theorem ledger (reg : σ → List κ) (own : ℓ → List κ) {base : List κ}
    (hinit : ∀ sh, F.init sh → (reg sh).Perm base ∧ (reg sh).Nodup)
    (hown : ∀ (s : St σ ℓ) p a l r, F.machine.Reach G s →
      Balanced L base (reg s.shared) (s.procs.flatMap own) → G s (.own p a) →
      s.procs[p]? = some l → F.own p s.shared l a = some r →
      Turn L (reg s.shared) (own l) (reg r.1) (own r.2))
    (henv : ∀ (s : St σ ℓ) e r, F.env s.shared e = some r →
      reg r.1 = reg s.shared ∧ ∀ l ∈ r.2, own l = [])
    {s : St σ ℓ} (h : F.machine.Reach G s) :
    Balanced L base (reg s.shared) (s.procs.flatMap own) := by
  refine h.invariant
    (I := fun s => Balanced L base (reg s.shared) (s.procs.flatMap own)) ?_ ?_
  · intro s hs
    obtain ⟨hsh, hnil⟩ := hs
    obtain ⟨hperm, hn⟩ := hinit _ hsh
    refine ⟨hn, [], List.forall_mem_nil _, ?_⟩
    rw [hnil, List.flatMap_nil, List.append_nil]
    exact hperm
  · intro s a t hr ih hG hs
    cases a with
    | own p a =>
        obtain ⟨l, r, hl, hstep, rfl⟩ := step_own.mp hs
        exact ih.turn (Turn.lift hl (hown s p a l r hr ih hG hl hstep))
    | env e =>
        obtain ⟨r, hstep, rfl⟩ := step_env.mp hs
        obtain ⟨hreg, hfresh⟩ := henv s e r hstep
        have hnil : r.2.flatMap own = [] := List.flatMap_eq_nil_iff.mpr hfresh
        simp only [hreg, List.flatMap_append, hnil, List.append_nil]
        exact ih

end Family
