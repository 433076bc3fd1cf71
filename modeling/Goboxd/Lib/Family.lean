import Goboxd.Lib.Machine
import Mathlib.Data.Int.Basic

/-!
# Families of processes over a shared state

Goroutines are a list of local states beside one shared state. A step is
either a process's own step, which reads and writes the shared state and its
own entry, or a step of the environment, which writes the shared state and may
start new processes at the end of the list. A process's index in the list is
its identity, and it never changes.

Three rules carry every invariant proved over such a family. Accounting: a
shared counter equals the sum of a weight over the processes when every step
moves both by the same amount. Local invariants, in the manner of Owicki and
Gries: a relation between the shared state and one process holds of every
process when the process that steps establishes it for itself and no other
step disturbs it. Pairwise invariants: a symmetric relation holds of every two
processes when the process that steps re-establishes it against all others,
with a local invariant carried along, since the two usually need each other.
-/

/-- A family of processes: the initial shared states, a process's own steps,
and the environment's steps with the processes they start. -/
structure Family (σ ℓ α ε : Type*) where
  init : σ → Prop
  own : ℕ → σ → ℓ → α → Option (σ × ℓ)
  env : σ → ε → Option (σ × List ℓ)

namespace Family

structure St (σ ℓ : Type*) where
  shared : σ
  procs : List ℓ

inductive Act (α ε : Type*) where
  | own (p : ℕ) (a : α)
  | env (e : ε)

variable {σ ℓ α ε : Type*}

def step (F : Family σ ℓ α ε) (s : St σ ℓ) : Act α ε → Option (St σ ℓ)
  | .own p a =>
      s.procs[p]?.bind fun l =>
        (F.own p s.shared l a).map fun r => ⟨r.1, s.procs.set p r.2⟩
  | .env e => (F.env s.shared e).map fun r => ⟨r.1, s.procs ++ r.2⟩

/-- The family as a machine. It starts without processes. -/
def machine (F : Family σ ℓ α ε) : Machine (St σ ℓ) (Act α ε) where
  init s := F.init s.shared ∧ s.procs = []
  step := F.step

variable {F : Family σ ℓ α ε} {G : St σ ℓ → Act α ε → Prop}

theorem step_own {s t : St σ ℓ} {p : ℕ} {a : α} :
    F.machine.step s (.own p a) = some t ↔
      ∃ l r, s.procs[p]? = some l ∧ F.own p s.shared l a = some r ∧
        t = ⟨r.1, s.procs.set p r.2⟩ := by
  simp only [machine, step, Option.bind_eq_some_iff, Option.map_eq_some_iff]
  constructor
  · rintro ⟨l, hl, r, hr, rfl⟩
    exact ⟨l, r, hl, hr, rfl⟩
  · rintro ⟨l, r, hl, hr, rfl⟩
    exact ⟨l, hl, r, hr, rfl⟩

theorem step_env {s t : St σ ℓ} {e : ε} :
    F.machine.step s (.env e) = some t ↔
      ∃ r, F.env s.shared e = some r ∧ t = ⟨r.1, s.procs ++ r.2⟩ := by
  simp only [machine, step, Option.map_eq_some_iff]
  constructor
  · rintro ⟨r, hr, rfl⟩
    exact ⟨r, hr, rfl⟩
  · rintro ⟨r, hr, rfl⟩
    exact ⟨r, hr, rfl⟩

/-! ## Reading a table after one entry was written -/

theorem getElem?_set_self {ls : List ℓ} {p : ℕ} {l l' : ℓ}
    (h : ls[p]? = some l) : (ls.set p l')[p]? = some l' := by
  obtain ⟨hp, -⟩ := List.getElem?_eq_some_iff.mp h
  rw [List.getElem?_set_self hp]

theorem getElem?_set_cases {ls : List ℓ} {p q : ℕ} {l' m : ℓ}
    (h : (ls.set p l')[q]? = some m) :
    (q = p ∧ m = l') ∨ (q ≠ p ∧ ls[q]? = some m) := by
  rw [List.getElem?_set] at h
  split at h
  · next hpq =>
      split at h
      · exact .inl ⟨hpq.symm, (Option.some.inj h).symm⟩
      · cases h
  · next hpq => exact .inr ⟨fun hq => hpq hq.symm, h⟩

theorem getElem?_append_cases {ls ms : List ℓ} {q : ℕ} {m : ℓ}
    (h : (ls ++ ms)[q]? = some m) :
    ls[q]? = some m ∨ (∃ k, q = ls.length + k ∧ ms[k]? = some m) := by
  rcases Nat.lt_or_ge q ls.length with hlt | hge
  · rw [List.getElem?_append_left hlt] at h
    exact .inl h
  · rw [List.getElem?_append_right hge] at h
    exact .inr ⟨q - ls.length, by omega, h⟩

/-! ## Accounting -/

/-- The sum of a weight over the processes. -/
def total (w : ℓ → ℤ) (ls : List ℓ) : ℤ := ls.foldr (fun l n => w l + n) 0

@[simp] theorem total_nil (w : ℓ → ℤ) : total w [] = 0 := rfl

@[simp] theorem total_cons (w : ℓ → ℤ) (l : ℓ) (ls : List ℓ) :
    total w (l :: ls) = w l + total w ls := rfl

theorem total_append (w : ℓ → ℤ) (ls ms : List ℓ) :
    total w (ls ++ ms) = total w ls + total w ms := by
  induction ls with
  | nil => rw [List.nil_append, total_nil, Int.zero_add]
  | cons l ls ih => rw [List.cons_append, total_cons, total_cons, ih, Int.add_assoc]

theorem total_set (w : ℓ → ℤ) : ∀ {ls : List ℓ} {p : ℕ} {l l' : ℓ},
    ls[p]? = some l → total w (ls.set p l') = total w ls - w l + w l' := by
  intro ls
  induction ls with
  | nil => intro p l l' h; cases h
  | cons x xs ih =>
      intro p l l' h
      cases p with
      | zero =>
          rw [List.getElem?_cons_zero] at h
          obtain rfl := Option.some.inj h
          rw [List.set_cons_zero, total_cons, total_cons]
          omega
      | succ p =>
          rw [List.getElem?_cons_succ] at h
          rw [List.set_cons_succ, total_cons, total_cons, ih h]
          omega

theorem total_nonneg {w : ℓ → ℤ} (hw : ∀ l, 0 ≤ w l) (ls : List ℓ) :
    0 ≤ total w ls := by
  induction ls with
  | nil => exact Int.le_refl 0
  | cons x xs ih => rw [total_cons]; have := hw x; omega

/-- One process's weight is at most the sum, when no weight is negative. -/
theorem le_total {w : ℓ → ℤ} (hw : ∀ l, 0 ≤ w l) : ∀ {ls : List ℓ} {p : ℕ}
    {l : ℓ}, ls[p]? = some l → w l ≤ total w ls := by
  intro ls
  induction ls with
  | nil => intro p l h; cases h
  | cons x xs ih =>
      intro p l h
      rw [total_cons]
      cases p with
      | zero =>
          rw [List.getElem?_cons_zero] at h
          obtain rfl := Option.some.inj h
          have := total_nonneg hw xs
          omega
      | succ p =>
          rw [List.getElem?_cons_succ] at h
          have := ih h
          have := hw x
          omega

theorem total_add (w v : ℓ → ℤ) (ls : List ℓ) :
    total (fun l => w l + v l) ls = total w ls + total v ls := by
  induction ls with
  | nil => rfl
  | cons x xs ih => rw [total_cons, total_cons, total_cons, ih]; omega

theorem total_mul (w : ℓ → ℤ) (k : ℤ) (ls : List ℓ) :
    total (fun l => w l * k) ls = total w ls * k := by
  induction ls with
  | nil => rw [total_nil, total_nil, Int.zero_mul]
  | cons x xs ih => rw [total_cons, total_cons, ih, Int.add_mul]

theorem total_map {ℓ' : Type*} (w : ℓ' → ℤ) (f : ℓ → ℓ') (ls : List ℓ) :
    total w (ls.map f) = total (fun l => w (f l)) ls := by
  induction ls with
  | nil => rfl
  | cons x xs ih => rw [List.map_cons, total_cons, total_cons, ih]

/-- A sum is at most another one of as many terms when it is term by term. -/
theorem total_le_total {ℓ' : Type*} {w : ℓ → ℤ} {v : ℓ' → ℤ} :
    ∀ {xs : List ℓ} {ys : List ℓ'}, xs.length = ys.length →
    (∀ (k : ℕ) x y, xs[k]? = some x → ys[k]? = some y → w x ≤ v y) →
    total w xs ≤ total v ys := by
  intro xs
  induction xs with
  | nil =>
      intro ys hlen _
      rw [List.eq_nil_of_length_eq_zero hlen.symm]
      exact Int.le_refl 0
  | cons x xs ih =>
      intro ys hlen h
      cases ys with
      | nil => cases hlen
      | cons y ys =>
          have hhead := h 0 x y rfl rfl
          have htail := ih (Nat.succ.inj hlen) fun k a b ha hb => h (k + 1) a b ha hb
          rw [total_cons, total_cons]
          omega

theorem total_mono {w v : ℓ → ℤ} {ls : List ℓ} (h : ∀ l ∈ ls, w l ≤ v l) :
    total w ls ≤ total v ls := by
  refine total_le_total rfl fun k x y hx hy => ?_
  rw [hx] at hy
  cases hy
  exact h x (List.mem_of_getElem? hx)

theorem total_congr {w v : ℓ → ℤ} {ls : List ℓ} (h : ∀ l ∈ ls, w l = v l) :
    total w ls = total v ls := by
  have hle : total w ls ≤ total v ls := total_mono fun l hl => Int.le_of_eq (h l hl)
  have hge : total v ls ≤ total w ls := total_mono fun l hl => Int.le_of_eq (h l hl).symm
  omega

theorem total_zero {w : ℓ → ℤ} {ls : List ℓ} (h : ∀ l ∈ ls, w l = 0) :
    total w ls = 0 := by
  induction ls with
  | nil => rfl
  | cons l ls ih =>
      rw [total_cons, h l List.mem_cons_self,
        ih fun m hm => h m (List.mem_cons_of_mem l hm), Int.zero_add]

theorem length_flatMap_eq_total {κ : Type*} (f : ℓ → List κ) (ls : List ℓ) :
    ((ls.flatMap f).length : ℤ) = total (fun l => ((f l).length : ℤ)) ls := by
  induction ls with
  | nil => rfl
  | cons x xs ih => rw [List.flatMap_cons, List.length_append, total_cons, ← ih]; rfl

/-- The sum of a weight that is one or nothing is a number of processes. -/
theorem total_eq_countP (p : ℓ → Bool) (ls : List ℓ) :
    total (fun l => if p l then 1 else 0) ls = ls.countP p := by
  induction ls with
  | nil => rfl
  | cons l ls ih =>
      rw [total_cons, List.countP_cons, ih]
      split <;> omega

/-- The accounting rule: a shared quantity that starts at zero and moves with
the weight of the process that steps is the sum of the weights. -/
theorem accountingReach {w : ℓ → ℤ} {q : σ → ℤ}
    (hinit : ∀ sh, F.init sh → q sh = 0)
    (hown : ∀ s p a l r, F.machine.Reach G s → G s (.own p a) → s.procs[p]? = some l →
      F.own p s.shared l a = some r → q r.1 = q s.shared - w l + w r.2)
    (henv : ∀ s e r, G s (.env e) → F.env s.shared e = some r →
      q r.1 = q s.shared + total w r.2)
    {s : St σ ℓ} (h : F.machine.Reach G s) :
    q s.shared = total w s.procs := by
  refine h.invariant (I := fun s => q s.shared = total w s.procs) ?_ ?_
  · rintro s ⟨hsh, hnil⟩
    rw [hinit _ hsh, hnil, total_nil]
  · intro s a t hreach ih hG hs
    cases a with
    | own p a =>
        obtain ⟨l, r, hl, hr, rfl⟩ := step_own.mp hs
        rw [hown s p a l r hreach hG hl hr, total_set w hl, ih]
    | env e =>
        obtain ⟨r, hr, rfl⟩ := step_env.mp hs
        rw [henv s e r hG hr, total_append, ih]

/-- The rule for a step function that moves the two alike in any state. -/
theorem accounting {w : ℓ → ℤ} {q : σ → ℤ}
    (hinit : ∀ sh, F.init sh → q sh = 0)
    (hown : ∀ s p a l r, G s (.own p a) → s.procs[p]? = some l →
      F.own p s.shared l a = some r → q r.1 = q s.shared - w l + w r.2)
    (henv : ∀ s e r, G s (.env e) → F.env s.shared e = some r →
      q r.1 = q s.shared + total w r.2)
    {s : St σ ℓ} (h : F.machine.Reach G s) :
    q s.shared = total w s.procs :=
  accountingReach hinit (fun s p a l r _ => hown s p a l r) henv h

/-! ## Invariants of the shared state -/

/-- What holds of the shared state at the start and is kept by every step from a state
that is reached, whichever process takes it, always holds of it. -/
theorem sharedInvReach {I : σ → Prop} (hinit : ∀ sh, F.init sh → I sh)
    (hown : ∀ s p a l r, F.machine.Reach G s → G s (.own p a) → I s.shared →
      s.procs[p]? = some l → F.own p s.shared l a = some r → I r.1)
    (henv : ∀ s e r, G s (.env e) → I s.shared →
      F.env s.shared e = some r → I r.1)
    {s : St σ ℓ} (h : F.machine.Reach G s) : I s.shared := by
  refine h.invariant (I := fun s => I s.shared) ?_ ?_
  · rintro s ⟨hsh, -⟩
    exact hinit _ hsh
  · intro s a t hreach ih hG hs
    cases a with
    | own p a =>
        obtain ⟨l, r, hl, hr, rfl⟩ := step_own.mp hs
        exact hown s p a l r hreach hG ih hl hr
    | env e =>
        obtain ⟨r, hr, rfl⟩ := step_env.mp hs
        exact henv s e r hG ih hr

/-- As before, where it does not matter that the state is reached. -/
theorem sharedInv {I : σ → Prop} (hinit : ∀ sh, F.init sh → I sh)
    (hown : ∀ s p a l r, G s (.own p a) → I s.shared →
      s.procs[p]? = some l → F.own p s.shared l a = some r → I r.1)
    (henv : ∀ s e r, G s (.env e) → I s.shared →
      F.env s.shared e = some r → I r.1)
    {s : St σ ℓ} (h : F.machine.Reach G s) : I s.shared :=
  sharedInvReach hinit (fun s p a l r _ => hown s p a l r) henv h

/-! ## Local invariants -/

/-- Every process stands in the relation `L` to the shared state. -/
def Each (L : σ → ℕ → ℓ → Prop) (s : St σ ℓ) : Prop :=
  ∀ p l, s.procs[p]? = some l → L s.shared p l

/-- The rule for local invariants: the process that steps establishes the
relation for itself, and no step, its own or the environment's, takes it from
another process. -/
theorem each {L : σ → ℕ → ℓ → Prop}
    (hself : ∀ s p a l r, F.machine.Reach G s → Each L s → G s (.own p a) →
      s.procs[p]? = some l → F.own p s.shared l a = some r → L r.1 p r.2)
    (hother : ∀ s p a l r q m, F.machine.Reach G s → Each L s →
      G s (.own p a) → s.procs[p]? = some l →
      F.own p s.shared l a = some r → q ≠ p → s.procs[q]? = some m →
      L r.1 q m)
    (henv : ∀ s e r q m, F.machine.Reach G s → Each L s → G s (.env e) →
      F.env s.shared e = some r → s.procs[q]? = some m → L r.1 q m)
    (hspawn : ∀ s e r k m, F.machine.Reach G s → G s (.env e) →
      F.env s.shared e = some r → r.2[k]? = some m →
      L r.1 (s.procs.length + k) m)
    {s : St σ ℓ} (h : F.machine.Reach G s) : Each L s := by
  refine h.invariant (I := Each L) ?_ ?_
  · rintro s ⟨-, hnil⟩ p l hl
    rw [hnil] at hl
    cases hl
  · intro s a t hr ih hG hs
    cases a with
    | own p a =>
        obtain ⟨l, r, hl, hstep, rfl⟩ := step_own.mp hs
        intro q m hm
        rcases getElem?_set_cases hm with ⟨rfl, rfl⟩ | ⟨hq, hm⟩
        · exact hself s q a l r hr ih hG hl hstep
        · exact hother s p a l r q m hr ih hG hl hstep hq hm
    | env e =>
        obtain ⟨r, hstep, rfl⟩ := step_env.mp hs
        intro q m hm
        rcases getElem?_append_cases hm with hq | ⟨k, rfl, hk⟩
        · exact henv s e r q m hr ih hG hstep hq
        · exact hspawn s e r k m hr hG hstep hk

/-! ## Pairwise invariants -/

/-- Every two distinct processes stand in the relation `R`. -/
def Pairs (R : ℓ → ℓ → Prop) (s : St σ ℓ) : Prop :=
  ∀ (p q : ℕ) (l m : ℓ), p ≠ q →
    s.procs[p]? = some l → s.procs[q]? = some m → R l m

/-- The rule for a local and a pairwise invariant that need each other: the
process that steps may use both, re-establishes the pairwise relation against
every other process, and the local one for itself. -/
theorem eachPairs {L : σ → ℕ → ℓ → Prop} {R : ℓ → ℓ → Prop}
    (hsymm : ∀ l m, R l m → R m l)
    (hself : ∀ s p a l r, Each L s → Pairs R s → G s (.own p a) →
      s.procs[p]? = some l → F.own p s.shared l a = some r → L r.1 p r.2)
    (hother : ∀ s p a l r q m, Each L s → Pairs R s → G s (.own p a) →
      s.procs[p]? = some l → F.own p s.shared l a = some r → q ≠ p →
      s.procs[q]? = some m → L r.1 q m)
    (hpair : ∀ s p a l r q m, Each L s → Pairs R s → G s (.own p a) →
      s.procs[p]? = some l → F.own p s.shared l a = some r → q ≠ p →
      s.procs[q]? = some m → R r.2 m)
    (henv : ∀ s e r q m, Each L s → F.env s.shared e = some r →
      s.procs[q]? = some m → L r.1 q m)
    (hspawn : ∀ s e r (k : ℕ) m, F.env s e = some r → r.2[k]? = some m →
      (∀ q, L r.1 q m) ∧ ∀ l, R m l)
    {s : St σ ℓ} (h : F.machine.Reach G s) : Each L s ∧ Pairs R s := by
  refine h.invariant (I := fun s => Each L s ∧ Pairs R s) ?_ ?_
  · rintro s ⟨-, hnil⟩
    refine ⟨fun p l hl => ?_, fun p q l m _ hl _ => ?_⟩ <;>
      (rw [hnil] at hl; cases hl)
  · rintro s a t - ⟨hL, hR⟩ hG hs
    cases a with
    | own p a =>
        obtain ⟨l, r, hl, hstep, rfl⟩ := step_own.mp hs
        refine ⟨?_, ?_⟩
        · intro q m hm
          rcases getElem?_set_cases hm with ⟨rfl, rfl⟩ | ⟨hq, hm'⟩
          · exact hself s q a l r hL hR hG hl hstep
          · exact hother s p a l r q m hL hR hG hl hstep hq hm'
        · have hp := fun q m => hpair s p a l r q m hL hR hG hl hstep
          intro i j x y hij hx hy
          rcases getElem?_set_cases hx with ⟨rfl, rfl⟩ | ⟨hi, hx'⟩
          · rcases getElem?_set_cases hy with ⟨hj, -⟩ | ⟨hj, hy'⟩
            · exact absurd hj.symm hij
            · exact hp j y hj hy'
          · rcases getElem?_set_cases hy with ⟨rfl, rfl⟩ | ⟨hj, hy'⟩
            · exact hsymm _ _ (hp i x hi hx')
            · exact hR i j x y hij hx' hy'
    | env e =>
        obtain ⟨r, hstep, rfl⟩ := step_env.mp hs
        refine ⟨?_, ?_⟩
        · intro q m hm
          rcases getElem?_append_cases hm with hq | ⟨k, rfl, hk⟩
          · exact henv s e r q m hL hstep hq
          · exact (hspawn _ e r k m hstep hk).1 _
        · intro i j x y hij hx hy
          rcases getElem?_append_cases hx with hi | ⟨k, rfl, hk⟩
          · rcases getElem?_append_cases hy with hj | ⟨k, rfl, hk⟩
            · exact hR i j x y hij hi hj
            · exact hsymm _ _ ((hspawn _ e r k y hstep hk).2 x)
          · exact (hspawn _ e r k x hstep hk).2 y

end Family
