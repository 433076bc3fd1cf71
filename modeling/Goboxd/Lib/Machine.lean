import Mathlib.Order.Basic

/-!
# Machines and what holds along their runs

A machine is a set of initial states and a partial step function: an action
that is not enabled in a state answers `none`. Everything a concurrent program
can do is then a list of actions, one list for each schedule, and a statement
about every interleaving is a statement about every reachable state.

Reachability carries a guard on the steps. The trivial guard gives all runs;
a stronger one gives the runs every step of which meets a condition on the
state it is taken in, which is how a property that fails in general is shown
to hold as long as one bad step is never taken.
-/

/-- A machine: its initial states, and what an action does to a state it is
enabled in. -/
structure Machine (σ α : Type*) where
  init : σ → Prop
  step : σ → α → Option σ

namespace Machine

variable {σ τ α β : Type*} {M : Machine σ α} {G H : σ → α → Prop}

/-- The states reached by runs whose every step meets the guard `G`. -/
inductive Reach (M : Machine σ α) (G : σ → α → Prop) : σ → Prop
  | start {s : σ} : M.init s → Reach M G s
  | next {s t : σ} {a : α} :
      Reach M G s → G s a → M.step s a = some t → Reach M G t

abbrev Reachable (M : Machine σ α) : σ → Prop := M.Reach fun _ _ => True

def exec (M : Machine σ α) : σ → List α → Option σ
  | s, [] => some s
  | s, a :: as => (M.step s a).bind fun t => M.exec t as

@[simp] theorem exec_nil (s : σ) : M.exec s [] = some s := rfl

theorem exec_cons (s : σ) (a : α) (as : List α) :
    M.exec s (a :: as) = (M.step s a).bind fun t => M.exec t as := rfl

/-! ## Reachability -/

theorem Reach.mono (hGH : ∀ s a, G s a → H s a) {s : σ} (h : M.Reach G s) :
    M.Reach H s := by
  induction h with
  | start h => exact .start h
  | next _ hG hs ih => exact .next ih (hGH _ _ hG) hs

theorem Reach.reachable {s : σ} (h : M.Reach G s) : M.Reachable s :=
  h.mono fun _ _ _ => trivial

/-- The invariant rule. What holds initially and is kept by every guarded
step from a reachable state holds in every state reached. -/
theorem Reach.invariant {I : σ → Prop} (hinit : ∀ s, M.init s → I s)
    (hstep : ∀ s a t, M.Reach G s → I s → G s a → M.step s a = some t → I t)
    {s : σ} (h : M.Reach G s) : I s := by
  induction h with
  | start h => exact hinit _ h
  | next hr hG hs ih => exact hstep _ _ _ hr ih hG hs

/-- The simulation rule: when a view of the states takes every guarded step to
a step of another machine, or leaves it where it is, the view of what the one
reaches is reached by the other. -/
theorem Reach.simulates {N : Machine τ β} {H : τ → β → Prop} (f : σ → τ)
    (hinit : ∀ s, M.init s → N.init (f s))
    (hstep : ∀ s a t, M.Reach G s → G s a → M.step s a = some t →
      f t = f s ∨ ∃ b, H (f s) b ∧ N.step (f s) b = some (f t))
    {s : σ} (h : M.Reach G s) : N.Reach H (f s) := by
  induction h with
  | start h => exact .start (hinit _ h)
  | next hr hG hs ih =>
      rcases hstep _ _ _ hr hG hs with heq | ⟨b, hH, hb⟩
      · rw [heq]
        exact ih
      · exact .next ih hH hb

theorem Reachable.exec {s t : σ} {as : List α} (h : M.Reachable s)
    (he : M.exec s as = some t) : M.Reachable t := by
  induction as generalizing s with
  | nil =>
      rw [exec_nil] at he
      exact Option.some.inj he ▸ h
  | cons a as ih =>
      rw [exec_cons, Option.bind_eq_some_iff] at he
      obtain ⟨u, hu, he⟩ := he
      exact ih (.next h trivial hu) he

theorem reachable_of_exec {s t : σ} (as : List α) (h : M.init s)
    (he : M.exec s as = some t) : M.Reachable t :=
  Reachable.exec (.start h) he

/-- A run that is performed only as far as a check on its steps passes. -/
def execIf (M : Machine σ α) (ok : σ → α → Bool) : σ → List α → Option σ
  | s, [] => some s
  | s, a :: as =>
      if ok s a then (M.step s a).bind fun t => M.execIf ok t as else none

/-- A concrete run whose steps pass a check that implies the guard. -/
theorem reach_of_execIf {ok : σ → α → Bool} (hok : ∀ s a, ok s a = true → G s a)
    {s t : σ} (as : List α) (h : M.Reach G s)
    (he : M.execIf ok s as = some t) : M.Reach G t := by
  induction as generalizing s with
  | nil => exact Option.some.inj he ▸ h
  | cons a as ih =>
      rw [execIf] at he
      split at he
      · next hc =>
          obtain ⟨u, hu, he⟩ := Option.bind_eq_some_iff.mp he
          exact ih (.next h (hok s a hc) hu) he
      · cases he

/-! ## Observers -/

/-- The machine with somebody beside it who keeps notes of its steps, and is in the way of
none. -/
def observed {κ : Type*} (M : Machine σ α) (note : κ → σ → α → κ) (blank : κ) :
    Machine (σ × κ) α where
  init s := M.init s.1 ∧ s.2 = blank
  step s a := (M.step s.1 a).map fun t => (t, note s.2 s.1 a)

section

variable {κ : Type*} {note : κ → σ → α → κ} {blank : κ}

theorem step_observed {s t : σ × κ} {a : α} :
    (M.observed note blank).step s a = some t ↔
      M.step s.1 a = some t.1 ∧ t.2 = note s.2 s.1 a := by
  simp only [observed, Option.map_eq_some_iff]
  constructor
  · rintro ⟨u, hu, rfl⟩
    exact ⟨hu, rfl⟩
  · rintro ⟨hs, hk⟩
    exact ⟨t.1, hs, Prod.ext rfl hk.symm⟩

/-- Every run can be observed. -/
theorem Reach.observed (note : κ → σ → α → κ) (blank : κ) {s : σ} (h : M.Reach H s) :
    ∃ k, (M.observed note blank).Reach (fun s a => H s.1 a) (s, k) := by
  induction h with
  | start h => exact ⟨blank, .start ⟨h, rfl⟩⟩
  | next _ hH hs ih =>
      obtain ⟨k, hk⟩ := ih
      exact ⟨_, .next hk hH (step_observed.mpr ⟨hs, rfl⟩)⟩

end

end Machine
