import Mathlib.Init

/-!
# Code that changes a state and may fail

What such code comes to from a state is a value and a state, or an error and a state.
`Ends` says of both ends what holds there, so that nothing that is claimed of a run
stops being claimed where the run stops early.
-/

namespace Outcome

variable {ε σ α β : Type}

/-- From `s`, `m` ends with a value and a state in `Q`, or with an error and a state in
`E`. -/
def Ends (m : ExceptT ε (StateM σ) α) (s : σ) (Q : α → σ → Prop) (E : ε → σ → Prop) : Prop :=
  match m.run s with
  | (.ok a, t) => Q a t
  | (.error e, t) => E e t

/-- The end of `m`, as a value. -/
def outcome (m : ExceptT ε (StateM σ) α) : ExceptT ε (StateM σ) (Except ε α) :=
  ExceptT.mk fun s => (.ok (m.run s).1, (m.run s).2)

/-- An end, as one's own. -/
def raise (r : Except ε α) : ExceptT ε (StateM σ) α := ExceptT.mk fun s => (r, s)

section Rules

variable {m : ExceptT ε (StateM σ) α} {f : α → ExceptT ε (StateM σ) β} {s : σ}
  {Q Q' : α → σ → Prop} {R : β → σ → Prop} {E F : ε → σ → Prop}

theorem ends_pure {a : α} (h : Q a s) : Ends (pure a) s Q E := h

theorem ends_throw {e : ε} (h : E e s) : Ends (throw e) s Q E := h

theorem ends_raise {r : Except ε α} (hok : ∀ a, r = .ok a → Q a s)
    (herr : ∀ e, r = .error e → E e s) : Ends (raise r) s Q E := by
  cases r with
  | ok a => exact hok a rfl
  | error e => exact herr e rfl

theorem Ends.mono (h : Ends m s Q E) (hok : ∀ a t, Q a t → Q' a t)
    (herr : ∀ e t, E e t → F e t) : Ends m s Q' F := by
  rw [Ends] at h ⊢
  cases hrun : m.run s with
  | mk r t =>
      rw [hrun] at h
      cases r with
      | ok a => exact hok a t h
      | error e => exact herr e t h

theorem Ends.bind (h : Ends m s Q E) (hf : ∀ a t, Q a t → Ends (f a) t R E) :
    Ends (m >>= f) s R E := by
  have hbind : (m >>= f).run s =
      match m.run s with
      | (.ok a, t) => (f a).run t
      | (.error e, t) => (.error e, t) := by
    show (ExceptT.bindCont f (m.run s).1) (m.run s).2 = _
    cases m.run s with
    | mk r t => cases r <;> rfl
  rw [Ends] at h ⊢
  rw [hbind]
  cases hrun : m.run s with
  | mk r t =>
      rw [hrun] at h
      cases r with
      | ok a => exact hf a t h
      | error e => exact h

theorem Ends.outcome (h : Ends m s Q E) :
    Ends (outcome m) s (fun r t => (∀ a, r = .ok a → Q a t) ∧ ∀ e, r = .error e → E e t)
      F := by
  rw [Ends] at h
  show (∀ a, (m.run s).1 = .ok a → Q a (m.run s).2) ∧
    ∀ e, (m.run s).1 = .error e → E e (m.run s).2
  cases hrun : m.run s with
  | mk r t =>
      rw [hrun] at h
      cases r with
      | ok a => exact ⟨fun b hb => (Except.ok.inj hb) ▸ h, fun _ he => by cases he⟩
      | error e => exact ⟨fun _ hb => (by cases hb), fun e' he => (Except.error.inj he) ▸ h⟩

/-- What holds at both ends holds of the state one is left with. -/
theorem Ends.state {P : σ → Prop} {B : ε → Prop}
    (h : Ends m s (fun _ t => P t) fun e t => P t ∧ B e) :
    P (m.run s).2 ∧ ∀ e, (m.run s).1 = .error e → B e := by
  rw [Ends] at h
  cases hrun : m.run s with
  | mk r t =>
      rw [hrun] at h
      cases r with
      | ok a => exact ⟨h, fun e he => by cases he⟩
      | error e => exact ⟨h.1, fun e' he => (Except.error.inj he) ▸ h.2⟩

end Rules

end Outcome
