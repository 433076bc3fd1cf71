import Mathlib.Logic.Relation

/-!
# Programs as the calls they make

A program that works on a world it does not own is done with a value, or it makes a call
and goes on with the answer. Between two calls the others act. A `Setting` says what they
may do, and what a call may answer and do in its turn; `Meets` is then about every run in
it, whichever way the others' steps fall between the program's own. A program is a finite
tree over each list of answers, so `Meets` says that the run ends as well: a recursion
that goes on and on meets nothing.

`Only` is about the calls themselves, whatever the answers and whatever the others do. It
is what confinement is stated with, and the rule `Only.keeps` turns it into an invariant
of the runs.
-/

/-- A program over the calls `C`, where `A c` is what the call `c` answers with. -/
inductive Calls (C : Type) (A : C → Type) (α : Type) : Type where
  | done (a : α)
  | call (c : C) (next : A c → Calls C A α)
  /-- A recursion that goes on and on. -/
  | endless

namespace Calls

variable {C : Type} {A : C → Type} {α β : Type}

protected def bind : Calls C A α → (α → Calls C A β) → Calls C A β
  | done a, f => f a
  | call c next, f => call c fun x => (next x).bind f
  | endless, _ => endless

instance : Monad (Calls C A) where
  pure := done
  bind := Calls.bind

/-- The program that makes one call and is done with its answer. -/
def ask (c : C) : Calls C A (A c) := call c done

@[simp] theorem pure_eq (a : α) : (pure a : Calls C A α) = done a := rfl

@[simp] theorem done_bind (a : α) (f : α → Calls C A β) : done a >>= f = f a := rfl

@[simp] theorem call_bind (c : C) (next : A c → Calls C A α) (f : α → Calls C A β) :
    call c next >>= f = call c fun x => next x >>= f := rfl

@[simp] theorem ask_bind (c : C) (f : A c → Calls C A β) : ask c >>= f = call c f := rfl

@[simp] theorem endless_bind (f : α → Calls C A β) : (endless : Calls C A α) >>= f = endless :=
  rfl

/-! ## Runs -/

/-- What a program runs in. `others` is one step of somebody else; `act c s x t` says that
the call `c`, made in `s`, may answer `x` and leave `t`. -/
structure Setting (C : Type) (A : C → Type) (σ : Type) where
  others : σ → σ → Prop
  act : (c : C) → σ → A c → σ → Prop

variable {σ : Type} {W : Setting C A σ} {s t : σ} {Q : α → σ → Prop} {R : β → σ → Prop}

/-- Any number of steps of the others. -/
def Setting.Between (W : Setting C A σ) : σ → σ → Prop := Relation.ReflTransGen W.others

/-- Every run of the program from the state ends, with a value and a state in `Q`. -/
def Meets (W : Setting C A σ) (Q : α → σ → Prop) : Calls C A α → σ → Prop
  | done a, s => ∀ t, W.Between s t → Q a t
  | call c next, s => ∀ t, W.Between s t → ∀ x u, W.act c t x u → Meets W Q (next x) u
  | endless, _ => False

/-- What the others do before a run does not spoil what is known of every run. -/
theorem Meets.after {p : Calls C A α} (h : p.Meets W Q s) (hst : W.Between s t) :
    p.Meets W Q t := by
  cases p with
  | done a => exact fun u hu => h u (hst.trans hu)
  | call c next => exact fun u hu => h u (hst.trans hu)
  | endless => exact h

theorem Meets.bind {p : Calls C A α} {f : α → Calls C A β}
    (h : p.Meets W (fun a t => (f a).Meets W R t) s) : (p >>= f).Meets W R s := by
  induction p generalizing s with
  | done a => exact h s .refl
  | call c next ih => exact fun t ht x u hact => ih x (h t ht x u hact)
  | endless => exact h

theorem Meets.mono {Q' : α → σ → Prop} {p : Calls C A α} (h : p.Meets W Q s)
    (himp : ∀ a t, Q a t → Q' a t) : p.Meets W Q' s := by
  induction p generalizing s with
  | done a => exact fun t ht => himp a t (h t ht)
  | call c next ih => exact fun t ht x u hact => ih x (h t ht x u hact)
  | endless => exact h

theorem meets_ite {P : Prop} [Decidable P] {p q : Calls C A α} (hp : P → p.Meets W Q s)
    (hq : ¬ P → q.Meets W Q s) : (if P then p else q).Meets W Q s := by
  split
  · next h => exact hp h
  · next h => exact hq h

/-- The steps of the others keep what each of them keeps. -/
theorem Setting.Between.keeps {I : σ → Prop} (hothers : ∀ s t, W.others s t → I s → I t)
    (h : W.Between s t) (hs : I s) : I t := by
  induction h with
  | refl => exact hs
  | tail _ hstep ih => exact hothers _ _ hstep ih

theorem Setting.Between.rel {r : σ → σ → Prop} (hrefl : ∀ s, r s s)
    (htrans : ∀ s t u, r s t → r t u → r s u) (hothers : ∀ s t, W.others s t → r s t)
    (h : W.Between s t) : r s t := by
  induction h with
  | refl => exact hrefl s
  | tail _ hstep ih => exact htrans _ _ _ ih (hothers _ _ hstep)

/-- `Meets`, and every call changes the state the way `G` has it. -/
def Guarantees (W : Setting C A σ) (G : σ → σ → Prop) (Q : α → σ → Prop) :
    Calls C A α → σ → Prop
  | done a, s => ∀ t, W.Between s t → Q a t
  | call c next, s =>
      ∀ t, W.Between s t → ∀ x u, W.act c t x u → G t u ∧ Guarantees W G Q (next x) u
  | endless, _ => False

theorem Guarantees.after {G : σ → σ → Prop} {p : Calls C A α} (h : p.Guarantees W G Q s)
    (hst : W.Between s t) : p.Guarantees W G Q t := by
  cases p with
  | done a => exact fun u hu => h u (hst.trans hu)
  | call c next => exact fun u hu => h u (hst.trans hu)
  | endless => exact h

/-! ## The calls of a program -/

/-- Every call the program can come to make is in `P`, whatever it is answered. -/
def Only (P : C → Prop) : Calls C A α → Prop
  | done _ => True
  | call c next => P c ∧ ∀ x, Only P (next x)
  | endless => True

variable {P P' : C → Prop}

theorem Only.bind {p : Calls C A α} {f : α → Calls C A β} (hp : p.Only P)
    (hf : ∀ a, (f a).Only P) : (p >>= f).Only P := by
  induction p with
  | done a => exact hf a
  | call c next ih => exact ⟨hp.1, fun x => ih x (hp.2 x)⟩
  | endless => trivial

theorem Only.mono {p : Calls C A α} (h : p.Only P) (himp : ∀ c, P c → P' c) : p.Only P' := by
  induction p with
  | done a => trivial
  | call c next ih => exact ⟨himp c h.1, fun x => ih x (h.2 x)⟩
  | endless => trivial

/-- The invariant rule: what the others keep, and what the calls in `P` keep, holds at the
end of every run of a program that makes no other calls. -/
theorem Only.keeps {I : σ → Prop} {p : Calls C A α} (honly : p.Only P)
    (hothers : ∀ s t, W.others s t → I s → I t)
    (hact : ∀ c s x t, P c → W.act c s x t → I s → I t)
    (h : p.Meets W Q s) (hs : I s) : p.Meets W (fun a t => Q a t ∧ I t) s := by
  induction p generalizing s with
  | done a => exact fun t ht => ⟨h t ht, ht.keeps hothers hs⟩
  | call c next ih =>
      intro t ht x u hu
      exact ih x (honly.2 x) (h t ht x u hu)
        (hact c t x u honly.1 hu (ht.keeps hothers hs))
  | endless => exact h

/-- The simulation rule: where a view of the states takes what the others do, and what the
calls in `P` do, to what is done in another setting, what is known of every run there is
known of every run here. `I` is what the view may rest on. -/
theorem Only.simulates {τ : Type} {V : Setting C A τ} {Q : α → τ → Prop} {I : σ → Prop}
    (f : σ → τ) {p : Calls C A α} (honly : p.Only P)
    (hothers : ∀ s t, I s → W.others s t → I t ∧ V.Between (f s) (f t))
    (hact : ∀ c s x t, P c → I s → W.act c s x t → I t ∧ V.act c (f s) x (f t))
    (h : p.Meets V Q (f s)) (hs : I s) : p.Meets W (fun a t => Q a (f t) ∧ I t) s := by
  have hbetween : ∀ {s t : σ}, W.Between s t → I s → I t ∧ V.Between (f s) (f t) := by
    intro s t hst hs
    induction hst with
    | refl => exact ⟨hs, .refl⟩
    | tail _ hstep ih =>
        obtain ⟨ht, hv⟩ := hothers _ _ ih.1 hstep
        exact ⟨ht, ih.2.trans hv⟩
  induction p generalizing s with
  | done a => exact fun t ht => ⟨h _ (hbetween ht hs).2, (hbetween ht hs).1⟩
  | call c next ih =>
      intro t ht x u hu
      obtain ⟨hIt, hvt⟩ := hbetween ht hs
      obtain ⟨hIu, hvu⟩ := hact c t x u honly.1 hIt hu
      exact ih x (honly.2 x) (h _ hvt x _ hvu) hIu
  | endless => exact h

/-- No recursion goes on and on. -/
def Ends : Calls C A α → Prop
  | done _ => True
  | call _ next => ∀ x, Ends (next x)
  | endless => False

/-! ## What a program may come to -/

/-- The program is done with the value after answers all of which are `ok`. -/
def ComesTo (ok : (c : C) → A c → Prop) : Calls C A α → α → Prop
  | done a, b => a = b
  | call c next, b => ∃ x, ok c x ∧ ComesTo ok (next x) b
  | endless, _ => False

theorem ComesTo.mono {ok ok' : (c : C) → A c → Prop} (himp : ∀ c x, ok c x → ok' c x) :
    ∀ {p : Calls C A α} {a : α}, p.ComesTo ok a → p.ComesTo ok' a := by
  intro p
  induction p with
  | done a => exact fun h => h
  | call c next ih =>
      rintro a ⟨x, hx, h⟩
      exact ⟨x, himp c x hx, ih x h⟩
  | endless => exact fun h => h

theorem ComesTo.of_bind {ok : (c : C) → A c → Prop} {f : α → Calls C A β} {b : β} :
    ∀ {p : Calls C A α}, (p >>= f).ComesTo ok b → ∃ a, p.ComesTo ok a ∧ (f a).ComesTo ok b := by
  intro p
  induction p with
  | done a => exact fun h => ⟨a, rfl, h⟩
  | call c next ih =>
      rintro ⟨x, hx, h⟩
      obtain ⟨a, ha, h⟩ := ih x h
      exact ⟨a, ⟨x, hx, ha⟩, h⟩
  | endless => exact fun h => h.elim

/-! ## A program alone -/

/-- What the program comes to when it is alone and its calls are functions. -/
def run (sem : (c : C) → σ → A c × σ) : Calls C A α → σ → Option (α × σ)
  | done a, s => some (a, s)
  | call c next, s => run sem (next (sem c s).1) (sem c s).2
  | endless, _ => none

/-- What holds of every run holds of the one where nobody else acts. -/
theorem Meets.run {sem : (c : C) → σ → A c × σ}
    (hsem : ∀ c s, W.act c s (sem c s).1 (sem c s).2) {p : Calls C A α}
    (h : p.Meets W Q s) : ∃ a t, p.run sem s = some (a, t) ∧ Q a t := by
  induction p generalizing s with
  | done a => exact ⟨a, s, rfl, h s .refl⟩
  | call c next ih => exact ih _ (h s .refl _ _ (hsem c s))
  | endless => exact absurd h id

end Calls
