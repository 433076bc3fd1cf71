import Goboxd.Lib.Machine
import Mathlib.Data.Int.Basic

/-!
# Machines that come to rest

Some of a machine's actions are its own work, the rest are what the world does to it. It
drains when work uses something up that only the world can bring more of, and when there is
work to do in every state that is not at rest. Then a run of work is only as long as what
there was to use up, it can go on as long as the machine is not at rest, and one such run
gets there. This is total correctness of a concurrent program under any scheduler that does
not leave all of it idle for good.
-/

namespace Machine

variable {σ α : Type*} {M : Machine σ α} {I rest : σ → Prop} {work : α → Prop} {μ : σ → ℤ}

/-- Work uses up `μ` in the states of `I`, and there is work wherever it is not at `rest`. -/
structure Drains (M : Machine σ α) (I rest : σ → Prop) (work : α → Prop) (μ : σ → ℤ) :
    Prop where
  keeps : ∀ s a t, I s → M.step s a = some t → I t
  nonneg : ∀ s, I s → 0 ≤ μ s
  lowers : ∀ s a t, I s → work a → M.step s a = some t → μ t < μ s
  goesOn : ∀ s, I s → ¬ rest s → ∃ a t, work a ∧ M.step s a = some t

theorem Drains.exec (h : M.Drains I rest work μ) {s t : σ} {as : List α} (hs : I s)
    (hwork : ∀ a ∈ as, work a) (he : M.exec s as = some t) :
    I t ∧ (as.length : ℤ) + μ t ≤ μ s := by
  induction as generalizing s with
  | nil =>
      rw [exec_nil] at he
      obtain rfl := Option.some.inj he
      exact ⟨hs, Int.le_of_eq (Int.zero_add _)⟩
  | cons a as ih =>
      rw [exec_cons, Option.bind_eq_some_iff] at he
      obtain ⟨u, hu, he⟩ := he
      have hlow := h.lowers s a u hs (hwork a List.mem_cons_self) hu
      obtain ⟨ht, hlen⟩ := ih (h.keeps s a u hs hu)
        (fun b hb => hwork b (List.mem_cons_of_mem a hb)) he
      refine ⟨ht, ?_⟩
      rw [List.length_cons]
      omega

/-- A run of work is only as long as what there is to use up. -/
theorem Drains.length_le (h : M.Drains I rest work μ) {s t : σ} {as : List α} (hs : I s)
    (hwork : ∀ a ∈ as, work a) (he : M.exec s as = some t) : (as.length : ℤ) ≤ μ s := by
  obtain ⟨ht, hlen⟩ := h.exec hs hwork he
  have := h.nonneg t ht
  omega

/-- Some run of work comes to rest. -/
theorem Drains.rests (h : M.Drains I rest work μ) {s : σ} (hs : I s) :
    ∃ as t, (∀ a ∈ as, work a) ∧ M.exec s as = some t ∧ rest t := by
  suffices ∀ (n : ℕ) s, I s → μ s ≤ n →
      ∃ as t, (∀ a ∈ as, work a) ∧ M.exec s as = some t ∧ rest t from
    this (μ s).toNat s hs (Int.self_le_toNat _)
  intro n
  induction n with
  | zero =>
      intro s hs hn
      refine ⟨[], s, fun a ha => absurd ha List.not_mem_nil, rfl, ?_⟩
      by_contra hover
      obtain ⟨a, t, ha, ht⟩ := h.goesOn s hs hover
      have hlow := h.lowers s a t hs ha ht
      have hpos := h.nonneg t (h.keeps s a t hs ht)
      omega
  | succ n ih =>
      intro s hs hn
      by_cases hover : rest s
      · exact ⟨[], s, fun a ha => absurd ha List.not_mem_nil, rfl, hover⟩
      · obtain ⟨a, t, ha, ht⟩ := h.goesOn s hs hover
        have hlow := h.lowers s a t hs ha ht
        obtain ⟨as, u, has, hu, hrest⟩ := ih t (h.keeps s a t hs ht) (by omega)
        refine ⟨a :: as, u, ?_, ?_, hrest⟩
        · intro b hb
          rcases List.mem_cons.mp hb with rfl | hb
          · exact ha
          · exact has b hb
        · rw [exec_cons, ht]
          exact hu

end Machine
