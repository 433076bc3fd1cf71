import Mathlib.Data.List.Nodup
import Mathlib.Data.List.Rotate

/-!
# Taking turns

A ring of things that are handed out one at a time: the first that is free, looking from the
front, and then it and what was passed go to the back. So whatever stands in the ring waits for
what is free ahead of it, and for nothing else. Each turn uses one of these up, and each thing
that is given back ahead of it adds one. When none is left and it is free itself, it is next.
-/

namespace RoundRobin

variable {α : Type*} [DecidableEq α]

/-- What a search from the front passes before it comes to `x`. -/
def passed (ring : List α) (x : α) : List α := ring.takeWhile fun y => decide (y ≠ x)

/-- How much of it is free. -/
def spare (ring inUse : List α) (x : α) : ℕ :=
  (passed ring x).countP fun y => decide (y ∉ inUse)

/-- `v` is the first that is free, and `ring'` is the ring after its turn. -/
def Turn (ring inUse : List α) (v : α) (ring' : List α) : Prop :=
  ∃ front back, ring = front ++ v :: back ∧ (∀ y ∈ front, y ∈ inUse) ∧ v ∉ inUse ∧
    ring' = back ++ front ++ [v]

variable {ring ring' inUse : List α} {u v : α}

theorem passed_head (l : List α) : passed (u :: l) u = [] := by simp [passed]

theorem passed_cons {y : α} (h : y ≠ u) (l : List α) : passed (y :: l) u = y :: passed l u := by
  simp [passed, h]

theorem passed_append_right {l : List α} (l' : List α) (h : u ∉ l) :
    passed (l ++ l') u = l ++ passed l' u :=
  List.takeWhile_append_of_pos fun _ hy => decide_eq_true fun heq => h (heq ▸ hy)

/-- Nothing behind the first `u` is passed. -/
theorem passed_append_left {l : List α} (l' : List α) (h : u ∈ l) :
    passed (l ++ l') u = passed l u := by
  obtain ⟨front, back, rfl, hfront⟩ := List.eq_append_cons_of_mem h
  rw [List.append_assoc, List.cons_append, passed_append_right _ hfront,
    passed_append_right _ hfront, passed_head, passed_head]

theorem mem_of_mem_passed {y : α} (h : y ∈ passed ring u) : y ∈ ring :=
  (List.takeWhile_sublist _).subset h

theorem ne_of_mem_passed {y : α} (h : y ∈ passed ring u) : y ≠ u := by
  have hall := List.all_takeWhile (p := fun y => decide (y ≠ u)) (l := ring)
  exact of_decide_eq_true (List.all_eq_true.mp hall y h)

omit [DecidableEq α] in
theorem Turn.mem_iff (h : Turn ring inUse v ring') : u ∈ ring' ↔ u ∈ ring := by
  obtain ⟨front, back, rfl, -, -, rfl⟩ := h
  simp only [List.mem_append, List.mem_cons, List.not_mem_nil, or_false]
  tauto

/-- What has its turn had nothing free ahead of it. -/
theorem Turn.spare_self (h : Turn ring inUse v ring') : spare ring inUse v = 0 := by
  obtain ⟨front, back, rfl, hheld, hfree, -⟩ := h
  have hfront : v ∉ front := fun hv => hfree (hheld v hv)
  rw [spare, passed_append_right _ hfront, passed_head, List.append_nil]
  refine List.countP_eq_zero.mpr fun y hy => ?_
  simp [hheld y hy]

/-- A turn uses up one of what is free ahead of everything else that is free. -/
theorem Turn.spare_other (h : Turn ring inUse v ring') (hnodup : ring.Nodup) (hu : u ∈ ring)
    (hfree : u ∉ inUse) (hne : u ≠ v) :
    spare ring inUse u = spare ring' (v :: inUse) u + 1 := by
  obtain ⟨front, back, rfl, hheld, hv, rfl⟩ := h
  have hfront : u ∉ front := fun hmem => hfree (hheld u hmem)
  have hback : u ∈ back := by
    rcases List.mem_append.mp hu with hmem | hmem
    · exact absurd hmem hfront
    · exact (List.mem_cons.mp hmem).resolve_left hne
  have hvback : v ∉ back :=
    (List.nodup_cons.mp (List.nodup_append.mp hnodup).2.1).1
  have hnone : front.countP (fun y => decide (y ∉ inUse)) = 0 :=
    List.countP_eq_zero.mpr fun y hy => by simp [hheld y hy]
  have hsame : (passed back u).countP (fun y => decide (y ∉ v :: inUse)) =
      (passed back u).countP fun y => decide (y ∉ inUse) := by
    refine List.countP_congr fun y hy => ?_
    have hyv : y ≠ v := fun heq => hvback (heq ▸ mem_of_mem_passed hy)
    simp [hyv]
  rw [spare, spare, passed_append_right _ hfront, passed_cons (Ne.symm hne),
    List.append_assoc, passed_append_left _ hback, hsame, List.countP_append, hnone,
    List.countP_cons_of_pos (by simpa using hv)]
  omega

/-- So what is free has its turn exactly when nothing is free ahead of it. -/
theorem Turn.eq_iff (h : Turn ring inUse v ring') (hnodup : ring.Nodup) (hu : u ∈ ring)
    (hfree : u ∉ inUse) : u = v ↔ spare ring inUse u = 0 := by
  constructor
  · rintro rfl
    exact h.spare_self
  · intro hzero
    by_cases hne : u = v
    · exact hne
    · have hless := h.spare_other hnodup hu hfree hne
      omega

/-- Giving something back adds one to what is free ahead of all behind it. -/
theorem spare_give (hnodup : ring.Nodup) (hheld : v ∈ inUse) :
    spare ring (inUse.filter fun y => decide (y ≠ v)) u =
      spare ring inUse u + (decide (v ∈ passed ring u)).toNat := by
  have hnodup' : (passed ring u).Nodup := hnodup.sublist (List.takeWhile_sublist _)
  unfold spare
  generalize passed ring u = l at hnodup' ⊢
  induction l with
  | nil => rfl
  | cons y ys ih =>
      obtain ⟨hy, hys⟩ := List.nodup_cons.mp hnodup'
      rw [List.countP_cons, List.countP_cons, ih hys]
      by_cases heq : y = v
      · have hnot : v ∉ ys := heq ▸ hy
        simp [heq, hheld, hnot]
      · have hmem : (v ∈ y :: ys) = (v ∈ ys) := by simp [Ne.symm heq]
        simp only [hmem, List.mem_filter, heq, ne_eq, not_false_eq_true, decide_true, and_true]
        omega

theorem spare_give_self : spare ring (inUse.filter fun y => decide (y ≠ u)) u =
    spare ring inUse u := by
  refine List.countP_congr fun y hy => ?_
  simp [ne_of_mem_passed hy]

end RoundRobin
