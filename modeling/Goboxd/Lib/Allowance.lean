import Mathlib.Algebra.Order.Ring.Defs
import Mathlib.Tactic.Linarith
import Mathlib.Tactic.Ring

/-!
# How many calls a window admits

A server answers calls one after the other, each at a time, and the times do not
decrease. The question is how many calls of some kind it admits between two
times, whatever else it is asked in between. What a call says of itself may be older
than the time it is answered at, so which calls are in order is a parameter.

The answer is an amortised one. An allowance says of a state and a time how many
more calls could be admitted at once. It is never above the cap, time adds to it
at the rate at most, and an admitted call takes one away. Then a window admits no
more than the cap and what the rate adds over its length: the calls before the
window leave some allowance, and from there on every admission is paid for.
-/

namespace Server

section

variable {σ ι : Type*} (serve : σ → ι → Bool × σ) (counted : ι → Bool)

/-- Whether a call is counted and admitted. -/
def admits (s : σ) (c : ι) : Bool := counted c && (serve s c).1

/-- How many of the calls are. -/
def admitted : σ → List ι → Nat
  | _, [] => 0
  | s, c :: cs => (admits serve counted s c).toNat + admitted (serve s c).2 cs

/-- The state after the calls. -/
def served : σ → List ι → σ
  | s, [] => s
  | s, c :: cs => served (serve s c).2 cs

variable {serve counted}

theorem admitted_append : ∀ {calls calls' : List ι} {s : σ},
    admitted serve counted s (calls ++ calls') =
      admitted serve counted s calls +
        admitted serve counted (served serve s calls) calls' := by
  intro calls
  induction calls with
  | nil => intro calls' s; exact (Nat.zero_add _).symm
  | cons c cs ih =>
      intro calls' s
      rw [List.cons_append, admitted, admitted, served, ih, Nat.add_assoc]

theorem served_append : ∀ {calls calls' : List ι} {s : σ},
    served serve s (calls ++ calls') = served serve (served serve s calls) calls' := by
  intro calls
  induction calls with
  | nil => intro calls' s; rfl
  | cons c cs ih =>
      intro calls' s
      rw [List.cons_append, served, served, ih]

theorem admitted_eq_zero : ∀ {calls : List ι} {s : σ},
    (∀ c ∈ calls, counted c = false) → admitted serve counted s calls = 0 := by
  intro calls
  induction calls with
  | nil => intro s _; rfl
  | cons c cs ih =>
      intro s h
      rw [admitted, ih fun d hd => h d (List.mem_cons_of_mem c hd), admits,
        h c List.mem_cons_self]
      rfl

end

section

variable {σ ι K : Type*} [CommRing K] [LinearOrder K] [IsStrictOrderedRing K]
  (serve : σ → ι → Bool × σ)

/-- An allowance for the calls of a kind. `ok` is what is known of a call, and `inv` of
a state at a time. -/
structure Allowance (time : ι → K) (kind : ι → Bool) (cap rate : K)
    (ok : ι → Prop) (inv : K → σ → Prop) where
  left : σ → K → K
  nonneg : ∀ {u s}, inv u s → 0 ≤ left s u
  le_cap : ∀ {u s}, inv u s → left s u ≤ cap
  refill : ∀ {u v s}, inv u s → u ≤ v → left s v ≤ left s u + rate * (v - u)
  later : ∀ {u v s}, inv u s → u ≤ v → inv v s
  after : ∀ {u s c}, ok c → inv u s → u ≤ time c → inv (time c) (serve s c).2
  spend : ∀ {u s c}, ok c → inv u s → u ≤ time c →
    left (serve s c).2 (time c) + ((admits serve kind s c).toNat : K) ≤ left s (time c)

/-- The calls of a kind between two times. -/
def between (time : ι → K) (kind : ι → Bool) (s t : K) (c : ι) : Bool :=
  kind c && decide (s ≤ time c ∧ time c ≤ t)

variable {serve} {time : ι → K} {kind : ι → Bool} {cap rate : K} {ok : ι → Prop}
  {inv : K → σ → Prop}

omit [CommRing K] [IsStrictOrderedRing K] in
/-- Once a call is past the window, it and all later ones are. -/
theorem admitted_past {s t : K} {c : ι} {cs : List ι} {st : σ}
    (hsorted : (c :: cs).Pairwise fun c d => time c ≤ time d) (hct : ¬ time c ≤ t) :
    admitted serve (between time kind s t) st (c :: cs) = 0 := by
  refine admitted_eq_zero fun d hd => ?_
  have hcd : time c ≤ time d := by
    rcases List.mem_cons.mp hd with rfl | hd
    · exact le_refl _
    · exact (List.pairwise_cons.mp hsorted).1 d hd
  have hdt : ¬ time d ≤ t := fun hdt => hct (le_trans hcd hdt)
  rw [between, decide_eq_false fun h => hdt h.2, Bool.and_false]

/-- From a time on, what is admitted up to `t` is paid for by the allowance at
that time and what the rate adds. -/
theorem Allowance.admitted_le_left (A : Allowance serve time kind cap rate ok inv)
    (hrate : 0 ≤ rate) {s t : K} : ∀ {calls : List ι} {u : K} {st : σ},
    inv u st → u ≤ t → (calls.Pairwise fun c d => time c ≤ time d) →
    (∀ c ∈ calls, ok c) → (∀ c ∈ calls, u ≤ time c) →
    (admitted serve (between time kind s t) st calls : K) ≤
      A.left st u + rate * (t - u) := by
  intro calls
  induction calls with
  | nil =>
      intro u st hinv hut _ _ _
      rw [admitted, Nat.cast_zero]
      exact add_nonneg (A.nonneg hinv) (mul_nonneg hrate (sub_nonneg.mpr hut))
  | cons c cs ih =>
      intro u st hinv hut hsorted hall hfrom
      have huc := hfrom c List.mem_cons_self
      obtain ⟨hok, hall⟩ := List.forall_mem_cons.mp hall
      by_cases hct : time c ≤ t
      · have hrest := ih (A.after hok hinv huc) hct (List.pairwise_cons.mp hsorted).2 hall
          (List.pairwise_cons.mp hsorted).1
        have hone : (admits serve (between time kind s t) st c).toNat ≤
            (admits serve kind st c).toNat := by
          refine Bool.toNat_le_toNat fun hc => ?_
          rw [admits, between, Bool.and_eq_true, Bool.and_eq_true] at hc
          rw [admits, hc.1.1, hc.2]
          rfl
        have hone : ((admits serve (between time kind s t) st c).toNat : K) ≤
            ((admits serve kind st c).toNat : K) := Nat.cast_le.mpr hone
        have hspend := A.spend hok hinv huc
        have hrefill := A.refill hinv huc
        have hsplit : rate * (t - u) = rate * (time c - u) + rate * (t - time c) := by
          ring
        rw [admitted, Nat.cast_add, hsplit]
        linarith
      · rw [admitted_past hsorted hct, Nat.cast_zero]
        exact add_nonneg (A.nonneg hinv) (mul_nonneg hrate (sub_nonneg.mpr hut))

theorem Allowance.admitted_le (A : Allowance serve time kind cap rate ok inv)
    (hrate : 0 ≤ rate) {s t : K} (hst : s ≤ t) : ∀ {calls : List ι} {u : K} {st : σ},
    inv u st → (calls.Pairwise fun c d => time c ≤ time d) →
    (∀ c ∈ calls, ok c) → (∀ c ∈ calls, u ≤ time c) →
    (admitted serve (between time kind s t) st calls : K) ≤ cap + rate * (t - s) := by
  intro calls
  induction calls with
  | nil =>
      intro u st hinv _ _ _
      have hcap := le_trans (A.nonneg hinv) (A.le_cap hinv)
      rw [admitted, Nat.cast_zero]
      exact add_nonneg hcap (mul_nonneg hrate (sub_nonneg.mpr hst))
  | cons c cs ih =>
      intro u st hinv hsorted hall hfrom
      have huc := hfrom c List.mem_cons_self
      have hcs := List.pairwise_cons.mp hsorted
      have hcap := A.le_cap (A.later hinv huc)
      by_cases hsc : s ≤ time c
      · by_cases hct : time c ≤ t
        · have hwhole := A.admitted_le_left (s := s) hrate (A.later hinv huc) hct hsorted
            hall fun d hd => by
              rcases List.mem_cons.mp hd with rfl | hd
              · exact le_refl _
              · exact hcs.1 d hd
          have hshort : rate * (t - time c) ≤ rate * (t - s) :=
            mul_le_mul_of_nonneg_left (by linarith) hrate
          linarith
        · have hpos := A.nonneg (A.later hinv huc)
          have hlen := mul_nonneg hrate (sub_nonneg.mpr hst)
          rw [admitted_past hsorted hct, Nat.cast_zero]
          linarith
      · have hbefore : admits serve (between time kind s t) st c = false := by
          rw [admits, between, decide_eq_false fun h => hsc h.1, Bool.and_false,
            Bool.false_and]
        rw [admitted, hbefore, Bool.toNat_false, Nat.zero_add]
        obtain ⟨hok, hall⟩ := List.forall_mem_cons.mp hall
        exact ih (A.after hok hinv huc) hcs.2 hall hcs.1

/-- A window admits no more than the cap and what the rate adds over its length,
from a state about which the invariant holds at any time. -/
theorem Allowance.window (A : Allowance serve time kind cap rate ok inv) (hrate : 0 ≤ rate)
    {s t : K} (hst : s ≤ t) {calls : List ι} {st : σ} (hinv : ∀ u, inv u st)
    (hsorted : calls.Pairwise fun c d => time c ≤ time d) (hall : ∀ c ∈ calls, ok c) :
    (admitted serve (between time kind s t) st calls : K) ≤ cap + rate * (t - s) := by
  cases calls with
  | nil => exact A.admitted_le hrate hst (hinv 0) hsorted hall fun c hc => by cases hc
  | cons c cs =>
      refine A.admitted_le hrate hst (hinv (time c)) hsorted hall fun d hd => ?_
      rcases List.mem_cons.mp hd with rfl | hd
      · exact le_refl _
      · exact (List.pairwise_cons.mp hsorted).1 d hd

end

end Server
