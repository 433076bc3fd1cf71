import Mathlib.Data.List.Infix

/-!
# Mounts, one over the other

What a path leads to under a list of mounts that were made in order: the last one whose
target is the path or above it. A mount hides what was there before it, everything below its
target included, and nothing else. A path that no mount covers leads nowhere.
-/

namespace MountTable

variable {N K : Type*} [DecidableEq N]

/-- A mount of something at a path of names. -/
structure Mount (N K : Type*) where
  target : List N
  source : K
deriving DecidableEq, Repr

def Mount.covers (m : Mount N K) (p : List N) : Bool := m.target.isPrefixOf p

/-- The mount a path leads to, and the names that are left below its target. -/
def see (ms : List (Mount N K)) (p : List N) : Option (K × List N) :=
  (ms.reverse.find? fun m => m.covers p).map fun m => (m.source, p.drop m.target.length)

variable {ms ns : List (Mount N K)} {m : Mount N K} {p : List N}

theorem Mount.covers_iff : m.covers p = true ↔ m.target <+: p := List.isPrefixOf_iff_prefix

/-- The last mount hides what it covers. -/
theorem see_covered (h : m.target <+: p) :
    see (ms ++ [m]) p = some (m.source, p.drop m.target.length) := by
  have hc : m.covers p = true := Mount.covers_iff.mpr h
  rw [see, List.reverse_append, List.reverse_singleton, List.singleton_append,
    List.find?_cons, hc]
  rfl

/-- And nothing else. -/
theorem see_uncovered (h : ∀ n ∈ ns, ¬ n.target <+: p) : see (ms ++ ns) p = see ms p := by
  have hnone : (ns.reverse.find? fun n => n.covers p) = none := by
    refine List.find?_eq_none.mpr fun n hn hc => ?_
    exact h n (List.mem_reverse.mp hn) (Mount.covers_iff.mp hc)
  rw [see, List.reverse_append, List.find?_append, hnone, Option.none_or, see]

/-- Neither target is the other or above it. -/
def Mount.apart (m n : Mount N K) : Bool :=
  !m.target.isPrefixOf n.target && !n.target.isPrefixOf m.target

theorem Mount.not_covers_of_apart {n : Mount N K} (h : m.apart n = true) (rest : List N) :
    ¬ n.target <+: m.target ++ rest := by
  intro hcov
  simp only [Mount.apart, Bool.and_eq_true, Bool.not_eq_true', ← Bool.not_eq_true,
    List.isPrefixOf_iff_prefix] at h
  rcases List.prefix_or_prefix_of_prefix (List.prefix_append m.target rest) hcov with hp | hp
  · exact h.1 hp
  · exact h.2 hp

/-- What is below the target of a mount is what was mounted, when what comes later is mounted
apart from it. -/
theorem see_at (ms : List (Mount N K)) (rest : List N) (h : ns.all m.apart = true) :
    see (ms ++ m :: ns) (m.target ++ rest) = some (m.source, rest) := by
  have hlater : ∀ n ∈ ns, ¬ n.target <+: m.target ++ rest := fun n hn =>
    Mount.not_covers_of_apart (List.all_eq_true.mp h n hn) rest
  rw [List.append_cons, see_uncovered hlater, see_covered (List.prefix_append _ _),
    List.drop_left]

/-- What a path leads to is one of the mounts, and it is at or below its target. -/
theorem mem_of_see {k : K} {q : List N} (h : see ms p = some (k, q)) :
    ∃ m ∈ ms, m.source = k ∧ p = m.target ++ q := by
  obtain ⟨m, hm, heq⟩ := Option.map_eq_some_iff.mp h
  obtain ⟨rfl, rfl⟩ := Prod.mk.injEq .. ▸ heq
  have hcov : m.target <+: p :=
    Mount.covers_iff.mp (List.find?_some (p := fun m : Mount N K => m.covers p) hm)
  refine ⟨m, List.mem_reverse.mp (List.mem_of_find?_eq_some hm), rfl, ?_⟩
  exact List.prefix_iff_eq_append.mp hcov |>.symm

end MountTable
