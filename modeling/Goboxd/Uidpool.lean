import Goboxd.Lib.GoString

/-!
# The pool of jail uids

`Pool` hands out uids from a fixed range, each to one holder at a time. The
search for a free one is a round robin: it starts at `next`, the slot after
the last uid handed out, and wraps around the range. All arithmetic is that of
an `int`.
-/

namespace Goboxd.Uidpool

open Go

/-- `ConcurrentJobs`. -/
def ConcurrentJobs (getenv : String → GoString) (numCPU : Int) : Int :=
  match atoi (getenv "GOBOXD_MAX_JOBS") with
  | some v => if v > 0 then v else numCPU
  | none => numCPU

/-- `UidBudget`: the uids that so many jobs can hold at once, one for a
template jail and one for every parallel test. -/
def UidBudget (getenv : String → GoString) (numCPU : Int) : Int :=
  let jobs := ConcurrentJobs getenv numCPU
  let jobs := if jobs < 1 then 1 else jobs
  let cpus := if numCPU < 1 then 1 else numCPU
  let per := wrap (cpus + 1)
  if jobs > Int.tdiv maxInt per then maxInt else wrap (jobs * per)

def DefaultMinUid : Int := 10000

def minUid (getenv : String → GoString) : Int :=
  match atoi (getenv "GOBOXD_UID_MIN") with
  | some v => if v > 0 then v else DefaultMinUid
  | none => DefaultMinUid

/-- The pool's fields; `inUse` lists the keys of the source's map. -/
structure Pool where
  min : Int
  size : Int
  inUse : List Int
  next : Int
deriving DecidableEq, Repr

/-- `New`, with the value `minUid` read from the environment. -/
def New (minUid n : Int) : Pool :=
  let n := if n < 1 then 1 else n
  { min := minUid, size := n, inUse := [], next := 0 }

def Pool.slot (p : Pool) (i : Int) : Int :=
  wrap (p.min + rem (wrap (p.next + i)) p.size)

/-- The search of `Alloc` from offset `i`, `n` iterations before its end: the
first uid that is not held, with its offset. -/
def Pool.search (p : Pool) : Nat → Int → Option (Int × Int)
  | 0, _ => none
  | n + 1, i =>
      if p.slot i ∈ p.inUse then p.search n (i + 1) else some (p.slot i, i)

/-- `Alloc`: an unused uid, or the exhausted error. -/
def Pool.alloc (p : Pool) : Except GoString (Int × Pool) :=
  match p.search p.size.toNat 0 with
  | some (uid, i) =>
      .ok (uid,
        { p with
          inUse := uid :: p.inUse
          next := rem (wrap (p.next + i + 1)) p.size })
  | none => .error (str "uid pool exhausted (size " ++ itoa p.size ++ str ")")

/-- `Release`: a uid outside the range is ignored, one that is free already is
a no-op. -/
def Pool.release (p : Pool) (uid : Int) : Pool :=
  if uid < p.min ∨ uid ≥ wrap (p.min + p.size) then p
  else { p with inUse := p.inUse.filter fun u => u ≠ uid }

/-- The uid the search comes to first: at some offset it is free, and at every
earlier offset the uid is held. -/
def Pool.FirstFree (p : Pool) (uid : Int) : Prop :=
  ∃ k : Nat, k < p.size.toNat ∧ p.slot k = uid ∧ uid ∉ p.inUse ∧
    ∀ i : Nat, i < k → p.slot i ∈ p.inUse

theorem Pool.search_spec {p : Pool} : ∀ {n : Nat} {j : Nat} {uid i : Int},
    p.search n j = some (uid, i) →
    ∃ k : Nat, j ≤ k ∧ k < j + n ∧ i = k ∧ p.slot k = uid ∧ uid ∉ p.inUse ∧
      ∀ m : Nat, j ≤ m → m < k → p.slot m ∈ p.inUse := by
  intro n
  induction n with
  | zero => intro j uid i h; cases h
  | succ n ih =>
      intro j uid i h
      rw [Pool.search] at h
      split at h
      · next hheld =>
          obtain ⟨k, hjk, hkn, hik, hslot, hfree, hbefore⟩ :=
            ih (j := j + 1) (by rw [Nat.cast_succ]; exact h)
          refine ⟨k, by omega, by omega, hik, hslot, hfree, ?_⟩
          intro m hjm hmk
          rcases Nat.eq_or_lt_of_le hjm with rfl | hlt
          · exact hheld
          · exact hbefore m hlt hmk
      · next hfree =>
          cases h
          exact ⟨j, Nat.le_refl j, by omega, rfl, rfl, hfree,
            fun m hjm hmj => absurd hjm (by omega)⟩

theorem Pool.search_none {p : Pool} : ∀ {n j : Nat}, p.search n j = none →
    ∀ m : Nat, j ≤ m → m < j + n → p.slot m ∈ p.inUse := by
  intro n
  induction n with
  | zero => intro j _ m hjm hm; omega
  | succ n ih =>
      intro j h m hjm hm
      rw [Pool.search] at h
      split at h
      · next hheld =>
          rcases Nat.eq_or_lt_of_le hjm with rfl | hlt
          · exact hheld
          · exact ih (j := j + 1) (by rw [Nat.cast_succ]; exact h) m hlt (by omega)
      · cases h

/-- What a successful `Alloc` does: it hands out the first free uid of the
search and marks it. -/
theorem Pool.alloc_ok {p p' : Pool} {uid : Int} (h : p.alloc = .ok (uid, p')) :
    p.FirstFree uid ∧ uid ∉ p.inUse ∧ p'.inUse = uid :: p.inUse := by
  unfold Pool.alloc at h
  split at h
  · next u i hs =>
      cases h
      obtain ⟨k, -, hk, -, hslot, hfree, hbefore⟩ :=
        Pool.search_spec (j := 0) hs
      exact ⟨⟨k, by omega, hslot, hfree, fun m => hbefore m (Nat.zero_le m)⟩,
        hfree, rfl⟩
  · cases h

theorem Pool.FirstFree.unique {p : Pool} {u v : Int} (hu : p.FirstFree u)
    (hv : p.FirstFree v) : u = v := by
  obtain ⟨k, -, rfl, hfu, hbu⟩ := hu
  obtain ⟨l, -, rfl, hfv, hbv⟩ := hv
  rcases Nat.lt_trichotomy k l with h | rfl | h
  · exact absurd (hbv k h) hfu
  · rfl
  · exact absurd (hbu l h) hfv

/-- `Alloc` succeeds when the search has a first free uid, with that uid. -/
theorem Pool.FirstFree.alloc {p : Pool} {uid : Int} (h : p.FirstFree uid) :
    ∃ p', p.alloc = .ok (uid, p') := by
  cases ha : p.alloc with
  | ok r =>
      obtain ⟨u, p'⟩ := r
      exact ⟨p', by rw [(Pool.alloc_ok ha).1.unique h]⟩
  | error m =>
      unfold Pool.alloc at ha
      split at ha
      · cases ha
      · next hs =>
          obtain ⟨k, hk, rfl, hfree, -⟩ := h
          exact absurd (Pool.search_none (j := 0) hs k (Nat.zero_le k) (by omega))
            hfree

/-- `Release` takes no mark off any other uid. -/
theorem Pool.mem_release_of_ne {p : Pool} {uid u : Int} (hne : u ≠ uid)
    (h : u ∈ p.inUse) : u ∈ (p.release uid).inUse := by
  unfold Pool.release
  split
  · exact h
  · exact List.mem_filter.mpr ⟨h, by simpa using hne⟩

end Goboxd.Uidpool
