import Goboxd.Proofs.PoolSearch
import Goboxd.Proofs.OutputVerdict

/-!
# The uid pool over its whole life

Whoever calls `Alloc` holds the uid it returns until somebody releases it. The pool
keeps its own record of this, and as long as no sum overflows the record is right:
it lists the uids held and no others, all of the range, each once. Everything that
is asked of an allocator can be read off that.

Three sums can overflow. `min + size`, in `Release`, makes every uid look as if it
were above the range, so that nothing that was handed out comes back. `next + i`, in
`Alloc`, makes the remainder negative, so that a full pool hands out uids below the
range. The third, of `min` and the remainder, overflows only where the first does.
A pool whose size is at most half of what an `int` can count, and whose range fits,
is right for ever; of every other one some calls can be made that show it is not.
-/

namespace Goboxd.Uidpool

open Go

/-! ## Calls -/

inductive PoolCall where
  | alloc
  | release (uid : Int)
deriving DecidableEq

/-- The pool, and the uids that its callers hold. -/
structure PoolUse where
  pool : Pool
  held : List Int
deriving DecidableEq

def PoolUse.step (s : PoolUse) : PoolCall → PoolUse
  | .alloc =>
      match s.pool.alloc with
      | .ok (uid, pool) => ⟨pool, uid :: s.held⟩
      | .error _ => s
  | .release uid => ⟨s.pool.release uid, s.held.filter fun u => u ≠ uid⟩

def PoolUse.run (s : PoolUse) (calls : List PoolCall) : PoolUse :=
  calls.foldl PoolUse.step s

/-- The pool hands the uid out to one of its next callers, if nothing is released. -/
inductive Pool.Offers : Pool → Int → Prop where
  | now {p p' : Pool} {uid : Int} (h : p.alloc = .ok (uid, p')) : p.Offers uid
  | later {p p' : Pool} {u uid : Int} (h : p.alloc = .ok (u, p'))
      (hrest : p'.Offers uid) : p.Offers uid

/-- The pool is a correct allocator in a state. -/
structure PoolUse.Correct (min size : Int) (s : PoolUse) : Prop where
  fresh : ∀ uid pool, s.pool.alloc = .ok (uid, pool) → min ≤ uid ∧ uid ∉ s.held
  fails : (∃ msg, s.pool.alloc = .error msg) ↔ (s.held.length : Int) = size
  reuse : ∀ uid ∈ s.held, (s.pool.release uid).Offers uid
  noop : ∀ uid, uid ∉ s.held → s.pool.release uid = s.pool

/-- It is one after every sequence of calls. -/
def PoolCorrect (minUid n : Int) : Prop :=
  ∀ calls : List PoolCall,
    (PoolUse.run ⟨New minUid n, []⟩ calls).Correct minUid (New minUid n).size

/-! ## No sum overflows -/

/-- The record of the pool is right. -/
structure PoolUse.Wf (min size : Int) (s : PoolUse) : Prop where
  min_eq : s.pool.min = min
  size_eq : s.pool.size = size
  ranged : s.pool.Ranged
  inUse : s.pool.inUse = s.held
  nodup : s.held.Nodup
  range : ∀ u ∈ s.held, min ≤ u ∧ u < min + size

variable {min size : Int} {s : PoolUse}

theorem PoolUse.Wf.release_inUse (h : s.Wf min size) (uid : Int) :
    (s.pool.release uid).inUse = s.held.filter fun u => u ≠ uid := by
  have htop : wrap (s.pool.min + s.pool.size) = s.pool.min + s.pool.size :=
    wrap_of_inRange ⟨by
      have hmin := h.ranged.min
      have hnext := h.ranged.next
      have hlt := h.ranged.next_lt
      unfold maxInt
      omega, h.ranged.top⟩
  unfold Pool.release
  rw [htop, h.min_eq, h.size_eq, h.inUse]
  split
  · next hout =>
      rw [h.inUse]
      refine (List.filter_eq_self.mpr fun u hu => ?_).symm
      have hin := h.range u hu
      exact decide_eq_true (by omega)
  · rfl

theorem PoolUse.Wf.alloc (h : s.Wf min size) (hle : size ≤ 4611686018427387904)
    {uid : Int} {pool : Pool} (ha : s.pool.alloc = .ok (uid, pool)) :
    PoolUse.Wf min size ⟨pool, uid :: s.held⟩ := by
  have hclear := Pool.clear_of_le h.ranged (by rw [h.size_eq]; exact hle)
  obtain ⟨hin, hranged⟩ := Pool.alloc_ranged h.ranged hclear ha
  obtain ⟨hmin, hsize, huse⟩ := Pool.alloc_min_size ha
  have hfree := (Pool.alloc_ok ha).2.1
  rw [h.inUse] at hfree
  rw [h.min_eq, h.size_eq] at hin
  refine ⟨by rw [hmin, h.min_eq], by rw [hsize, h.size_eq], hranged, by rw [huse, h.inUse],
    List.nodup_cons.mpr ⟨hfree, h.nodup⟩, ?_⟩
  intro u hu
  rcases List.mem_cons.mp hu with rfl | hu
  · exact hin
  · exact h.range u hu

theorem PoolUse.Wf.release (h : s.Wf min size) (uid : Int) :
    PoolUse.Wf min size ⟨s.pool.release uid, s.held.filter fun u => u ≠ uid⟩ := by
  obtain ⟨hmin, hsize, -⟩ := s.pool.release_min_size uid
  refine ⟨by rw [hmin, h.min_eq], by rw [hsize, h.size_eq], h.ranged.release uid,
    h.release_inUse uid, h.nodup.filter _, ?_⟩
  intro u hu
  exact h.range u (List.mem_of_mem_filter hu)

theorem PoolUse.Wf.step (h : s.Wf min size) (hle : size ≤ 4611686018427387904)
    (c : PoolCall) : (s.step c).Wf min size := by
  cases c with
  | alloc =>
      unfold PoolUse.step
      dsimp only
      split
      · next uid pool ha => exact h.alloc hle ha
      · exact h
  | release uid => exact h.release uid

theorem PoolUse.Wf.run (hle : size ≤ 4611686018427387904) :
    ∀ {calls : List PoolCall} {s : PoolUse}, s.Wf min size →
      (s.run calls).Wf min size := by
  intro calls
  induction calls with
  | nil => intro s h; exact h
  | cons c cs ih =>
      intro s h
      exact ih (h.step hle c)

theorem new_wf (hmin : 0 ≤ min) (hsize : 1 ≤ size) (htop : min + size ≤ maxInt) :
    PoolUse.Wf min size ⟨New min size, []⟩ := by
  have hn : (if size < 1 then 1 else size) = size := if_neg (by omega)
  refine ⟨rfl, hn, ⟨hmin, ?_, Int.le_refl 0, ?_⟩, rfl, List.nodup_nil, ?_⟩
  · show min + (if size < 1 then 1 else size) ≤ maxInt
    rw [hn]
    exact htop
  · show 0 < (if size < 1 then 1 else size)
    rw [hn]
    omega
  · intro u hu
    cases hu

/-! ### What can be read off the record -/

/-- Different uids of the range are no more than the range. -/
theorem length_le_of_range {l : List Int} (hsize : 0 ≤ size) (hnodup : l.Nodup)
    (hrange : ∀ u ∈ l, min ≤ u ∧ u < min + size) : (l.length : Int) ≤ size := by
  have hsub : l ⊆ (List.range size.toNat).map fun i : ℕ => min + i := by
    intro u hu
    obtain ⟨hlo, hhi⟩ := hrange u hu
    refine List.mem_map.mpr ⟨(u - min).toNat, List.mem_range.mpr (by omega), ?_⟩
    omega
  have hle := (List.subperm_of_subset hnodup hsub).length_le
  rw [List.length_map, List.length_range] at hle
  omega

theorem PoolUse.Wf.fails (h : s.Wf min size) (hle : size ≤ 4611686018427387904) :
    (∃ msg, s.pool.alloc = .error msg) ↔ (s.held.length : Int) = size := by
  have hpos : 0 ≤ size := by
    rw [← h.size_eq]
    exact Int.le_trans h.ranged.next (Int.le_of_lt h.ranged.next_lt)
  constructor
  · intro hfail
    obtain ⟨msg, hmsg⟩ := hfail
    have hcount := length_le_of_range hpos h.nodup h.range
    by_cases hroom : (s.held.length : Int) < size
    · obtain ⟨uid, pool, hok⟩ := Pool.alloc_of_room h.ranged
        (Pool.clear_of_le h.ranged (by rw [h.size_eq]; exact hle))
        (by rw [h.inUse, h.size_eq]; exact hroom)
      rw [hok] at hmsg
      cases hmsg
    · omega
  · intro hall
    cases ha : s.pool.alloc with
    | error msg => exact ⟨msg, rfl⟩
    | ok r =>
        have hwf : PoolUse.Wf min size ⟨r.2, r.1 :: s.held⟩ := h.alloc hle ha
        have hcount := length_le_of_range hpos hwf.nodup hwf.range
        rw [List.length_cons] at hcount
        omega

/-- A free uid of the range is handed out in the end: every `Alloc` before uses up one of
the free uids ahead of it. -/
theorem Pool.offers_of_free {uid : Int} : ∀ {d : ℕ} {p : Pool}, p.Ranged →
    p.size ≤ 4611686018427387904 → uid ∈ p.slots → uid ∉ p.inUse →
    RoundRobin.spare p.slots p.inUse uid = d → p.Offers uid := by
  intro d
  induction d with
  | zero =>
      intro p hr hle hmem hfree hspare
      cases ha : p.alloc with
      | error msg => exact absurd (Pool.slots_held_of_error ha hmem) hfree
      | ok r =>
          have hturn := Pool.alloc_turn hr hle ha
          have hfirst := (hturn.eq_iff (Pool.slots_nodup hr (Pool.sum_le hr hle)) hmem
            hfree).mpr hspare
          rw [hfirst]
          exact .now ha
  | succ d ih =>
      intro p hr hle hmem hfree hspare
      cases ha : p.alloc with
      | error msg => exact absurd (Pool.slots_held_of_error ha hmem) hfree
      | ok r =>
          have hnodup := Pool.slots_nodup hr (Pool.sum_le hr hle)
          have hturn := Pool.alloc_turn hr hle ha
          obtain ⟨-, hr'⟩ := Pool.alloc_ranged hr (Pool.clear_of_le hr hle) ha
          obtain ⟨-, hsize, huse⟩ := Pool.alloc_min_size ha
          have hne : uid ≠ r.1 := by
            intro heq
            have hzero := (hturn.eq_iff hnodup hmem hfree).mp heq
            omega
          have hless := hturn.spare_other hnodup hmem hfree hne
          refine .later ha (ih hr' (hsize ▸ hle) (hturn.mem_iff.mpr hmem) ?_ ?_)
          · rw [huse]
            exact fun hheld => (List.mem_cons.mp hheld).elim hne hfree
          · rw [huse]
            omega

theorem PoolUse.Wf.reuse (h : s.Wf min size) (hle : size ≤ 4611686018427387904)
    {uid : Int} (hheld : uid ∈ s.held) : (s.pool.release uid).Offers uid := by
  have hwf := h.release uid
  have hin := h.range uid hheld
  have hsize : (s.pool.release uid).size = size := hwf.size_eq
  have hmin : (s.pool.release uid).min = min := hwf.min_eq
  refine Pool.offers_of_free hwf.ranged (hsize.le.trans hle) ?_ ?_ rfl
  · exact (Pool.mem_slots hwf.ranged (hsize.le.trans hle)).mpr (by rw [hmin, hsize]; exact hin)
  · rw [h.release_inUse]
    simp

theorem PoolUse.Wf.correct (h : s.Wf min size) (hle : size ≤ 4611686018427387904) :
    s.Correct min size where
  fresh := by
    intro uid pool ha
    have hwf := h.alloc hle ha
    exact ⟨(hwf.range uid List.mem_cons_self).1, (List.nodup_cons.mp hwf.nodup).1⟩
  fails := h.fails hle
  reuse := fun _ hheld => h.reuse hle hheld
  noop := by
    intro uid hfree
    have huse := h.release_inUse uid
    have hsame : s.held.filter (fun u => u ≠ uid) = s.held := by
      refine List.filter_eq_self.mpr fun u hu => ?_
      exact decide_eq_true fun heq => hfree (by rw [← heq]; exact hu)
    unfold Pool.release at huse ⊢
    split
    · rfl
    · next hin =>
        rw [if_neg hin, hsame, ← h.inUse] at huse
        dsimp only at huse
        rw [huse]

theorem poolCorrect_of_le (hmin : 0 ≤ min) (hsize : 1 ≤ size)
    (hle : size ≤ 4611686018427387904) (htop : min + size ≤ maxInt) :
    PoolCorrect min size := by
  intro calls
  have hwf : PoolUse.Wf min size (PoolUse.run ⟨New min size, []⟩ calls) :=
    (new_wf hmin hsize htop).run hle
  have hn : (New min size).size = size := (new_wf hmin hsize htop).size_eq
  rw [hn]
  exact hwf.correct hle

/-! ## A sum overflows -/

/-- A uid on the record is not handed out. -/
theorem Pool.Offers.not_mem {p : Pool} {uid : Int} (h : p.Offers uid) :
    uid ∉ p.inUse := by
  induction h with
  | now ha => exact (Pool.alloc_ok ha).2.1
  | later ha _ ih =>
      intro hmem
      refine ih ?_
      rw [(Pool.alloc_min_size ha).2.2]
      exact List.mem_cons_of_mem _ hmem

/-- When the search starts at a free uid, that is the one. -/
theorem Pool.alloc_first {p : Pool} (hsize : 1 ≤ p.size) (hfree : p.slot 0 ∉ p.inUse) :
    p.alloc = .ok (p.slot 0,
      { p with inUse := p.slot 0 :: p.inUse, next := rem (wrap (p.next + 0 + 1)) p.size }) := by
  obtain ⟨n, hn⟩ : ∃ n, p.size.toNat = n + 1 := ⟨p.size.toNat - 1, by omega⟩
  unfold Pool.alloc
  rw [hn, Pool.search, if_neg hfree]

theorem new_size (hsize : 1 ≤ size) : (New min size).size = size :=
  if_neg (by omega)

/-- With a range that does not fit, nothing is ever released. -/
theorem not_correct_of_top (hmin : 1 ≤ min) (hmax : min ≤ maxInt) (hsize : 1 ≤ size)
    (hsmax : size ≤ maxInt) (htop : maxInt < min + size) : ¬ PoolCorrect min size := by
  intro hcorrect
  have hslot : (New min size).slot 0 = min := by
    have hzero : rem (wrap (0 + 0)) (New min size).size = 0 := by
      rw [rem, wrap_of_inRange ⟨by decide, by decide⟩]
      exact Int.zero_tmod _
    show wrap (min + rem (wrap (0 + 0)) (New min size).size) = min
    rw [hzero, Int.add_zero]
    exact wrap_of_inRange ⟨by unfold maxInt; omega, hmax⟩
  have ha := Pool.alloc_first (p := New min size) (by rw [new_size hsize]; exact hsize)
    (by simp [New])
  rw [hslot] at ha
  have hreuse := (hcorrect [.alloc]).reuse
  simp only [PoolUse.run, List.foldl_cons, List.foldl_nil, PoolUse.step, ha] at hreuse
  have hoffer := (hreuse min List.mem_cons_self).not_mem
  have hwrap : wrap (min + size) = min + size - 18446744073709551616 := by
    unfold maxInt at hmax hsmax htop
    rw [wrap, Int.bmod_def]
    split <;> omega
  refine hoffer ?_
  unfold Pool.release
  rw [if_pos]
  · exact List.mem_cons_self
  · right
    show wrap ((New min size).min + (New min size).size) ≤ min
    rw [new_size hsize]
    show wrap (min + size) ≤ min
    unfold maxInt at hsmax
    omega

/-- The pool holds the uids that `S` says, and the search starts at `next`. -/
structure PoolUse.Holds (min size next : Int) (S : Int → Prop) (s : PoolUse) : Prop where
  min_eq : s.pool.min = min
  size_eq : s.pool.size = size
  next_eq : s.pool.next = next
  inUse : ∀ u, u ∈ s.pool.inUse ↔ S u
  held : ∀ u, u ∈ s.held ↔ S u

section

variable {next : Int} {S : Int → Prop}

theorem PoolUse.Holds.congr {S' : Int → Prop} (h : s.Holds min size next S)
    (hS : ∀ u, S u ↔ S' u) : s.Holds min size next S' :=
  { h with
    inUse := fun u => (h.inUse u).trans (hS u)
    held := fun u => (h.held u).trans (hS u) }

/-- The range fits, but it is so long that `next + i` can overflow. -/
structure Oversize (min size : Int) : Prop where
  pos : 1 ≤ min
  top : min + size ≤ maxInt
  large : 4611686018427387904 < size

theorem PoolUse.Holds.slot (h : s.Holds min size next S) (hbig : Oversize min size)
    (hnext : 0 ≤ next) {k : ℕ} (hk : next + k < size) :
    s.pool.slot k = min + (next + k) := by
  have hmin := hbig.pos
  have htop := hbig.top
  have hr : s.pool.Ranged := ⟨by rw [h.min_eq]; omega, by rw [h.min_eq, h.size_eq]; omega,
    by rw [h.next_eq]; exact hnext, by rw [h.next_eq, h.size_eq]; omega⟩
  rw [Pool.slot_eq hr (by rw [h.next_eq]; omega), h.min_eq, h.next_eq, h.size_eq,
    Int.emod_eq_of_lt (by omega) hk]

/-- The next call gets the first free uid from `next` on. -/
theorem PoolUse.Holds.alloc (h : s.Holds min size next S) (hbig : Oversize min size)
    (hnext : 0 ≤ next) {k : ℕ} (hk : next + k < size)
    (hpass : ∀ i : ℕ, i < k → S (min + (next + i))) (hfree : ¬ S (min + (next + k))) :
    (s.step .alloc).Holds min size ((next + k + 1) % size)
      fun u => u = min + (next + k) ∨ S u := by
  have hmin := hbig.pos
  have htop := hbig.top
  have hslot := h.slot hbig hnext hk
  have hff : s.pool.FirstFree (min + (next + k)) := by
    refine ⟨k, by rw [h.size_eq]; omega, hslot, by rw [h.inUse]; exact hfree, ?_⟩
    intro i hi
    rw [h.slot hbig hnext (by omega), h.inUse]
    exact hpass i hi
  obtain ⟨pool, ha⟩ := hff.alloc
  obtain ⟨k', hk', hslot', hfree', hbefore, hpool⟩ := Pool.alloc_spec ha
  have hkk : k' = k := by
    rcases Nat.lt_trichotomy k' k with hlt | heq | hgt
    · have hin := hpass k' hlt
      rw [← h.inUse, ← h.slot hbig hnext (by omega), hslot'] at hin
      exact absurd hin hfree'
    · exact heq
    · have hin := hbefore k hgt
      rw [hslot, h.inUse] at hin
      exact absurd hin hfree
  have hmem : ∀ (l : List Int) (u : Int), (u ∈ l ↔ S u) →
      (u ∈ (min + (next + k)) :: l ↔ u = min + (next + k) ∨ S u) := by
    intro l u hl
    rw [List.mem_cons, hl]
  unfold PoolUse.step
  simp only [ha]
  rw [hpool]
  refine ⟨h.min_eq, h.size_eq, ?_, fun u => hmem _ u (h.inUse u),
    fun u => hmem _ u (h.held u)⟩
  show rem (wrap (s.pool.next + k' + 1)) s.pool.size = _
  rw [h.next_eq, h.size_eq, hkk, wrap_of_inRange ⟨by unfold maxInt; omega, by omega⟩,
    rem_of_nonneg (by omega)]

theorem PoolUse.Holds.release (h : s.Holds min size next S) (hbig : Oversize min size)
    {uid : Int} (hlo : min ≤ uid) (hhi : uid < min + size) :
    (s.step (.release uid)).Holds min size next fun u => S u ∧ u ≠ uid := by
  obtain ⟨hmin, hsize, hnext⟩ := s.pool.release_min_size uid
  have hmin1 := hbig.pos
  have htop : wrap (s.pool.min + s.pool.size) = min + size := by
    rw [h.min_eq, h.size_eq]
    exact wrap_of_inRange ⟨by have := hbig.large; unfold maxInt; omega, hbig.top⟩
  have hrel : (s.pool.release uid).inUse = s.pool.inUse.filter fun u => u ≠ uid := by
    unfold Pool.release
    rw [htop, h.min_eq, if_neg (by omega)]
  have hmem : ∀ (l : List Int) (u : Int), (u ∈ l ↔ S u) →
      (u ∈ l.filter (fun u => u ≠ uid) ↔ S u ∧ u ≠ uid) := by
    intro l u hl
    rw [List.mem_filter, hl, decide_eq_true_iff]
  refine ⟨hmin.trans h.min_eq, hsize.trans h.size_eq, hnext.trans h.next_eq,
    fun u => ?_, fun u => hmem _ u (h.held u)⟩
  show u ∈ (s.pool.release uid).inUse ↔ _
  rw [hrel]
  exact hmem _ u (h.inUse u)

/-- So many calls take so many uids, from the bottom of the range. -/
theorem holds_replicate (hbig : Oversize min size) : ∀ m : ℕ, (m : Int) ≤ size →
    (PoolUse.run ⟨New min size, []⟩ (List.replicate m .alloc)).Holds min size (m % size)
      fun u => min ≤ u ∧ u < min + m := by
  have hlarge := hbig.large
  intro m
  induction m with
  | zero =>
      intro _
      refine ⟨rfl, new_size (by omega), (Int.zero_emod size).symm, ?_, ?_⟩
      · intro u
        exact ⟨fun hu => (by cases hu), fun hu => (by omega)⟩
      · intro u
        exact ⟨fun hu => (by cases hu), fun hu => (by omega)⟩
  | succ m ih =>
      intro hm
      have hold := ih (by omega)
      rw [Int.emod_eq_of_lt (by omega) (by omega)] at hold
      have hstep := hold.alloc hbig (Int.natCast_nonneg m) (k := 0) (by omega)
        (fun i hi => by omega) (by omega)
      rw [List.replicate_succ', PoolUse.run, List.foldl_append]
      exact hstep.congr fun u => by omega

/-- The calls after which the pool is full and its search starts at the last uid. -/
def filling (min size : Int) : List PoolCall :=
  List.replicate size.toNat .alloc ++ [.release (min + (size - 2)), .alloc]

theorem holds_filling (hbig : Oversize min size) :
    (PoolUse.run ⟨New min size, []⟩ (filling min size)).Holds min size (size - 1)
      fun u => min ≤ u ∧ u < min + size := by
  have hlarge := hbig.large
  have hpos := hbig.pos
  have hcast : ((size.toNat : ℕ) : Int) = size := Int.toNat_of_nonneg (by omega)
  have hfull := holds_replicate hbig size.toNat (by omega)
  rw [hcast, Int.emod_self] at hfull
  have hin : min ≤ min + (size - 2) ∧ min + (size - 2) < min + size := by omega
  have hrel := hfull.release hbig hin.1 hin.2
  -- from the bottom, the search comes to the one uid that is free
  have hlast := hrel.alloc hbig (Int.le_refl 0) (k := (size - 2).toNat) (by omega)
    (fun i hi => ⟨by omega, by omega⟩) (by omega)
  rw [show (0 + ((size - 2).toNat : ℕ) + 1 : Int) = size - 1 by omega,
    Int.emod_eq_of_lt (by omega) (by omega)] at hlast
  rw [filling, PoolUse.run, List.foldl_append]
  exact hlast.congr fun u => by omega

/-- With an oversize range, a full pool hands out a uid below the range. -/
theorem not_correct_of_large (hbig : Oversize min size) : ¬ PoolCorrect min size := by
  intro hcorrect
  have hlarge := hbig.large
  have hpos := hbig.pos
  have htop := hbig.top
  have hfill := holds_filling hbig
  have hfresh := (hcorrect (filling min size)).fresh
  generalize PoolUse.run ⟨New min size, []⟩ (filling min size) = s at hfill hfresh
  have hslot : ∀ i : ℕ, s.pool.slot i =
      wrap (min + rem (wrap (size - 1 + i)) size) := by
    intro i
    rw [Pool.slot, hfill.min_eq, hfill.next_eq, hfill.size_eq]
  have hbounds : ∀ x : Int, -size < rem x size ∧ rem x size < size := by
    intro x
    have hlt := Int.tmod_lt_of_pos x (show 0 < size by omega)
    have hgt := Int.lt_tmod_of_pos x (show 0 < size by omega)
    exact ⟨hgt, hlt⟩
  cases ha : s.pool.alloc with
  | ok r =>
      have ha' : s.pool.alloc = .ok (r.1, r.2) := ha
      obtain ⟨hge, hnew⟩ := hfresh r.1 r.2 ha'
      obtain ⟨k, -, hk, -⟩ := Pool.alloc_spec ha'
      obtain ⟨hlo, hhi⟩ := hbounds (wrap (size - 1 + k))
      rw [hslot, wrap_of_inRange ⟨by unfold maxInt at htop ⊢; omega, by omega⟩] at hk
      exact hnew ((hfill.held _).mpr ⟨hge, by omega⟩)
  | error msg =>
      -- the first offset at which the sum overflows
      have hin := Pool.held_of_error ha (9223372036854775808 - (size - 1)).toNat (by
        rw [hfill.size_eq]
        omega)
      have hsum : size - 1 + ((9223372036854775808 - (size - 1)).toNat : ℕ) =
          9223372036854775808 := by
        unfold maxInt at htop
        omega
      have hrem : rem (wrap 9223372036854775808) size =
          -(9223372036854775808 - size) := by
        have hwrap : wrap 9223372036854775808 = -9223372036854775808 := by decide
        unfold maxInt at htop
        rw [hwrap, rem, Int.neg_tmod, Int.tmod_eq_emod_of_nonneg (by decide)]
        rw [← Int.sub_emod_right, Int.emod_eq_of_lt (by omega) (by omega)]
      rw [hslot, hsum, hrem,
        wrap_of_inRange ⟨by unfold maxInt at htop ⊢; omega, by omega⟩,
        hfill.inUse] at hin
      unfold maxInt at htop
      omega

end

/-! ## The budget of the environment -/

variable {getenv : String → GoString} {numCPU : Int}

theorem one_le_ConcurrentJobs (hcpu : 1 ≤ numCPU) : 1 ≤ ConcurrentJobs getenv numCPU := by
  unfold ConcurrentJobs
  split
  · split <;> omega
  · exact hcpu

theorem minUid_bounds (getenv : String → GoString) :
    1 ≤ minUid getenv ∧ minUid getenv ≤ maxInt := by
  unfold minUid DefaultMinUid
  split
  · next v hv =>
      have hle := Runner.atoi_le_maxInt hv
      split
      · exact ⟨by omega, hle⟩
      · exact ⟨by decide, by decide⟩
  · exact ⟨by decide, by decide⟩

/-- The budget is the product, where an `int` can hold it. -/
theorem uidBudget_eq (hcpu : 1 ≤ numCPU) (hmax : numCPU ≤ maxInt) :
    UidBudget getenv numCPU =
      if ConcurrentJobs getenv numCPU * (numCPU + 1) ≤ maxInt then
        ConcurrentJobs getenv numCPU * (numCPU + 1)
      else maxInt := by
  have hjobs : 1 ≤ ConcurrentJobs getenv numCPU := one_le_ConcurrentJobs hcpu
  unfold UidBudget
  generalize ConcurrentJobs getenv numCPU = jobs at *
  have hj : (if jobs < 1 then 1 else jobs) = jobs := if_neg (by omega)
  have hc : (if numCPU < 1 then 1 else numCPU) = numCPU := if_neg (by omega)
  have hper : numCPU + 1 ≤ jobs * (numCPU + 1) := by
    calc numCPU + 1 = 1 * (numCPU + 1) := (Int.one_mul _).symm
      _ ≤ jobs * (numCPU + 1) := Int.mul_le_mul_of_nonneg_right hjobs (by omega)
  simp only [hj, hc]
  by_cases htop : numCPU = maxInt
  · -- the factor itself overflows
    have hdiv : Int.tdiv maxInt (wrap (numCPU + 1)) = 0 := by
      rw [htop]
      decide
    rw [hdiv, if_pos (by omega), if_neg (by omega)]
  · rw [wrap_of_inRange (x := numCPU + 1) ⟨by unfold maxInt; omega, by omega⟩]
    have hdiv : jobs > Int.tdiv maxInt (numCPU + 1) ↔ ¬ jobs * (numCPU + 1) ≤ maxInt := by
      rw [Int.tdiv_eq_ediv_of_nonneg (by decide), ← Int.le_ediv_iff_mul_le (by omega)]
      omega
    by_cases hfit : jobs * (numCPU + 1) ≤ maxInt
    · rw [if_neg (fun h => hdiv.mp h hfit), if_pos hfit]
      exact wrap_of_inRange ⟨by unfold maxInt; omega, hfit⟩
    · rw [if_pos (hdiv.mpr hfit), if_neg hfit]

/-- Exactly which environments give a pool that is a correct allocator. -/
theorem pool_correct_iff (hcpu : 1 ≤ numCPU) (hmax : numCPU ≤ maxInt) :
    PoolCorrect (minUid getenv) (UidBudget getenv numCPU) ↔
      ConcurrentJobs getenv numCPU * (numCPU + 1) ≤ 4611686018427387904 ∧
        minUid getenv + ConcurrentJobs getenv numCPU * (numCPU + 1) ≤ maxInt := by
  obtain ⟨hmin, hminmax⟩ := minUid_bounds getenv
  have hjobs : 1 ≤ ConcurrentJobs getenv numCPU := one_le_ConcurrentJobs hcpu
  rw [uidBudget_eq hcpu hmax]
  have hone : 1 ≤ ConcurrentJobs getenv numCPU * (numCPU + 1) := by
    calc 1 ≤ 1 * (numCPU + 1) := by omega
      _ ≤ ConcurrentJobs getenv numCPU * (numCPU + 1) :=
        Int.mul_le_mul_of_nonneg_right hjobs (by omega)
  generalize ConcurrentJobs getenv numCPU * (numCPU + 1) = n at *
  generalize minUid getenv = min at *
  by_cases hfit : n ≤ maxInt
  · rw [if_pos hfit]
    constructor
    · intro hcorrect
      by_cases htop : min + n ≤ maxInt
      · refine ⟨?_, htop⟩
        by_cases hle : n ≤ 4611686018427387904
        · exact hle
        · exact absurd hcorrect (not_correct_of_large ⟨hmin, htop, by omega⟩)
      · exact absurd hcorrect
          (not_correct_of_top hmin hminmax hone hfit (by omega))
    · intro h
      exact poolCorrect_of_le (by omega) hone h.1 h.2
  · rw [if_neg hfit]
    constructor
    · intro hcorrect
      exact absurd hcorrect
        (not_correct_of_top hmin hminmax (by decide) (Int.le_refl _) (by omega))
    · intro h
      omega

theorem pool_correct_iff_four :
    PoolCorrect (minUid fun _ => []) (UidBudget (fun _ => []) 4) :=
  (pool_correct_iff (by decide) (by decide)).mpr ⟨by decide, by decide⟩

/-- The largest number of jobs, one CPU. -/
def manyJobs : String → GoString
  | "GOBOXD_MAX_JOBS" => str "9223372036854775807"
  | _ => []

theorem saturated_pool_keeps :
    ¬ ∀ (getenv : String → GoString) (numCPU : Int), 1 ≤ numCPU → numCPU ≤ maxInt →
      PoolCorrect (minUid getenv) (UidBudget getenv numCPU) := by
  intro h
  have hbudget : UidBudget manyJobs 1 = maxInt := by decide +kernel
  have hcorrect := h manyJobs 1 (by decide) (by decide)
  rw [hbudget] at hcorrect
  exact not_correct_of_top (by decide) (by decide) (by decide) (Int.le_refl _)
    (by decide) hcorrect

end Goboxd.Uidpool
