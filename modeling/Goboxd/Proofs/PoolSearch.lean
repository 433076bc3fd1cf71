import Goboxd.Lib.RoundRobin
import Goboxd.Uidpool
import Mathlib.Data.List.Perm.Subperm

/-!
# The search for a free uid

`Alloc` looks at the uids of its range in turn, from the one after the last that
was handed out. As long as `next + i` does not overflow, these are all uids of
the range, each once. So a search that comes to a free uid before the sum
overflows hands out a uid of the range, and it hands one out whenever not all are
in use.
-/

namespace Goboxd.Uidpool

open Go

/-- The search comes to a free uid before its sum overflows. -/
def Pool.Clear (p : Pool) : Prop :=
  ∀ i : ℕ, i < p.size.toNat → maxInt ≤ p.next + i →
    ∃ j : ℕ, j < i ∧ p.slot j ∉ p.inUse

/-- The range is representable and the search starts in it. -/
structure Pool.Ranged (p : Pool) : Prop where
  min : 0 ≤ p.min
  top : p.min + p.size ≤ maxInt
  next : 0 ≤ p.next
  next_lt : p.next < p.size

theorem Pool.alloc_spec {p p' : Pool} {uid : Int} (h : p.alloc = .ok (uid, p')) :
    ∃ k : ℕ, k < p.size.toNat ∧ p.slot k = uid ∧ uid ∉ p.inUse ∧
      (∀ i : ℕ, i < k → p.slot i ∈ p.inUse) ∧
      p' = { p with
        inUse := uid :: p.inUse, next := rem (wrap (p.next + k + 1)) p.size } := by
  unfold Pool.alloc at h
  split at h
  · next u i hs =>
      cases h
      obtain ⟨k, -, hk, rfl, hslot, hfree, hbefore⟩ := Pool.search_spec (j := 0) hs
      exact ⟨k, by omega, hslot, hfree, fun m => hbefore m (Nat.zero_le m), rfl⟩
  · cases h

theorem rem_of_nonneg {a n : Int} (ha : 0 ≤ a) : rem a n = a % n :=
  Int.tmod_eq_emod_of_nonneg ha

theorem Pool.slot_eq {p : Pool} (hr : p.Ranged) {i : ℕ} (hi : p.next + i ≤ maxInt) :
    p.slot i = p.min + (p.next + i) % p.size := by
  obtain ⟨hmin, htop, hnext, hlt⟩ := hr
  have hsum : wrap (p.next + i) = p.next + i :=
    wrap_of_inRange ⟨by unfold maxInt; omega, hi⟩
  have hlo := Int.emod_nonneg (p.next + i) (show p.size ≠ 0 by omega)
  have hhi := Int.emod_lt_of_pos (p.next + i) (show 0 < p.size by omega)
  rw [Pool.slot, hsum, rem_of_nonneg (by omega)]
  exact wrap_of_inRange ⟨by unfold maxInt; omega, by omega⟩

/-- A clear search hands out a uid of the range, and leaves the next one to
start in it. -/
theorem Pool.alloc_ranged {p p' : Pool} {uid : Int} (hr : p.Ranged) (hc : p.Clear)
    (h : p.alloc = .ok (uid, p')) :
    (p.min ≤ uid ∧ uid < p.min + p.size) ∧ p'.Ranged := by
  obtain ⟨k, hk, hslot, -, hbefore, rfl⟩ := Pool.alloc_spec h
  have hsmall : p.next + k < maxInt := by
    by_cases hover : maxInt ≤ p.next + k
    · obtain ⟨j, hj, hfree⟩ := hc k hk hover
      exact absurd (hbefore j hj) hfree
    · omega
  have heq := Pool.slot_eq hr (Int.le_of_lt hsmall)
  obtain ⟨hmin, htop, hnext, hlt⟩ := hr
  have hlo := Int.emod_nonneg (p.next + k) (show p.size ≠ 0 by omega)
  have hhi := Int.emod_lt_of_pos (p.next + k) (show 0 < p.size by omega)
  have hsucc : wrap (p.next + k + 1) = p.next + k + 1 :=
    wrap_of_inRange ⟨by unfold maxInt; omega, by omega⟩
  have hlo' := Int.emod_nonneg (p.next + k + 1) (show p.size ≠ 0 by omega)
  have hhi' := Int.emod_lt_of_pos (p.next + k + 1) (show 0 < p.size by omega)
  refine ⟨by omega, hmin, htop, ?_, ?_⟩
  · show 0 ≤ rem (wrap (p.next + k + 1)) p.size
    rw [hsucc, rem_of_nonneg (by omega)]
    exact hlo'
  · show rem (wrap (p.next + k + 1)) p.size < p.size
    rw [hsucc, rem_of_nonneg (by omega)]
    exact hhi'

theorem emod_wrap_once {a i n : Int} (ha : 0 ≤ a) (han : a < n) (hi : 0 ≤ i)
    (hin : i < n) : (a + i) % n = if a + i < n then a + i else a + i - n := by
  split
  · next h => exact Int.emod_eq_of_lt (by omega) h
  · next h =>
      have hsub : (a + i - n) % n = a + i - n := Int.emod_eq_of_lt (by omega) (by omega)
      rw [← hsub, Int.sub_emod_right]

/-- The uids in the order of the search. -/
def Pool.slots (p : Pool) : List Int := (List.range p.size.toNat).map fun i : ℕ => p.slot i

theorem Pool.length_slots (p : Pool) : p.slots.length = p.size.toNat := by
  rw [Pool.slots, List.length_map, List.length_range]

theorem Pool.getElem_slots (p : Pool) (i : ℕ) (hi : i < p.slots.length) :
    p.slots[i] = p.slot i := by
  simp only [Pool.slots, List.getElem_map, List.getElem_range]

/-- They are all different where no sum overflows. -/
theorem Pool.slots_nodup {p : Pool} (hr : p.Ranged)
    (hsmall : ∀ i : ℕ, i < p.size.toNat → p.next + i ≤ maxInt) : p.slots.Nodup := by
  refine List.Nodup.map_on ?_ List.nodup_range
  intro i hi j hj heq
  rw [List.mem_range] at hi hj
  rw [Pool.slot_eq hr (hsmall i hi), Pool.slot_eq hr (hsmall j hj)] at heq
  obtain ⟨-, -, hnext, hlt⟩ := hr
  rw [emod_wrap_once hnext hlt (by omega) (by omega),
    emod_wrap_once hnext hlt (by omega) (by omega)] at heq
  split at heq <;> split at heq <;> omega

/-- `Alloc` fails only when every uid the search looks at is in use. -/
theorem Pool.held_of_error {p : Pool} {msg : GoString} (h : p.alloc = .error msg) :
    ∀ i : ℕ, i < p.size.toNat → p.slot i ∈ p.inUse := by
  unfold Pool.alloc at h
  split at h
  · cases h
  · next hs =>
      intro i hi
      exact Pool.search_none (j := 0) hs i (Nat.zero_le i) (by omega)

theorem Pool.slots_held_of_error {p : Pool} {msg : GoString} (h : p.alloc = .error msg) :
    p.slots ⊆ p.inUse := by
  intro u hu
  obtain ⟨i, hi, rfl⟩ := List.mem_map.mp hu
  exact Pool.held_of_error h i (List.mem_range.mp hi)

/-- A clear search finds a uid when fewer than all are in use. -/
theorem Pool.alloc_of_room {p : Pool} (hr : p.Ranged) (hc : p.Clear)
    (hroom : (p.inUse.length : Int) < p.size) : ∃ uid p', p.alloc = .ok (uid, p') := by
  cases ha : p.alloc with
  | ok r => exact ⟨r.1, r.2, rfl⟩
  | error m =>
      have hsmall : ∀ i : ℕ, i < p.size.toNat → p.next + i ≤ maxInt := by
        intro i hi
        by_cases hover : maxInt ≤ p.next + i
        · obtain ⟨j, hj, hfree⟩ := hc i hi hover
          exact absurd (Pool.held_of_error ha j (by omega)) hfree
        · omega
      -- the slots are all different, and all in use
      have hle := (List.subperm_of_subset (Pool.slots_nodup hr hsmall)
        (Pool.slots_held_of_error ha)).length_le
      rw [Pool.length_slots] at hle
      obtain ⟨-, -, hnext, hlt⟩ := hr
      omega

/-! ## What stays -/

theorem Pool.alloc_min_size {p p' : Pool} {uid : Int} (h : p.alloc = .ok (uid, p')) :
    p'.min = p.min ∧ p'.size = p.size ∧ p'.inUse = uid :: p.inUse := by
  obtain ⟨k, -, -, -, -, rfl⟩ := Pool.alloc_spec h
  exact ⟨rfl, rfl, rfl⟩

theorem Pool.release_min_size (p : Pool) (uid : Int) :
    (p.release uid).min = p.min ∧ (p.release uid).size = p.size ∧
      (p.release uid).next = p.next := by
  unfold Pool.release
  split <;> exact ⟨rfl, rfl, rfl⟩

theorem Pool.Ranged.release {p : Pool} (hr : p.Ranged) (uid : Int) :
    (p.release uid).Ranged := by
  obtain ⟨hmin, hsize, hnext⟩ := p.release_min_size uid
  exact ⟨by rw [hmin]; exact hr.min, by rw [hmin, hsize]; exact hr.top,
    by rw [hnext]; exact hr.next, by rw [hnext, hsize]; exact hr.next_lt⟩

/-- `Release` takes a uid of the range off the record, and nothing else. -/
theorem Pool.release_inUse {p : Pool} (hr : p.Ranged) {uid : Int} (hlo : p.min ≤ uid)
    (hhi : uid < p.min + p.size) :
    (p.release uid).inUse = p.inUse.filter fun u => u ≠ uid := by
  have htop : wrap (p.min + p.size) = p.min + p.size :=
    wrap_of_inRange ⟨by
      have hmin := hr.min
      unfold maxInt
      omega, hr.top⟩
  unfold Pool.release
  rw [htop, if_neg (by omega)]

/-! ## Pools of up to `2^62` uids

Nothing overflows in them, and the search goes round and round. -/

/-- No sum of the pool's can overflow. -/
def Pool.Plain (p : Pool) : Prop :=
  0 ≤ p.min ∧ p.min + p.size ≤ maxInt ∧ p.size ≤ 4611686018427387904

instance (p : Pool) : Decidable p.Plain := inferInstanceAs (Decidable (_ ∧ _ ∧ _))

theorem Pool.clear_of_le {p : Pool} (hr : p.Ranged)
    (hle : p.size ≤ 4611686018427387904) : p.Clear := by
  intro i hi hover
  have hlt := hr.next_lt
  unfold maxInt at hover
  omega

theorem Pool.sum_le {p : Pool} (hr : p.Ranged) (hle : p.size ≤ 4611686018427387904)
    (i : ℕ) (hi : i < p.size.toNat) : p.next + i ≤ maxInt := by
  have hlt := hr.next_lt
  unfold maxInt
  omega

/-- What stands behind the uid that was handed out comes first, and that uid last. -/
theorem Pool.slots_rotate {p p' : Pool} {k : ℕ} (hr : p.Ranged)
    (hle : p.size ≤ 4611686018427387904) (hk : k < p.size.toNat) (hr' : p'.Ranged)
    (hmin : p'.min = p.min) (hsize : p'.size = p.size)
    (hnext : p'.next = (p.next + k + 1) % p.size) : p'.slots = p.slots.rotate (k + 1) := by
  refine List.ext_getElem ?_ fun i hi _ => ?_
  · rw [List.length_rotate, Pool.length_slots, Pool.length_slots, hsize]
  · rw [Pool.length_slots, hsize] at hi
    have hpos : 0 < p.size := Int.lt_of_le_of_lt hr.next hr.next_lt
    have hmod : (i + (k + 1)) % p.size.toNat < p.size.toNat := Nat.mod_lt _ (by omega)
    have hcast : (((i + (k + 1)) % p.size.toNat : ℕ) : ℤ) = (i + (k + 1)) % p.size := by
      rw [Int.natCast_mod, Int.toNat_of_nonneg (by omega)]
      push_cast
      rfl
    simp only [List.getElem_rotate, Pool.getElem_slots, Pool.length_slots]
    rw [Pool.slot_eq hr' (Pool.sum_le hr' (hsize ▸ hle) i (by rw [hsize]; exact hi)),
      Pool.slot_eq hr (Pool.sum_le hr hle _ hmod), hmin, hsize, hnext, hcast,
      Int.emod_add_emod, Int.add_emod_emod]
    congr 2
    omega

/-- `Alloc` is a turn of the round robin. -/
theorem Pool.alloc_turn {p p' : Pool} {uid : Int} (hr : p.Ranged)
    (hle : p.size ≤ 4611686018427387904) (h : p.alloc = .ok (uid, p')) :
    RoundRobin.Turn p.slots p.inUse uid p'.slots := by
  obtain ⟨-, hr'⟩ := Pool.alloc_ranged hr (Pool.clear_of_le hr hle) h
  obtain ⟨k, hk, hslot, hfree, hbefore, hp'⟩ := Pool.alloc_spec h
  have hlen := p.length_slots
  have hnext : p'.next = (p.next + k + 1) % p.size := by
    have hsum := Pool.sum_le hr hle k hk
    have hlo := hr.next
    have hlt := hr.next_lt
    rw [hp']
    show rem (wrap (p.next + k + 1)) p.size = _
    rw [wrap_of_inRange ⟨by unfold maxInt; omega, by unfold maxInt; omega⟩,
      rem_of_nonneg (by omega)]
  have hrotate := Pool.slots_rotate hr hle hk hr' (by rw [hp']) (by rw [hp']) hnext
  have hlt : k < p.slots.length := by omega
  have hget : p.slots[k] = uid := by rw [Pool.getElem_slots, hslot]
  refine ⟨p.slots.take k, p.slots.drop (k + 1), ?_, fun u hu => ?_, hfree, ?_⟩
  · rw [← hget, List.getElem_cons_drop, List.take_append_drop]
  · obtain ⟨i, hi, rfl⟩ := List.mem_iff_getElem.mp hu
    rw [List.length_take] at hi
    rw [List.getElem_take, Pool.getElem_slots]
    exact hbefore i (by omega)
  · rw [hrotate, List.rotate_eq_drop_append_take (by omega), List.take_succ_eq_append_getElem
      (by omega), hget, List.append_assoc]

/-- The search looks at all uids of the range, and at no others. -/
theorem Pool.mem_slots {p : Pool} (hr : p.Ranged) (hle : p.size ≤ 4611686018427387904)
    {uid : Int} : uid ∈ p.slots ↔ p.min ≤ uid ∧ uid < p.min + p.size := by
  have hpos : 0 < p.size := Int.lt_of_le_of_lt hr.next hr.next_lt
  constructor
  · intro h
    obtain ⟨i, hi, rfl⟩ := List.mem_map.mp h
    have hlo := Int.emod_nonneg (p.next + i) (show p.size ≠ 0 by omega)
    have hhi := Int.emod_lt_of_pos (p.next + i) hpos
    rw [Pool.slot_eq hr (Pool.sum_le hr hle i (List.mem_range.mp hi))]
    omega
  · intro h
    obtain ⟨hlo, hhi⟩ := h
    -- how far the search is from the uid
    have hdlo := Int.emod_nonneg (uid - p.min - p.next) (show p.size ≠ 0 by omega)
    have hdhi := Int.emod_lt_of_pos (uid - p.min - p.next) hpos
    have hcast : (((uid - p.min - p.next) % p.size).toNat : Int) =
        (uid - p.min - p.next) % p.size := Int.toNat_of_nonneg hdlo
    refine List.mem_map.mpr ⟨((uid - p.min - p.next) % p.size).toNat,
      List.mem_range.mpr (by omega), ?_⟩
    rw [Pool.slot_eq hr (Pool.sum_le hr hle _ (by omega)), hcast, Int.add_emod_emod,
      show p.next + (uid - p.min - p.next) = uid - p.min by omega,
      Int.emod_eq_of_lt (by omega) (by omega)]
    omega

/-! ## Longer pools

There `next + i` can overflow. What the search then looks at lies below the range, but it
still does not come back to where it was: of all offsets only two give the same uid, the
bottom of the range. -/

/-- The remainder in `Alloc`, written out. -/
theorem rem_wrap_eq {y n : Int} (hn : n ≤ maxInt) (hlo : -n < y) (hhi : y < 2 * n) :
    rem (wrap y) n =
      if y < n then y
      else if y ≤ maxInt then y - n
      else if y ≤ 18446744073709551616 - n then y - 18446744073709551616 + n
      else y - 18446744073709551616 := by
  have hneg : ∀ z : Int, 0 ≤ z → rem (-z) n = -(z % n) := by
    intro z hz
    rw [rem, Int.neg_tmod, Int.tmod_eq_emod_of_nonneg hz]
  unfold maxInt at *
  split
  · next hsmall =>
      rw [wrap_of_inRange ⟨by unfold maxInt; omega, by unfold maxInt; omega⟩]
      rcases Int.lt_or_le y 0 with h | h
      · rw [show y = - -y from (Int.neg_neg y).symm, hneg (-y) (by omega),
          Int.emod_eq_of_lt (by omega) (by omega)]
      · rw [rem_of_nonneg h, Int.emod_eq_of_lt h hsmall]
  · split
    · rw [wrap_of_inRange ⟨by unfold maxInt; omega, by unfold maxInt; omega⟩,
        rem_of_nonneg (by omega), ← Int.sub_emod_right, Int.emod_eq_of_lt (by omega) (by omega)]
    · -- the sum overflows
      have hwrap : wrap y = -(18446744073709551616 - y) := by
        rw [wrap, Int.bmod_def]
        split <;> omega
      rw [hwrap, hneg _ (by omega)]
      split
      · rw [← Int.sub_emod_right, Int.emod_eq_of_lt (by omega) (by omega)]
        omega
      · rw [Int.emod_eq_of_lt (by omega) (by omega)]
        omega

/-- Where the range fits, `Alloc` fails only when all uids it looks at are in use, and these
are as many as the pool has, or one less. -/
theorem Pool.size_le_of_error {p : Pool} {msg : GoString} (hmin : 1 ≤ p.min)
    (htop : p.min + p.size ≤ maxInt) (hlo : -p.size < p.next) (hhi : p.next < p.size)
    (h : p.alloc = .error msg) : p.size - 1 ≤ p.inUse.length := by
  have hslot : ∀ i : ℕ, i < p.size.toNat →
      p.slot i = p.min + rem (wrap (p.next + i)) p.size := by
    intro i hi
    have hrlo := Int.lt_tmod_of_pos (wrap (p.next + i)) (show 0 < p.size by omega)
    have hrhi := Int.tmod_lt_of_pos (wrap (p.next + i)) (show 0 < p.size by omega)
    rw [Pool.slot]
    exact wrap_of_inRange ⟨by unfold maxInt rem at *; omega, by unfold rem; omega⟩
  -- the offset of the second uid at the bottom is left out
  have hnodup : (((List.range p.size.toNat).erase
      (18446744073709551616 - p.size - p.next).toNat).map fun i : ℕ => p.slot i).Nodup := by
    refine List.Nodup.map_on ?_ (List.nodup_range.erase _)
    intro i hi j hj heq
    rw [List.nodup_range.mem_erase_iff, List.mem_range] at hi hj
    rw [hslot i hi.2, hslot j hj.2, rem_wrap_eq (by omega) (by omega) (by omega),
      rem_wrap_eq (by omega) (by omega) (by omega)] at heq
    unfold maxInt at *
    omega
  have hsub : (((List.range p.size.toNat).erase
      (18446744073709551616 - p.size - p.next).toNat).map fun i : ℕ => p.slot i) ⊆
        p.inUse := by
    intro u hu
    obtain ⟨i, hi, rfl⟩ := List.mem_map.mp hu
    exact Pool.held_of_error h i (List.mem_range.mp (List.mem_of_mem_erase hi))
  have hle := (List.subperm_of_subset hnodup hsub).length_le
  have hone := List.le_length_erase (l := List.range p.size.toNat)
    (a := (18446744073709551616 - p.size - p.next).toNat)
  rw [List.length_map] at hle
  rw [List.length_range] at hone
  omega

end Goboxd.Uidpool
