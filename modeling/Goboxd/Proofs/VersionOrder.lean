import Mathlib.Data.List.Lex
import Goboxd.Buildinfo

/-!
# How far `AtLeast` is the order of versions

A version is written as three decimal numerals, of any length, and a suffix that
is dropped. The loop compares what the numerals are read as: where two elements
first differ decides, which is the lexicographic order, and of three integers
that is reflexive, transitive and total whatever was written.

What a numeral is read as is not always its value. `Atoi` refuses one that is
too large for an `int`, and `parts` takes it for zero, as if it were no number
at all. A floor of `9223372036854775808.0.0` then counts as `0.0.0`, and every
version is above it.

So the answer is the numeric one when the first components that differ are read
as they stand. Otherwise one of them counts as zero: if the other does not, the
answer is wrong, and if both do, the components behind them decide, which may or
may not give the answer that these two should have given.
-/

namespace Goboxd.Buildinfo

open Go

/-! ## The versions that are compared -/

/-- The lexicographic order: the first components that differ decide. -/
def Below {α : Type} [LT α] (v w : List α) : Prop := List.Lex (· < ·) v w

/-- Nothing, or a minus or a plus and whatever is behind it. -/
def Suffix (t : GoString) : Prop := t = [] ∨ ∃ c rest, t = c :: rest ∧ (c = 45 ∨ c = 43)

/-- The text is these numbers, each a decimal numeral, separated by dots, with a suffix
or without one. -/
def Writes (v : GoString) (ns : List ℕ) : Prop :=
  ∃ numerals suffix, List.Forall₂ Numeral numerals ns ∧ Suffix suffix ∧
    v = join 46 numerals ++ suffix

/-- What a number counts as: itself, or zero when no `int` can hold it. -/
def read (n : ℕ) : ℤ := if (n : ℤ) ≤ maxInt then n else 0

/-- The first components that differ both count as what they are, or they count as the
same number and the components behind them, for what those count as, stand in the order
of these two. -/
def Settled : List ℕ → List ℕ → Prop
  | n :: v, m :: w =>
      if n = m then Settled v w
      else (read n = n ∧ read m = m) ∨
        (read n = read m ∧ (Below (v.map read) (w.map read) ↔ n < m))
  | _, _ => True

/-! ## Reading a version -/

theorem segment_numeral {s : GoString} {n : ℕ} (h : Numeral s n) : segment s = read n := by
  rw [segment, trimSpace_numeral h, atoi_numeral h, read]
  by_cases hn : (n : ℤ) ≤ maxInt
  · rw [if_pos hn, if_pos hn]
    exact if_pos (Int.natCast_nonneg n)
  · rw [if_neg hn, if_neg hn]

theorem dropMetadata_suffix {v t : GoString} (hv : ∀ c ∈ v, c ∉ str "-+") (ht : Suffix t) :
    dropMetadata (v ++ t) = v := by
  rw [dropMetadata, indexAny_append hv]
  rcases ht with rfl | ⟨c, rest, rfl, hc⟩
  · exact List.append_nil v
  · have hfirst : indexAny (c :: rest) (str "-+") = some 0 := by
      rcases hc with rfl | rfl <;> rfl
    rw [hfirst, Option.map_some, Nat.zero_add]
    exact List.take_left

/-- The text of a version, spelled out. -/
theorem writes_iff {v : GoString} {a b c : ℕ} : Writes v [a, b, c] ↔
    ∃ A B C t, Numeral A a ∧ Numeral B b ∧ Numeral C c ∧ Suffix t ∧
      v = A ++ 46 :: (B ++ 46 :: C) ++ t := by
  constructor
  · rintro ⟨numerals, t, hnumerals, ht, hv⟩
    obtain _ | @⟨A, _, _, _, hA, hnumerals⟩ := hnumerals
    obtain _ | @⟨B, _, _, _, hB, hnumerals⟩ := hnumerals
    obtain _ | @⟨C, _, _, _, hC, hnumerals⟩ := hnumerals
    cases hnumerals
    exact ⟨A, B, C, t, hA, hB, hC, ht, hv⟩
  · rintro ⟨A, B, C, t, hA, hB, hC, ht, hv⟩
    exact ⟨[A, B, C], t, .cons hA (.cons hB (.cons hC .nil)), ht, hv⟩

theorem parts_of_writes {v : GoString} {a b c : ℕ} (h : Writes v [a, b, c]) :
    parts v = [a, b, c].map read := by
  obtain ⟨A, B, C, t, hA, hB, hC, ht, rfl⟩ := writes_iff.mp h
  have hplain : ∀ c ∈ A ++ 46 :: (B ++ 46 :: C), c ∉ str "-+" := by
    intro c hc hin
    have hseparator : ∀ c ∈ str "-+", ¬(48 ≤ c ∧ c ≤ 57) ∧ c ≠ 46 :=
      List.all_iff_forall_prop.mp (by decide)
    have hno := hseparator c hin
    simp only [List.mem_append, List.mem_cons] at hc
    rcases hc with hc | hc | hc | hc | hc
    · exact hA.not_mem hno.1 hc
    · exact hno.2 hc
    · exact hB.not_mem hno.1 hc
    · exact hno.2 hc
    · exact hC.not_mem hno.1 hc
  have hsegments : splitN 46 3 (A ++ 46 :: (B ++ 46 :: C)) = [A, B, C] := by
    rw [splitN_line 1 _ (hA.not_mem (by decide)),
      splitN_line 0 _ (hB.not_mem (by decide))]
    rfl
  rw [parts, dropMetadata_suffix hplain ht, hsegments]
  show [segment A, segment B, segment C] = [read a, read b, read c]
  rw [segment_numeral hA, segment_numeral hB, segment_numeral hC]

/-! ## The comparison -/

theorem below_cons {α : Type} [LT α] {a b : α} {v w : List α} :
    Below (a :: v) (b :: w) ↔ a < b ∨ a = b ∧ Below v w :=
  List.cons_lex_cons_iff

/-- The loop finds out whether what is compared is below. -/
theorem compareFrom_iff : ∀ {as bs : List ℤ}, as.length = bs.length →
    (compareFrom as bs = true ↔ ¬ Below as bs) := by
  intro as
  induction as with
  | nil =>
      intro bs hlen
      rw [List.length_eq_zero_iff.mp hlen.symm]
      simp [compareFrom, Below]
  | cons a as ih =>
      intro bs hlen
      cases bs with
      | nil => cases hlen
      | cons b bs =>
          rw [compareFrom, below_cons]
          by_cases heq : a = b
          · rw [if_neg (not_not.mpr heq), ih (Nat.succ.inj hlen), heq]
            simp
          · rw [if_pos heq]
            simp only [heq, false_and, or_false, decide_eq_true_eq]
            omega

theorem atLeast_iff (v w : GoString) : atLeast v w = true ↔ ¬ Below (parts v) (parts w) :=
  compareFrom_iff rfl

section Order

variable {α : Type} [LinearOrder α]

theorem not_below_self (v : List α) : ¬ Below v v :=
  irrefl_of (List.Lex (· < ·)) v

theorem not_below_total (v w : List α) : ¬ Below v w ∨ ¬ Below w v := by
  rw [← not_and_or]
  exact fun h => asymm_of (List.Lex (· < ·)) h.1 h.2

theorem not_below_trans {u v w : List α} (huv : ¬ Below u v) (hvw : ¬ Below v w) :
    ¬ Below u w := by
  have hconn : IsOrderConnected (List α) (List.Lex (· < ·)) := inferInstance
  exact fun h => (hconn.conn u v w h).elim huv hvw

end Order

/-! ## When it is the order of the numbers -/

theorem read_of_ne {n : ℕ} (h : read n ≠ n) : read n = 0 ∧ maxInt < n := by
  unfold read at h ⊢
  by_cases hn : (n : ℤ) ≤ maxInt
  · rw [if_pos hn] at h
    exact absurd rfl h
  · rw [if_neg hn]
    exact ⟨rfl, Int.not_le.mp hn⟩

theorem read_le (n : ℕ) : 0 ≤ read n ∧ read n ≤ maxInt := by
  unfold read maxInt
  split <;> omega

/-- Of two numbers that are read as different ones, the order is kept only if both are
read as they stand. -/
theorem read_lt_iff {n m : ℕ} (hne : read n ≠ read m) :
    (read n < read m ↔ n < m) ↔ read n = n ∧ read m = m := by
  have hn := read_le n
  have hm := read_le m
  by_cases hrn : read n = n
  · by_cases hrm : read m = m
    · rw [hrn, hrm] at *
      simp
    · obtain ⟨hzero, hbig⟩ := read_of_ne hrm
      simp only [hrm, and_false, iff_false]
      omega
  · obtain ⟨hzero, hbig⟩ := read_of_ne hrn
    simp only [hrn, false_and, iff_false]
    by_cases hrm : read m = m
    · omega
    · exact absurd (hzero.trans (read_of_ne hrm).1.symm) hne

theorem below_read_iff : ∀ {v w : List ℕ}, v.length = w.length →
    ((Below (v.map read) (w.map read) ↔ Below v w) ↔ Settled v w) := by
  intro v
  induction v with
  | nil =>
      intro w hlen
      rw [List.length_eq_zero_iff.mp hlen.symm]
      simp [Settled, Below]
  | cons n v ih =>
      intro w hlen
      cases w with
      | nil => cases hlen
      | cons m w =>
          rw [List.map_cons, List.map_cons, below_cons, below_cons, Settled]
          by_cases heq : n = m
          · rw [if_pos heq, ← ih (Nat.succ.inj hlen), heq]
            simp
          · rw [if_neg heq]
            by_cases hread : read n = read m
            · have hboth : ¬(read n = n ∧ read m = m) := fun h =>
                heq (Int.ofNat.inj ((h.1.symm.trans hread).trans h.2))
              have hleft : (read n < read m ∨ read n = read m ∧
                  Below (v.map read) (w.map read)) ↔ Below (v.map read) (w.map read) := by
                simp [hread]
              have hright : (n < m ∨ n = m ∧ Below v w) ↔ n < m := by simp [heq]
              rw [hleft, hright]
              exact ⟨fun h => .inr ⟨hread, h⟩, fun h => (h.resolve_left hboth).2⟩
            · simp only [hread, heq, false_and, or_false]
              exact read_lt_iff hread

theorem settled_of_fits : ∀ {v w : List ℕ}, (∀ n ∈ v, (n : ℤ) ≤ maxInt) →
    (∀ m ∈ w, (m : ℤ) ≤ maxInt) → Settled v w := by
  intro v
  induction v with
  | nil => intro w _ _; simp [Settled]
  | cons n v ih =>
      intro w hv hw
      cases w with
      | nil => simp [Settled]
      | cons m w =>
          rw [Settled]
          split
          · exact ih (fun k hk => hv k (List.mem_cons_of_mem n hk))
              fun k hk => hw k (List.mem_cons_of_mem m hk)
          · exact .inl ⟨if_pos (hv n List.mem_cons_self), if_pos (hw m List.mem_cons_self)⟩

section Answer

variable {v w : GoString} {a b c x y z : ℕ}

theorem atLeast_of_writes (hv : Writes v [a, b, c]) (hw : Writes w [x, y, z]) :
    atLeast v w = true ↔ ¬ Below ([a, b, c].map read) ([x, y, z].map read) := by
  rw [atLeast_iff, parts_of_writes hv, parts_of_writes hw]

theorem atLeast_settled (hv : Writes v [a, b, c]) (hw : Writes w [x, y, z]) :
    (atLeast v w = true ↔ ¬ Below [a, b, c] [x, y, z]) ↔ Settled [a, b, c] [x, y, z] := by
  rw [atLeast_of_writes hv hw, not_iff_not]
  exact below_read_iff rfl

/-- A floor above the version is not reported as met. -/
theorem atLeast_above (hv : Writes v [a, b, c]) (hw : Writes w [x, y, z])
    (habove : Below [a, b, c] [x, y, z]) :
    atLeast v w = false ↔ Settled [a, b, c] [x, y, z] := by
  rw [← atLeast_settled hv hw, ← Bool.not_eq_true]
  exact ⟨fun h => iff_of_false h (not_not.mpr habove), fun h => mt h.mp (not_not.mpr habove)⟩

end Answer

/-- The answer is the numeric order of the two versions exactly when the first components
that differ settle it, and a floor above the version is refused in these cases and in no
other. Whatever the texts, the answers are reflexive, transitive and total. -/
theorem atLeast_numeric_iff {v w : GoString} {a b c x y z : ℕ} (hv : Writes v [a, b, c])
    (hw : Writes w [x, y, z]) :
    ((atLeast v w = true ↔ ¬ Below [a, b, c] [x, y, z]) ↔ Settled [a, b, c] [x, y, z]) ∧
    (Below [a, b, c] [x, y, z] → (atLeast v w = false ↔ Settled [a, b, c] [x, y, z])) ∧
    (∀ s : GoString, atLeast s s = true) ∧
    (∀ s t u : GoString, atLeast s t = true → atLeast t u = true → atLeast s u = true) ∧
    (∀ s t : GoString, atLeast s t = true ∨ atLeast t s = true) := by
  refine ⟨atLeast_settled hv hw, atLeast_above hv hw, fun s => ?_, fun s t u hst htu => ?_,
    fun s t => ?_⟩
  · exact (atLeast_iff s s).mpr (not_below_self _)
  · rw [atLeast_iff] at hst htu ⊢
    exact not_below_trans hst htu
  · rw [atLeast_iff, atLeast_iff]
    exact not_below_total _ _

theorem writes_release : Writes (str "1.10.0-rc.1") [1, 10, 0] :=
  writes_iff.mpr ⟨str "1", str "10", str "0", str "-rc.1", ⟨by decide, by decide⟩,
    ⟨by decide, by decide⟩, ⟨by decide, by decide⟩, .inr ⟨45, str "rc.1", by decide, .inl rfl⟩,
    by decide⟩

theorem writes_floor : Writes (str "1.9.5") [1, 9, 5] :=
  writes_iff.mpr ⟨str "1", str "9", str "5", [], ⟨by decide, by decide⟩,
    ⟨by decide, by decide⟩, ⟨by decide, by decide⟩, .inl rfl, by decide⟩

/-- Ten is above nine, and neither is too large. -/
theorem atLeast_ten_nine :
    atLeast (str "1.10.0-rc.1") (str "1.9.5") = true ↔ ¬ Below [1, 10, 0] [1, 9, 5] :=
  (atLeast_numeric_iff writes_release writes_floor).1.mpr
    (settled_of_fits (by decide) (by decide))

theorem writes_version : Writes version [0, 2, 0] :=
  writes_iff.mpr ⟨str "0", str "2", str "0", [], ⟨by decide, by decide⟩,
    ⟨by decide, by decide⟩, ⟨by decide, by decide⟩, .inl rfl, by decide⟩

theorem writes_too_large : Writes (str "9223372036854775808.0.0") [9223372036854775808, 0, 0] :=
  writes_iff.mpr ⟨str "9223372036854775808", str "0", str "0", [], ⟨by decide, by decide⟩,
    ⟨by decide, by decide⟩, ⟨by decide, by decide⟩, .inl rfl, by decide⟩

/-- The floor is one more than the largest `int`. -/
theorem floor_too_large_satisfied :
    Writes version [0, 2, 0] ∧
      Writes (str "9223372036854775808.0.0") [9223372036854775808, 0, 0] ∧
      Below [0, 2, 0] [9223372036854775808, 0, 0] ∧
      atLeast version (str "9223372036854775808.0.0") = true :=
  ⟨writes_version, writes_too_large, .rel (by decide), by decide⟩

/-! ## What `/info` tells an operator -/

/-- An operator who asks for a floor above the version is told that it is met exactly
when the first components that differ do not settle it. -/
theorem minVersion_above {v w : GoString} {a b c x y z : ℕ} (hv : Writes v [a, b, c])
    (hw : Writes w [x, y, z]) (habove : Below [a, b, c] [x, y, z]) :
    (∃ r, minVersion v w = some r ∧ r.versionSatisfiesMin = true) ↔
      ¬ Settled [a, b, c] [x, y, z] := by
  have hne : w ≠ [] := by
    obtain ⟨A, B, C, t, -, -, -, -, rfl⟩ := writes_iff.mp hw
    simp
  rw [minVersion, if_pos hne, ← atLeast_above hv hw habove, Bool.not_eq_false]
  constructor
  · rintro ⟨r, hr, hsat⟩
    rw [← Option.some.inj hr] at hsat
    exact hsat
  · exact fun h => ⟨_, rfl, h⟩

end Goboxd.Buildinfo
