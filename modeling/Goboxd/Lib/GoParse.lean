import Goboxd.Lib.GoString

/-!
# Reading numbers out of text

The kernel's interface files are lines of a name and a number, and a program
reads them with `Split`, `Fields` and `ParseInt`. What is proved about these
functions is what makes such a line readable: a decimal number parses back to
itself, and words without white space are the fields of a line. A numeral that
somebody else wrote may be longer than any `int`; `Atoi` then refuses it.
-/

namespace Go

/-! ## Fields -/

/-- The scan of `strings.Fields`: `cur` is the word being read, and `skip`
counts the bytes of the last separator still to be passed over. -/
def fieldsFrom (encs : List GoString) : Nat → GoString → GoString → List GoString
  | _, cur, [] => if cur = [] then [] else [cur]
  | skip + 1, cur, _ :: cs => fieldsFrom encs skip cur cs
  | 0, cur, c :: cs =>
      match encs.find? fun e => e.isPrefixOf (c :: cs) with
      | some e =>
          (if cur = [] then [] else [cur]) ++
            fieldsFrom encs (e.length - 1) [] cs
      | none => fieldsFrom encs 0 (cur ++ [c]) cs

/-- `strings.Fields`. -/
def fields (s : GoString) : List GoString := fieldsFrom spaceEncodings 0 [] s

/-- `strings.FieldsFunc` for white space and one more character. -/
def fieldsOr (c : UInt8) (s : GoString) : List GoString :=
  fieldsFrom ([c] :: spaceEncodings) 0 [] s

/-- No byte of the word begins an encoding. -/
def Solid (encs : List GoString) (w : GoString) : Prop :=
  ∀ c ∈ w, ∀ e ∈ encs, e.head? ≠ some c ∧ e ≠ []

instance (encs : List GoString) (w : GoString) : Decidable (Solid encs w) :=
  List.decidableBAll (fun c => ∀ e ∈ encs, e.head? ≠ some c ∧ e ≠ []) w

theorem find?_solid {encs : List GoString} {c : UInt8} (cs : GoString)
    (h : ∀ e ∈ encs, e.head? ≠ some c ∧ e ≠ []) :
    (encs.find? fun e => e.isPrefixOf (c :: cs)) = none := by
  rw [List.find?_eq_none]
  intro e he
  obtain ⟨hhead, hne⟩ := h e he
  cases e with
  | nil => exact absurd rfl hne
  | cons d ds =>
      have hdc : d ≠ c := fun hdc => hhead (by rw [hdc]; rfl)
      simp [hdc]

theorem fieldsFrom_solid {encs : List GoString} :
    ∀ {w : GoString} (cur rest : GoString), Solid encs w →
    fieldsFrom encs 0 cur (w ++ rest) = fieldsFrom encs 0 (cur ++ w) rest := by
  intro w
  induction w with
  | nil => intro cur rest _; rw [List.nil_append, List.append_nil]
  | cons c cs ih =>
      intro cur rest h
      have hc := find?_solid (cs ++ rest) (h c List.mem_cons_self)
      have hcs : Solid encs cs := fun d hd => h d (List.mem_cons_of_mem _ hd)
      rw [List.cons_append, fieldsFrom, hc]
      simp only []
      rw [ih _ _ hcs, List.append_assoc, List.singleton_append]

theorem fields_pair {a b : GoString} (ha : a ≠ []) (hb : b ≠ [])
    (hsa : Solid spaceEncodings a) (hsb : Solid spaceEncodings b) :
    fields (a ++ 0x20 :: b) = [a, b] := by
  have hspace : (spaceEncodings.find? fun e => e.isPrefixOf (0x20 :: b)) =
      some [0x20] := rfl
  have hend := fieldsFrom_solid [] [] hsb
  rw [List.append_nil, List.nil_append] at hend
  rw [fields, fieldsFrom_solid [] _ hsa, List.nil_append, fieldsFrom, hspace]
  simp only [List.length_singleton, Nat.sub_self, if_neg ha]
  rw [hend, fieldsFrom, if_neg hb]
  rfl

/-! ## Decimal numbers -/

/-- `strconv.ParseUint(s, 10, 64)`. -/
def parseUint (s : GoString) : Option Nat :=
  if s = [] then none
  else
    (parseDigits 0 s).bind fun n => if n < 2 ^ 64 then some n else none

theorem parseDigits_append : ∀ {s t : GoString} {acc : Nat},
    parseDigits acc (s ++ t) = (parseDigits acc s).bind fun n => parseDigits n t := by
  intro s t
  induction s with
  | nil => intro acc; rfl
  | cons c cs ih =>
      intro acc
      rw [List.cons_append, parseDigits, parseDigits]
      split
      · exact ih
      · rfl

theorem digit_toNat {d : Nat} (h : d < 10) : (UInt8.ofNat (48 + d)).toNat = 48 + d := by
  rw [UInt8.toNat_ofNat']
  omega

theorem parseDigits_digit {d acc : Nat} (h : d < 10) :
    parseDigits acc [UInt8.ofNat (48 + d)] = some (acc * 10 + d) := by
  have hd := digit_toNat h
  have hrange : 48 ≤ UInt8.ofNat (48 + d) ∧ UInt8.ofNat (48 + d) ≤ 57 := by
    rw [UInt8.le_iff_toNat_le, UInt8.le_iff_toNat_le, hd]
    constructor
    · show 48 ≤ 48 + d
      omega
    · show 48 + d ≤ 57
      omega
  rw [parseDigits, if_pos hrange, parseDigits, hd]
  congr 1
  omega

theorem parseDigits_natDigits : ∀ {fuel n : Nat}, n < fuel →
    parseDigits 0 (natDigits fuel n) = some n := by
  intro fuel
  induction fuel with
  | zero => intro n h; omega
  | succ fuel ih =>
      intro n h
      rw [natDigits]
      split
      · next hn => rw [parseDigits_digit hn, Nat.zero_mul, Nat.zero_add]
      · next hn =>
          rw [parseDigits_append, ih (by omega), Option.bind_some,
            parseDigits_digit (by omega)]
          congr 1
          omega

theorem natDigits_ne_nil {fuel n : Nat} : natDigits (fuel + 1) n ≠ [] := by
  rw [natDigits]
  split <;> simp

theorem mem_natDigits : ∀ {fuel n : Nat} {c : UInt8},
    c ∈ natDigits fuel n → ∃ d, d < 10 ∧ c = UInt8.ofNat (48 + d) := by
  intro fuel
  induction fuel with
  | zero => intro n c h; cases h
  | succ fuel ih =>
      intro n c h
      rw [natDigits] at h
      split at h
      · next hn => exact ⟨n, hn, List.mem_singleton.mp h⟩
      · rcases List.mem_append.mp h with h | h
        · exact ih h
        · exact ⟨n % 10, by omega, List.mem_singleton.mp h⟩

theorem itoa_natCast (n : Nat) : itoa n = natDigits (n + 1) n := by
  rw [itoa, if_neg (by omega), Int.natAbs_natCast]

theorem itoa_ne_nil (n : Int) : itoa n ≠ [] := by
  unfold itoa
  split
  · exact List.cons_ne_nil _ _
  · exact natDigits_ne_nil

theorem mem_itoa {n : Int} {c : UInt8} (h : c ∈ itoa n) :
    c = 45 ∨ ∃ d, d < 10 ∧ c = UInt8.ofNat (48 + d) := by
  unfold itoa at h
  split at h
  · rcases List.mem_cons.mp h with h | h
    · exact .inl h
    · exact .inr (mem_natDigits h)
  · exact .inr (mem_natDigits h)

theorem itoa_solid (n : Int) : Solid spaceEncodings (itoa n) := by
  intro c hc
  have hminus : ∀ e ∈ spaceEncodings, e.head? ≠ some 45 ∧ e ≠ [] := by decide
  have hdigit : ∀ d < 10, ∀ e ∈ spaceEncodings,
      e.head? ≠ some (UInt8.ofNat (48 + d)) ∧ e ≠ [] := by decide
  rcases mem_itoa hc with rfl | ⟨d, hd, rfl⟩
  · exact hminus
  · exact hdigit d hd

theorem newline_not_mem_itoa (n : Int) : 10 ∉ itoa n := by
  intro h
  have hdigit : ∀ d < 10, (10 : UInt8) ≠ UInt8.ofNat (48 + d) := by decide
  rcases mem_itoa h with heq | ⟨d, hd, heq⟩
  · exact absurd heq (by decide)
  · exact hdigit d hd heq

theorem signAndDigits_natDigits (fuel n : Nat) :
    signAndDigits (natDigits fuel n) = (false, natDigits fuel n) := by
  have hdigit : ∀ d < 10, UInt8.ofNat (48 + d) ≠ 45 ∧ UInt8.ofNat (48 + d) ≠ 43 := by
    decide
  cases hs : natDigits fuel n with
  | nil => rfl
  | cons c cs =>
      obtain ⟨d, hd, rfl⟩ := mem_natDigits (hs ▸ List.mem_cons_self)
      obtain ⟨h45, h43⟩ := hdigit d hd
      unfold signAndDigits
      split
      · next heq => exact absurd (List.cons.inj heq).1 h45
      · next heq => exact absurd (List.cons.inj heq).1 h43
      · rfl

/-- An `int` that is written is read back. -/
theorem atoi_itoa {n : Int} (h : InRange n) : atoi (itoa n) = some n := by
  obtain ⟨hlo, hhi⟩ := h
  have hparse := parseDigits_natDigits (Nat.lt_succ_self n.natAbs)
  rw [atoi, itoa]
  split
  · next hneg =>
      rw [signAndDigits, if_neg natDigits_ne_nil, hparse, Option.bind_some]
      simp only [if_true]
      rw [if_pos (by omega)]
      congr 1
      omega
  · next hpos =>
      rw [signAndDigits_natDigits, if_neg natDigits_ne_nil, hparse, Option.bind_some]
      simp only [Bool.false_eq_true, if_false]
      rw [if_pos (by omega)]
      congr 1
      omega

/-- The text is a decimal numeral, of any length and with any zeros in front. -/
def Numeral (s : GoString) (n : Nat) : Prop := s ≠ [] ∧ parseDigits 0 s = some n

theorem numeral_itoa (n : Nat) : Numeral (itoa n) n :=
  ⟨itoa_ne_nil n, by rw [itoa_natCast, parseDigits_natDigits (Nat.lt_succ_self n)]⟩

theorem digit_of_parseDigits : ∀ {s : GoString} {acc n : Nat}, parseDigits acc s = some n →
    ∀ c ∈ s, 48 ≤ c ∧ c ≤ 57 := by
  intro s
  induction s with
  | nil => intro _ _ _ c hc; cases hc
  | cons d ds ih =>
      intro acc n h c hc
      rw [parseDigits] at h
      split at h
      · next hd =>
          rcases List.mem_cons.mp hc with rfl | hc
          · exact hd
          · exact ih h c hc
      · cases h

/-- The bytes of a numeral are digits. -/
theorem Numeral.not_mem {s : GoString} {n : Nat} (h : Numeral s n) {c : UInt8}
    (hc : ¬(48 ≤ c ∧ c ≤ 57)) : c ∉ s :=
  fun hmem => hc (digit_of_parseDigits h.2 c hmem)

/-- A numeral is read as its value, if an `int` can hold it. -/
theorem atoi_numeral {s : GoString} {n : Nat} (h : Numeral s n) :
    atoi s = if (n : Int) ≤ maxInt then some (n : Int) else none := by
  obtain ⟨hne, hparse⟩ := h
  have hsign : signAndDigits s = (false, s) := by
    obtain ⟨c, cs, rfl⟩ := List.exists_cons_of_ne_nil hne
    have hlow := (digit_of_parseDigits hparse c List.mem_cons_self).1
    unfold signAndDigits
    split
    · next heq =>
        rw [(List.cons.inj heq).1] at hlow
        exact absurd hlow (by decide)
    · next heq =>
        rw [(List.cons.inj heq).1] at hlow
        exact absurd hlow (by decide)
    · rfl
  have hlo : -maxInt - 1 ≤ (n : Int) := by
    unfold maxInt
    omega
  rw [atoi, hsign, if_neg hne, hparse, Option.bind_some]
  simp only [Bool.false_eq_true, if_false, hlo, true_and]

/-- A number that fits in 64 bits is read back. -/
theorem parseUint_itoa {n : Nat} (h : n < 2 ^ 64) : parseUint (itoa n) = some n := by
  rw [parseUint, if_neg (itoa_ne_nil n), itoa_natCast,
    parseDigits_natDigits (Nat.lt_succ_self n), Option.bind_some, if_pos h]

end Go
