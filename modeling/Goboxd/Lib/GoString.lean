import Mathlib.Data.List.Basic
import Goboxd.Lib.GoInt

/-!
# Go strings and the functions programs use on them

A Go string is a sequence of bytes, valid UTF-8 or not, so it is modelled as
one. The functions carry the names of the packages `strings` and `strconv` and
work byte by byte where those do. `TrimSpace` is the exception: it trims
Unicode white space, which here is a list of encodings tried at both ends.

`Split` undoes `Join` of strings that do not hold the separator, and splitting a
text in two at a separator first makes no difference.

The substitution `ReplaceAll` gets the one theorem that is not obvious. As soon
as the pattern occurs, the result determines the replacement: the lengths
already force two replacements to be equally long, and then the first
occurrence forces them to agree.
-/

abbrev GoString := List UInt8

namespace Go

instance (s : GoString) (l : List GoString) : Decidable (s ∈ l) := inferInstance

/-- A string literal of ASCII characters. -/
def str (s : String) : GoString := s.toList.map fun c => UInt8.ofNat c.toNat

/-- The decimal digits of a natural number, with fuel for the number of them. -/
def natDigits : Nat → Nat → GoString
  | 0, _ => []
  | fuel + 1, n =>
      if n < 10 then [UInt8.ofNat (48 + n)]
      else natDigits fuel (n / 10) ++ [UInt8.ofNat (48 + n % 10)]

/-- `strconv.Itoa`. -/
def itoa (n : Int) : GoString :=
  if n < 0 then 45 :: natDigits (n.natAbs + 1) n.natAbs
  else natDigits (n.natAbs + 1) n.natAbs

/-- The number a string of decimal digits writes, if it is one. -/
def parseDigits : Nat → GoString → Option Nat
  | acc, [] => some acc
  | acc, c :: cs =>
      if 48 ≤ c ∧ c ≤ 57 then parseDigits (acc * 10 + (c.toNat - 48)) cs
      else none

/-- The optional sign of a number and the digits behind it. -/
def signAndDigits : GoString → Bool × GoString
  | 45 :: ds => (true, ds)
  | 43 :: ds => (false, ds)
  | ds => (false, ds)

/-- `strconv.Atoi`: an optional sign, at least one digit, and a value an `int`
can hold. -/
def atoi (s : GoString) : Option Int :=
  if (signAndDigits s).2 = [] then none
  else
    (parseDigits 0 (signAndDigits s).2).bind fun n =>
      let v : Int := if (signAndDigits s).1 then -(n : Int) else n
      if -maxInt - 1 ≤ v ∧ v ≤ maxInt then some v else none

/-- `strings.HasPrefix`. -/
def hasPrefix (s p : GoString) : Bool := p.isPrefixOf s

/-- `strings.HasSuffix`. -/
def hasSuffix (s p : GoString) : Bool := p.isSuffixOf s

/-- `strings.TrimPrefix`. -/
def trimPrefix (s p : GoString) : GoString :=
  if hasPrefix s p then s.drop p.length else s

/-- `strings.TrimSuffix`. -/
def trimSuffix (s p : GoString) : GoString :=
  if hasSuffix s p then s.take (s.length - p.length) else s

/-- `strings.Contains`. -/
def contains : GoString → GoString → Bool
  | [], sub => sub.isEmpty
  | c :: cs, sub => sub.isPrefixOf (c :: cs) || contains cs sub

/-- `strings.ContainsAny`, for ASCII characters. -/
def containsAny (s chars : GoString) : Bool := s.any fun c => chars.contains c

/-- `strings.Split` by a one-byte separator. -/
def split (sep : UInt8) : GoString → List GoString
  | [] => [[]]
  | c :: cs =>
      match split sep cs with
      | [] => [[c]]
      | w :: ws => if c = sep then [] :: w :: ws else (c :: w) :: ws

/-- `strings.Join` by a one-byte separator. -/
def join (sep : UInt8) : List GoString → GoString
  | [] => []
  | [s] => s
  | s :: ss => s ++ sep :: join sep ss

/-- The UTF-8 encodings of the code points `unicode.IsSpace` accepts. -/
def spaceEncodings : List GoString :=
  [[0x09], [0x0A], [0x0B], [0x0C], [0x0D], [0x20], [0xC2, 0x85], [0xC2, 0xA0],
    [0xE1, 0x9A, 0x80], [0xE2, 0x80, 0x80], [0xE2, 0x80, 0x81],
    [0xE2, 0x80, 0x82], [0xE2, 0x80, 0x83], [0xE2, 0x80, 0x84],
    [0xE2, 0x80, 0x85], [0xE2, 0x80, 0x86], [0xE2, 0x80, 0x87],
    [0xE2, 0x80, 0x88], [0xE2, 0x80, 0x89], [0xE2, 0x80, 0x8A],
    [0xE2, 0x80, 0xA8], [0xE2, 0x80, 0xA9], [0xE2, 0x80, 0xAF],
    [0xE2, 0x81, 0x9F], [0xE3, 0x80, 0x80]]

/-- Drops the white space in front, with fuel for the number of bytes. -/
def trimLeft (encs : List GoString) : Nat → GoString → GoString
  | 0, s => s
  | fuel + 1, s =>
      match encs.find? fun e => e.isPrefixOf s with
      | some e => trimLeft encs fuel (s.drop e.length)
      | none => s

/-- `strings.TrimSpace`. The right end is the left end of the reversed bytes,
where the encodings read backwards. -/
def trimSpace (s : GoString) : GoString :=
  let s := trimLeft spaceEncodings s.length s
  (trimLeft (spaceEncodings.map List.reverse) s.length s.reverse).reverse

/-! ## `ReplaceAll` -/

/-- The scan of `strings.ReplaceAll` for a pattern that is not empty: `skip`
counts the bytes of the last match still to be passed over. -/
def replaceFrom (old new : GoString) : Nat → GoString → GoString
  | _, [] => []
  | skip + 1, _ :: cs => replaceFrom old new skip cs
  | 0, c :: cs =>
      if old.isPrefixOf (c :: cs) then
        new ++ replaceFrom old new (old.length - 1) cs
      else c :: replaceFrom old new 0 cs

/-- `strings.ReplaceAll(s, old, new)`, `old` not empty. -/
def replaceAll (s old new : GoString) : GoString := replaceFrom old new 0 s

/-- The number of matches the scan replaces. -/
def matchesFrom (old : GoString) : Nat → GoString → Nat
  | _, [] => 0
  | skip + 1, _ :: cs => matchesFrom old skip cs
  | 0, c :: cs =>
      if old.isPrefixOf (c :: cs) then matchesFrom old (old.length - 1) cs + 1
      else matchesFrom old 0 cs

theorem matchesFrom_pos {old : GoString} (hne : old ≠ []) :
    ∀ {s : GoString}, 0 < matchesFrom old 0 s ↔ contains s old = true := by
  intro s
  induction s with
  | nil =>
      rw [matchesFrom, contains]
      simp [hne]
  | cons c cs ih =>
      rw [matchesFrom, contains]
      split
      · next h => simp [h]
      · next h => simp [h, ih]

/-- Only the replacement's length and the number of matches matter for the
length of the result. -/
theorem length_replaceFrom (old new : GoString) : ∀ (s : GoString) (skip : Nat),
    (replaceFrom old new skip s).length =
      (replaceFrom old [] skip s).length + matchesFrom old skip s * new.length := by
  intro s
  induction s with
  | nil => intro skip; simp [replaceFrom, matchesFrom]
  | cons c cs ih =>
      intro skip
      cases skip with
      | succ skip => exact ih skip
      | zero =>
          simp only [replaceFrom, matchesFrom]
          split
          · rw [List.length_append, ih, List.nil_append, Nat.add_mul, Nat.one_mul]
            omega
          · rw [List.length_cons, List.length_cons, ih]
            omega

theorem replaceFrom_inj_of_length {old a b : GoString}
    (hlen : a.length = b.length) : ∀ {s : GoString} {skip : Nat},
    0 < matchesFrom old skip s →
    replaceFrom old a skip s = replaceFrom old b skip s → a = b := by
  intro s
  induction s with
  | nil => intro skip hpos; exact absurd hpos (Nat.lt_irrefl 0)
  | cons c cs ih =>
      intro skip hpos heq
      cases skip with
      | succ skip => exact ih hpos heq
      | zero =>
          simp only [replaceFrom, matchesFrom] at hpos heq
          split at hpos
          · next h =>
              rw [if_pos h, if_pos h] at heq
              exact List.append_inj_left heq hlen
          · next h =>
              rw [if_neg h, if_neg h] at heq
              exact ih hpos (List.cons.inj heq).2

/-- Where the pattern occurs, the result determines the replacement. -/
theorem replaceAll_inj {s old a b : GoString} (hne : old ≠ [])
    (hocc : contains s old = true)
    (heq : replaceAll s old a = replaceAll s old b) : a = b := by
  have hpos : 0 < matchesFrom old 0 s := (matchesFrom_pos hne).mpr hocc
  have hlen := congrArg List.length heq
  rw [replaceAll, replaceAll, length_replaceFrom old a,
    length_replaceFrom old b] at hlen
  have hmul : matchesFrom old 0 s * a.length = matchesFrom old 0 s * b.length := by
    omega
  exact replaceFrom_inj_of_length (Nat.eq_of_mul_eq_mul_left hpos hmul) hpos heq

/-- Where the pattern does not occur, nothing is replaced. -/
theorem replaceAll_of_not_contains {old new : GoString} : ∀ {s : GoString},
    contains s old = false → replaceAll s old new = s := by
  intro s
  unfold replaceAll
  induction s with
  | nil => intro _; rfl
  | cons c cs ih =>
      intro h
      rw [contains, Bool.or_eq_false_iff] at h
      rw [replaceFrom, if_neg (by simp [h.1]), ih h.2]

theorem replaceFrom_skip (old new : GoString) : ∀ (s : GoString) (skip : Nat),
    replaceFrom old new skip s = replaceAll (s.drop skip) old new := by
  intro s
  induction s with
  | nil => intro skip; rw [List.drop_nil]; cases skip <;> rfl
  | cons c cs ih =>
      intro skip
      cases skip with
      | zero => rfl
      | succ skip => exact ih skip

theorem replaceAll_append {old : GoString} (hne : old ≠ []) (new s : GoString) :
    replaceAll (old ++ s) old new = new ++ replaceAll s old new := by
  obtain ⟨c, cs, rfl⟩ := List.exists_cons_of_ne_nil hne
  rw [replaceAll, List.cons_append, replaceFrom, if_pos (by simp), replaceFrom_skip]
  simp

/-- Nothing is left of a string when it is nothing but copies of a pattern that is
replaced by nothing. -/
theorem replaceAll_eq_nil_iff {old new : GoString} (hne : old ≠ []) : ∀ {s : GoString},
    replaceAll s old new = [] ↔
      s = [] ∨ (new = [] ∧ ∃ n, s = (List.replicate n old).flatten) := by
  intro s
  induction hlen : s.length using Nat.strongRecOn generalizing s with
  | ind k ih =>
      by_cases hp : old.isPrefixOf s
      · obtain ⟨r, rfl⟩ := List.isPrefixOf_iff_prefix.mp hp
        have hlt : r.length < k := by
          have := List.length_pos_of_ne_nil hne
          rw [← hlen, List.length_append]
          omega
        rw [replaceAll_append hne, List.append_eq_nil_iff, ih r.length hlt rfl]
        constructor
        · rintro ⟨hnew, rfl | ⟨-, n, rfl⟩⟩
          · exact .inr ⟨hnew, 1, by simp⟩
          · exact .inr ⟨hnew, n + 1, by simp [List.replicate_succ]⟩
        · rintro (h | ⟨hnew, n, h⟩)
          · exact absurd (List.append_eq_nil_iff.mp h).1 hne
          · refine ⟨hnew, .inr ⟨hnew, n - 1, ?_⟩⟩
            cases n with
            | zero => exact absurd (List.append_eq_nil_iff.mp h).1 hne
            | succ n =>
                rw [List.replicate_succ, List.flatten_cons] at h
                exact List.append_cancel_left h
      · cases s with
        | nil => simp [replaceAll, replaceFrom]
        | cons c cs =>
            rw [replaceAll, replaceFrom, if_neg hp]
            constructor
            · intro h
              cases h
            · rintro (h | ⟨-, n, h⟩)
              · cases h
              · cases n with
                | zero => cases h
                | succ n =>
                    rw [List.replicate_succ, List.flatten_cons] at h
                    exact absurd (List.isPrefixOf_iff_prefix.mpr ⟨_, h.symm⟩) hp
/-! ## `Split` and `Join` -/

theorem split_ne_nil (sep : UInt8) : ∀ s : GoString, split sep s ≠ [] := by
  intro s
  induction s with
  | nil => exact List.cons_ne_nil _ _
  | cons c cs ih =>
      rw [split]
      split
      · exact List.cons_ne_nil _ _
      · split <;> exact List.cons_ne_nil _ _

theorem split_self {sep : UInt8} : ∀ {s : GoString}, sep ∉ s → split sep s = [s] := by
  intro s
  induction s with
  | nil => intro _; rfl
  | cons c cs ih =>
      intro h
      have hc : c ≠ sep := fun hc => h (hc ▸ List.mem_cons_self)
      rw [split, ih fun hm => h (List.mem_cons_of_mem _ hm)]
      simp only [if_neg hc]

theorem split_cons_sep (sep : UInt8) (s : GoString) :
    split sep (sep :: s) = [] :: split sep s := by
  rw [split]
  split
  · next h => exact absurd h (split_ne_nil sep s)
  · next h => rw [if_pos rfl, h]

theorem split_append_sep (sep : UInt8) (s t : GoString) :
    split sep (s ++ sep :: t) = split sep s ++ split sep t := by
  induction s with
  | nil =>
      rw [List.nil_append, split_cons_sep]
      rfl
  | cons c cs ih =>
      rw [List.cons_append, split, ih]
      cases hcs : split sep cs with
      | nil => exact absurd hcs (split_ne_nil sep cs)
      | cons w ws =>
          rw [split, hcs]
          simp only [List.cons_append]
          split <;> rfl

theorem split_line {sep : UInt8} (rest : GoString) {line : GoString} (h : sep ∉ line) :
    split sep (line ++ sep :: rest) = line :: split sep rest := by
  rw [split_append_sep, split_self h, List.singleton_append]

theorem not_mem_of_mem_split {sep : UInt8} {s w : GoString} (h : w ∈ split sep s) :
    sep ∉ w := by
  induction s generalizing w with
  | nil =>
      rw [List.mem_singleton.mp h]
      exact List.not_mem_nil
  | cons c cs ih =>
      rw [split] at h
      split at h
      · next hnil => exact absurd hnil (split_ne_nil sep cs)
      · next w' ws hcs =>
          rw [hcs] at ih
          split at h
          · rcases List.mem_cons.mp h with rfl | h
            · exact List.not_mem_nil
            · exact ih h
          · next hne =>
              rcases List.mem_cons.mp h with rfl | h
              · rw [List.mem_cons, not_or]
                exact ⟨fun heq => hne heq.symm, ih List.mem_cons_self⟩
              · exact ih (List.mem_cons_of_mem _ h)

theorem split_join {sep : UInt8} {ss : List GoString} (hne : ss ≠ [])
    (h : ∀ s ∈ ss, sep ∉ s) : split sep (join sep ss) = ss := by
  induction ss with
  | nil => exact absurd rfl hne
  | cons s ss ih =>
      have hs := h s List.mem_cons_self
      cases ss with
      | nil => exact split_self hs
      | cons s' ss =>
          have hrest := ih (List.cons_ne_nil _ _) fun t ht =>
            h t (List.mem_cons_of_mem _ ht)
          rw [join, split_line _ hs, hrest]
          exact List.cons_ne_nil _ _

/-! ## Maps by strings

A map with strings for keys is the list of its entries. -/

theorem mem_of_lookup {α : Type*} {es : List (GoString × α)} {key : GoString} {x : α}
    (h : es.lookup key = some x) : (key, x) ∈ es := by
  obtain ⟨l₁, l₂, rfl, -⟩ := List.lookup_eq_some_iff.mp h
  exact List.mem_append_right l₁ List.mem_cons_self

end Go
