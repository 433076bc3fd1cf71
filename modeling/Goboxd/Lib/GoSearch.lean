import Mathlib.Data.Bool.AllAny
import Mathlib.Data.List.Infix
import Goboxd.Lib.GoParse

/-!
# Finding a text in a text

`Index`, `LastIndex`, `IndexAny` and `SplitN` of package `strings`, with `none` for
the `-1` of the source. A first occurrence that is found in the front part of a text
is the first occurrence in all of it, and a last one that is found in the rear
part is the last one, so a text that is put together from known pieces can be
searched piece by piece.

The second half is about white space: a word whose ends are none is what
`TrimSpace` leaves of it, whatever white space stands around it, and the words
that `FieldsFunc` returns are such words.
-/

namespace Go

/-- A long string constant. `str` goes over the characters, this takes the
encoding as it is. -/
def bytes (s : String) : GoString := s.toByteArray.data.toList

/-- `strings.Index`. -/
def index (sub : GoString) : GoString → Option Nat
  | [] => if sub = [] then some 0 else none
  | c :: cs =>
      if sub.isPrefixOf (c :: cs) then some 0 else (index sub cs).map fun i => i + 1

/-- `strings.LastIndex`. -/
def lastIndex (sub : GoString) : GoString → Option Nat
  | [] => if sub = [] then some 0 else none
  | c :: cs =>
      match lastIndex sub cs with
      | some i => some (i + 1)
      | none => if sub.isPrefixOf (c :: cs) then some 0 else none

/-- `strings.IndexAny`, for ASCII characters. -/
def indexAny (s chars : GoString) : Option Nat := s.findIdx? fun c => chars.contains c

/-- `strings.SplitN` by a one-byte separator, for a positive number of parts. The last
one is what is left. -/
def splitN (sep : UInt8) : Nat → GoString → List GoString
  | n + 2, s =>
      match index [sep] s with
      | some i => s.take i :: splitN sep (n + 1) (s.drop (i + 1))
      | none => [s]
  | _, s => [s]

/-! ## Whether it is there -/

theorem contains_iff {sub : GoString} : ∀ {s : GoString}, contains s sub = true ↔ sub <:+: s := by
  intro s
  induction s with
  | nil => rw [contains, List.isEmpty_iff, List.infix_nil]
  | cons c cs ih =>
      rw [contains, Bool.or_eq_true, ih, List.isPrefixOf_iff_prefix, List.infix_cons_iff]

theorem contains_byte {c : UInt8} {s : GoString} : contains s [c] = true ↔ c ∈ s := by
  rw [contains_iff, List.singleton_infix_iff]

theorem containsAny_eq_false {s chars : GoString} (h : containsAny s chars = false) :
    ∀ c ∈ s, c ∉ chars := by
  intro c hc hin
  rw [containsAny, List.any_eq_false] at h
  exact h c hc (List.contains_iff_mem.mpr hin)

/-! ## Searching a text piece by piece -/

theorem index_length {sub : GoString} : ∀ {s : GoString} {i : Nat},
    index sub s = some i → i + sub.length ≤ s.length := by
  intro s
  induction s with
  | nil =>
      intro i h
      rw [index] at h
      split at h
      · next hnil => cases h; rw [hnil]; exact Nat.le_refl 0
      · cases h
  | cons c cs ih =>
      intro i h
      rw [index] at h
      split at h
      · next hp =>
          cases h
          rw [Nat.zero_add]
          exact (List.isPrefixOf_iff_prefix.mp hp).length_le
      · obtain ⟨j, hj, rfl⟩ := Option.map_eq_some_iff.mp h
        have := ih hj
        rw [List.length_cons]
        omega

/-- What is found in the front part is found in the whole. -/
theorem index_append {sub : GoString} : ∀ {a : GoString} {i : Nat} (b : GoString),
    index sub a = some i → index sub (a ++ b) = some i := by
  intro a
  induction a with
  | nil =>
      intro i b h
      rw [index] at h
      split at h
      · next hnil =>
          cases h
          rw [hnil, List.nil_append]
          cases b <;> rfl
      · cases h
  | cons c cs ih =>
      intro i b h
      rw [index] at h
      rw [List.cons_append, index]
      split at h
      · next hp =>
          rw [if_pos]
          · exact h
          · rw [List.isPrefixOf_iff_prefix] at hp ⊢
            exact hp.trans (List.prefix_append (c :: cs) b)
      · next hp =>
          obtain ⟨j, hj, rfl⟩ := Option.map_eq_some_iff.mp h
          have hlen := index_length hj
          rw [if_neg, ih b hj]
          · rfl
          · intro hpb
            rw [List.isPrefixOf_iff_prefix, ← List.cons_append] at hpb
            refine hp (List.isPrefixOf_iff_prefix.mpr ?_)
            exact List.prefix_of_prefix_length_le hpb (List.prefix_append _ b)
              (by rw [List.length_cons]; omega)

/-- A byte is found where it first stands. -/
theorem index_byte {c : UInt8} : ∀ {a : GoString} (b : GoString), c ∉ a →
    index [c] (a ++ c :: b) = some a.length := by
  intro a
  induction a with
  | nil => intro b _; rw [List.nil_append, index, if_pos (by simp)]; rfl
  | cons d ds ih =>
      intro b h
      have hd : c ≠ d := fun hd => h (hd ▸ List.mem_cons_self)
      rw [List.cons_append, index, if_neg (by simp [hd]),
        ih b fun hm => h (List.mem_cons_of_mem d hm)]
      rfl

/-- A text is not found where its first byte does not occur. -/
theorem index_none {c : UInt8} {sub : GoString} : ∀ {s : GoString}, c ∉ s →
    index (c :: sub) s = none := by
  intro s
  induction s with
  | nil => intro _; rfl
  | cons d ds ih =>
      intro h
      have hd : c ≠ d := fun hd => h (hd ▸ List.mem_cons_self)
      rw [index, if_neg (by simp [hd]), ih fun hm => h (List.mem_cons_of_mem d hm)]
      rfl

/-- What is found in the rear part is the last in the whole. -/
theorem lastIndex_append {sub : GoString} {i : Nat} {b : GoString}
    (h : lastIndex sub b = some i) : ∀ a : GoString,
    lastIndex sub (a ++ b) = some (a.length + i) := by
  intro a
  induction a with
  | nil => rw [List.nil_append, List.length_nil, Nat.zero_add]; exact h
  | cons c cs ih =>
      rw [List.cons_append, lastIndex, ih, List.length_cons, Nat.add_right_comm]

theorem splitN_line {sep : UInt8} {line : GoString} (n : Nat) (rest : GoString)
    (h : sep ∉ line) :
    splitN sep (n + 2) (line ++ sep :: rest) = line :: splitN sep (n + 1) rest := by
  rw [splitN, index_byte rest h]
  simp only []
  rw [List.take_left, ← List.drop_drop, List.drop_left, List.drop_one, List.tail_cons]

/-- Up to the first of some characters. -/
theorem indexAny_append {a b chars : GoString} (ha : ∀ c ∈ a, c ∉ chars) :
    indexAny (a ++ b) chars = (indexAny b chars).map fun i => i + a.length := by
  have hnone : a.findIdx? (fun c => chars.contains c) = none :=
    List.findIdx?_eq_none_iff.mpr fun c hc =>
      Bool.eq_false_iff.mpr fun hin => ha c hc (List.contains_iff_mem.mp hin)
  rw [indexAny, List.findIdx?_append, hnone, Option.none_or]
  rfl

/-! ## Searching past what cannot hold it -/

/-- Where a text stands in front of a byte it has none of, it stands as a whole. -/
theorem prefix_of_prefix_cons {sub a b : GoString} {c : UInt8} (hc : c ∉ sub)
    (h : sub <+: a ++ c :: b) : sub <+: a := by
  rcases Nat.lt_or_ge a.length sub.length with hlt | hge
  · have hpre : a ++ [c] <+: sub := by
      refine List.prefix_of_prefix_length_le (show a ++ [c] <+: a ++ c :: b from ⟨b, by simp⟩) h ?_
      rw [List.length_append, List.length_singleton]
      omega
    exact absurd (hpre.subset (by simp)) hc
  · exact List.prefix_of_prefix_length_le h (List.prefix_append a _) hge

theorem index_isSome {sub : GoString} : ∀ {s : GoString}, sub <:+: s →
    ∃ i, index sub s = some i := by
  intro s
  induction s with
  | nil =>
      intro h
      exact ⟨0, by rw [index, if_pos (List.infix_nil.mp h)]⟩
  | cons c cs ih =>
      intro h
      rw [index]
      split
      · exact ⟨0, rfl⟩
      · next hp =>
          rcases List.infix_cons_iff.mp h with h | h
          · exact absurd (List.isPrefixOf_iff_prefix.mpr h) hp
          · obtain ⟨i, hi⟩ := ih h
            exact ⟨i + 1, by rw [hi]; rfl⟩

/-- A text that stands neither in the front part nor across its end is searched for
behind it. -/
theorem index_behind {sub : GoString} {c : UInt8} (hne : sub ≠ []) (hc : c ∉ sub)
    (b : GoString) : ∀ {a : GoString}, ¬ sub <:+: a →
    index sub (a ++ c :: b) = (index sub b).map fun i => a.length + 1 + i := by
  intro a
  induction a with
  | nil =>
      intro _
      have hp : ¬ sub.isPrefixOf (c :: b) = true := fun h =>
        hne (List.prefix_nil.mp (prefix_of_prefix_cons (a := []) hc
          (List.isPrefixOf_iff_prefix.mp h)))
      rw [List.nil_append, index, if_neg hp]
      congr 1
      funext i
      rw [List.length_nil]
      omega
  | cons d ds ih =>
      intro h
      have hp : ¬ sub.isPrefixOf (d :: (ds ++ c :: b)) = true := fun hp =>
        h (prefix_of_prefix_cons (a := d :: ds) hc (List.isPrefixOf_iff_prefix.mp hp)).isInfix
      rw [List.cons_append, index, if_neg hp,
        ih fun hi => h (List.infix_cons_iff.mpr (.inr hi)), Option.map_map]
      congr 1
      funext i
      simp only [Function.comp, List.length_cons]
      omega

/-- A text that ends at its only `c` is searched for `c` by `c`. -/
theorem index_until {u : GoString} {c : UInt8} (hu : c ∉ u) (q : GoString) :
    ∀ {p : GoString}, c ∉ p → index (u ++ [c]) (p ++ c :: q) =
      if u <:+ p then some (p.length - u.length)
      else (index (u ++ [c]) q).map fun i => p.length + 1 + i := by
  have hfront : ∀ {p : GoString}, c ∉ p → (u ++ [c] <+: p ++ c :: q ↔ u = p) := by
    intro p hp
    constructor
    · rintro ⟨t, ht⟩
      rw [List.append_assoc, List.singleton_append] at ht
      have hsplit := congrArg (split c) ht
      rw [split_line t hu, split_line q hp] at hsplit
      exact (List.cons.inj hsplit).1
    · rintro rfl
      exact ⟨q, by simp⟩
  intro p
  induction p with
  | nil =>
      intro hp
      rw [List.nil_append, index]
      have hiff := hfront hp
      rw [List.nil_append] at hiff
      by_cases h : u = []
      · rw [if_pos (List.isPrefixOf_iff_prefix.mpr (hiff.mpr h)), if_pos (by simp [h]),
          List.length_nil, Nat.zero_sub]
      · rw [if_neg fun hpre => h (hiff.mp (List.isPrefixOf_iff_prefix.mp hpre)),
          if_neg fun hs => h (List.suffix_nil.mp hs)]
        congr 1
        funext i
        rw [List.length_nil]
        omega
  | cons d ds ih =>
      intro hp
      have hds : c ∉ ds := fun h => hp (List.mem_cons_of_mem d h)
      have hiff := hfront hp
      rw [List.cons_append] at hiff
      rw [List.cons_append, index]
      by_cases h : u = d :: ds
      · rw [if_pos (List.isPrefixOf_iff_prefix.mpr (hiff.mpr h)), if_pos (by simp [h]), h,
          Nat.sub_self]
      · rw [if_neg fun hpre => h (hiff.mp (List.isPrefixOf_iff_prefix.mp hpre)), ih hds]
        by_cases hs : u <:+ ds
        · have hlen := hs.length_le
          rw [if_pos hs, if_pos (List.suffix_cons_iff.mpr (.inr hs)), List.length_cons,
            Option.map_some]
          congr 1
          omega
        · rw [if_neg hs, if_neg fun hc => (List.suffix_cons_iff.mp hc).elim h hs,
            Option.map_map]
          congr 1
          funext i
          simp only [Function.comp, List.length_cons]
          omega

theorem take_index_byte {c : UInt8} : ∀ {s : GoString} {i : Nat}, index [c] s = some i →
    s.take i = s.takeWhile fun d => d ≠ c := by
  intro s
  induction s with
  | nil => intro i h; cases h
  | cons d ds ih =>
      intro i h
      rw [index] at h
      split at h
      · next hp =>
          cases h
          obtain ⟨t, ht⟩ := List.isPrefixOf_iff_prefix.mp hp
          cases ht
          simp
      · next hp =>
          obtain ⟨j, hj, rfl⟩ := Option.map_eq_some_iff.mp h
          have hd : d ≠ c := by
            rintro rfl
            exact hp (by simp)
          rw [List.take_succ_cons, ih hj, List.takeWhile_cons, if_pos (by simpa using hd)]

/-- What stands nowhere has no last occurrence. -/
theorem lastIndex_none {sub : GoString} (hne : sub ≠ []) : ∀ {s : GoString},
    (∀ a b, s = a ++ b → ¬ sub <+: b) → lastIndex sub s = none := by
  intro s
  induction s with
  | nil => intro _; rw [lastIndex, if_neg hne]
  | cons c cs ih =>
      intro h
      have hrest : lastIndex sub cs = none :=
        ih fun a b hab => h (c :: a) b (by rw [hab, List.cons_append])
      rw [lastIndex, hrest]
      simp only
      rw [if_neg fun hp => h [] (c :: cs) rfl (List.isPrefixOf_iff_prefix.mp hp)]

/-- A text that stands at the front and nowhere behind. -/
theorem lastIndex_front {sub z : GoString} (hne : sub ≠ [])
    (h : ∀ a b, sub ++ z = a ++ b → a ≠ [] → ¬ sub <+: b) :
    lastIndex sub (sub ++ z) = some 0 := by
  obtain ⟨c, cs, rfl⟩ := List.exists_cons_of_ne_nil hne
  have hrest : lastIndex (c :: cs) (cs ++ z) = none := by
    refine lastIndex_none hne fun a b hab => h (c :: a) b ?_ (List.cons_ne_nil c a)
    rw [List.cons_append, hab, List.cons_append]
  rw [List.cons_append, lastIndex, hrest]
  simp only
  rw [if_pos (by simp)]

/-- The parts of a text in front of another: what is in front only changes the first
of the other's parts, and adds parts before it. -/
theorem split_append {sep : UInt8} {q w : GoString} {ws : List GoString}
    (hq : split sep q = w :: ws) : ∀ p : GoString, ∃ init l,
    split sep (p ++ q) = init ++ (l ++ w) :: ws ∧ (init = [] → l = p) := by
  intro p
  induction p with
  | nil => exact ⟨[], [], by rw [List.nil_append, hq]; rfl, fun _ => rfl⟩
  | cons c p ih =>
      obtain ⟨init, l, heq, hl⟩ := ih
      rw [List.cons_append, split, heq]
      cases init with
      | nil =>
          simp only [List.nil_append]
          by_cases hc : c = sep
          · rw [if_pos hc]
            exact ⟨[[]], l, rfl, fun h => by cases h⟩
          · rw [if_neg hc]
            exact ⟨[], c :: l, rfl, fun _ => by rw [hl rfl]⟩
      | cons i is =>
          simp only [List.cons_append]
          by_cases hc : c = sep
          · rw [if_pos hc]
            exact ⟨[] :: i :: is, l, rfl, fun h => by cases h⟩
          · rw [if_neg hc]
            exact ⟨(c :: i) :: is, l, rfl, fun h => by cases h⟩

/-! ## A text put together from parts -/

theorem trimPrefix_append (p s : GoString) : trimPrefix (p ++ s) p = s := by
  have h : hasPrefix (p ++ s) p = true :=
    List.isPrefixOf_iff_prefix.mpr (List.prefix_append p s)
  rw [trimPrefix, if_pos h, List.drop_left]

theorem eq_append_of_hasPrefix {s p : GoString} (h : hasPrefix s p = true) :
    s = p ++ trimPrefix s p := by
  obtain ⟨t, rfl⟩ := List.isPrefixOf_iff_prefix.mp h
  rw [trimPrefix_append]

theorem trimSuffix_append (s p : GoString) : trimSuffix (s ++ p) p = s := by
  have h : hasSuffix (s ++ p) p = true :=
    List.isSuffixOf_iff_suffix.mpr (List.suffix_append s p)
  rw [trimSuffix, if_pos h, List.length_append, Nat.add_sub_cancel, List.take_left]

theorem eq_append_of_hasSuffix {s p : GoString} (h : hasSuffix s p = true) :
    s = trimSuffix s p ++ p := by
  obtain ⟨t, rfl⟩ := List.isSuffixOf_iff_suffix.mp h
  rw [trimSuffix_append]

/-- A text is its parts joined again. -/
theorem join_split (sep : UInt8) (s : GoString) : join sep (split sep s) = s := by
  induction s with
  | nil => rfl
  | cons c cs ih =>
      rw [split]
      cases hcs : split sep cs with
      | nil => exact absurd hcs (split_ne_nil sep cs)
      | cons w ws =>
          rw [hcs] at ih
          by_cases hc : c = sep
          · simp only [if_pos hc]
            rw [join, List.nil_append, ih, hc]
            exact List.cons_ne_nil w ws
          · simp only [if_neg hc]
            cases ws with
            | nil => rw [← ih]; rfl
            | cons w' ws' =>
                rw [← ih]
                rfl

theorem mem_of_mem_split {sep : UInt8} {s w : GoString} (h : w ∈ split sep s) :
    ∀ c ∈ w, c ∈ s := by
  induction s generalizing w with
  | nil =>
      rw [List.mem_singleton.mp h]
      exact fun c hc => hc
  | cons d ds ih =>
      intro c hc
      rw [split] at h
      split at h
      · next hnil => exact absurd hnil (split_ne_nil sep ds)
      · next w' ws hcs =>
          rw [hcs] at ih
          split at h
          · rcases List.mem_cons.mp h with rfl | h
            · cases hc
            · exact List.mem_cons_of_mem d (ih h c hc)
          · rcases List.mem_cons.mp h with rfl | h
            · rcases List.mem_cons.mp hc with rfl | hc
              · exact List.mem_cons_self
              · exact List.mem_cons_of_mem d (ih List.mem_cons_self c hc)
            · exact List.mem_cons_of_mem d (ih (List.mem_cons_of_mem w' h) c hc)

/-! ## White space -/

/-- No encoding stands at the front of the text or at its end. -/
def Tight (encs : List GoString) (w : GoString) : Prop :=
  ∀ e ∈ encs, ¬ e <+: w ∧ ¬ e <:+ w

theorem trimLeft_of_none {encs : List GoString} {w : GoString}
    (h : ∀ e ∈ encs, ¬ e <+: w) (fuel : Nat) : trimLeft encs fuel w = w := by
  cases fuel with
  | zero => rfl
  | succ fuel =>
      have hnone : (encs.find? fun e => e.isPrefixOf w) = none := by
        rw [List.find?_eq_none]
        intro e he
        rw [List.isPrefixOf_iff_prefix]
        exact h e he
      rw [trimLeft, hnone]

theorem trimSpace_tight {w : GoString} (h : Tight spaceEncodings w) :
    trimSpace w = w := by
  have hleft : trimLeft spaceEncodings w.length w = w :=
    trimLeft_of_none (fun e he => (h e he).1) _
  have hright : trimLeft (spaceEncodings.map List.reverse) w.length w.reverse =
      w.reverse := by
    refine trimLeft_of_none (fun r hr => ?_) _
    obtain ⟨e, he, rfl⟩ := List.mem_map.mp hr
    rw [List.reverse_prefix]
    exact (h e he).2
  unfold trimSpace
  simp only [hleft, hright, List.reverse_reverse]

/-- The scan of `FieldsFunc` never returns an empty word, nor one that holds an
encoding: there it would have been cut. `cur` is a part of the word that the
scan went over without finding one. -/
theorem fieldsFrom_free {encs : List GoString} :
    ∀ {s : GoString} {skip : Nat} {cur : GoString}, (skip ≠ 0 → cur = []) →
    (∀ e ∈ encs, ∀ a b, cur = a ++ b → b ≠ [] → ¬ e <+: b ++ s) →
    ∀ w ∈ fieldsFrom encs skip cur s,
      w ≠ [] ∧ ∀ e ∈ encs, e ≠ [] → ¬ e <:+: w := by
  have hword : ∀ {cur rest : GoString},
      (∀ e ∈ encs, ∀ a b, cur = a ++ b → b ≠ [] → ¬ e <+: b ++ rest) →
      ∀ w ∈ (if cur = [] then [] else [cur]),
        w ≠ [] ∧ ∀ e ∈ encs, e ≠ [] → ¬ e <:+: w := by
    intro cur rest hcur w hw
    split at hw
    · cases hw
    · next hne =>
        rw [List.mem_singleton.mp hw]
        refine ⟨hne, fun e he hene => ?_⟩
        rintro ⟨a, b, heq⟩
        rw [List.append_assoc] at heq
        refine hcur e he a (e ++ b) heq.symm (by simp [hene]) ?_
        rw [List.append_assoc]
        exact List.prefix_append e _
  have hnil : ∀ (rest : GoString), ∀ e ∈ encs, ∀ a b : GoString,
      [] = a ++ b → b ≠ [] → ¬ e <+: b ++ rest := by
    intro rest e he a b heq hb
    exact absurd (List.append_eq_nil_iff.mp heq.symm).2 hb
  intro s
  induction s with
  | nil =>
      intro skip cur hskip hcur w hw
      cases skip <;> exact hword hcur w hw
  | cons c cs ih =>
      intro skip cur hskip hcur w hw
      cases skip with
      | succ skip =>
          rw [hskip (by omega)] at hw
          exact ih (fun _ => rfl) (hnil cs) w hw
      | zero =>
          rw [fieldsFrom] at hw
          split at hw
          · rcases List.mem_append.mp hw with hw | hw
            · exact hword hcur w hw
            · exact ih (fun _ => rfl) (hnil cs) w hw
          · next hnone =>
              refine ih (fun h0 => absurd rfl h0) (fun e he a b heq hb => ?_) w hw
              obtain ⟨b', x, rfl⟩ := (List.eq_nil_or_concat b).resolve_left hb
              rw [List.concat_eq_append, ← List.append_assoc] at heq
              obtain ⟨hcur', hx⟩ := List.append_inj' heq rfl
              cases hx
              rw [List.concat_eq_append, List.append_assoc, List.singleton_append]
              by_cases hb' : b' = []
              · rw [hb', List.nil_append, ← List.isPrefixOf_iff_prefix]
                exact List.find?_eq_none.mp hnone e he
              · exact hcur e he a b' hcur' hb'

theorem fieldsOr_tight {c : UInt8} {s w : GoString} (h : w ∈ fieldsOr c s) :
    w ≠ [] ∧ Tight spaceEncodings w := by
  obtain ⟨hne, hfree⟩ := fieldsFrom_free (fun h0 => absurd rfl h0)
    (fun e _ a b heq hb => absurd (List.append_eq_nil_iff.mp heq.symm).2 hb) w h
  have hnonempty : ∀ e ∈ spaceEncodings, e ≠ [] := by decide
  refine ⟨hne, fun e he => ?_⟩
  have hinfix := hfree e (List.mem_cons_of_mem _ he) (hnonempty e he)
  exact ⟨fun hp => hinfix hp.isInfix, fun hs => hinfix hs.isInfix⟩

/-- A text that shares no byte with any white space. -/
theorem tight_of_not_mem {w : GoString} (h : ∀ e ∈ spaceEncodings, ∀ c ∈ e, c ∉ w) :
    Tight spaceEncodings w := by
  intro e he
  have hnonempty : ∀ e ∈ spaceEncodings, e ≠ [] := by decide
  obtain ⟨c, hc⟩ := List.exists_mem_of_ne_nil e (hnonempty e he)
  exact ⟨fun hp => h e he c hc (hp.subset hc), fun hs => h e he c hc (hs.subset hc)⟩

theorem trimSpace_numeral {s : GoString} {n : Nat} (h : Numeral s n) : trimSpace s = s := by
  have hspace : ∀ c ∈ spaceEncodings.flatten, ¬(48 ≤ c ∧ c ≤ 57) :=
    List.all_iff_forall_prop.mp (by decide)
  exact trimSpace_tight (tight_of_not_mem fun e he c hc =>
    h.not_mem (hspace c (List.mem_flatten_of_mem he hc)))

/-! ## A word with white space around it -/

/-- A tab, a line feed or a blank. -/
def Blank (s : GoString) : Prop := ∀ c ∈ s, c = 9 ∨ c = 10 ∨ c = 32

instance (s : GoString) : Decidable (Blank s) :=
  List.decidableBAll (fun c => c = 9 ∨ c = 10 ∨ c = 32) s

theorem solid_of_head {encs : List GoString} {w : GoString} (hne : w ≠ [])
    (h : Solid encs w) (rest : GoString) : ∀ e ∈ encs, ¬ e <+: w ++ rest := by
  intro e he hp
  obtain ⟨c, cs, rfl⟩ := List.exists_cons_of_ne_nil hne
  obtain ⟨hhead, hene⟩ := h c List.mem_cons_self e he
  obtain ⟨d, ds, rfl⟩ := List.exists_cons_of_ne_nil hene
  have hdc := (List.cons_prefix_cons.mp hp).1
  exact hhead (by rw [hdc]; rfl)

theorem trimLeft_blank {encs : List GoString}
    (hencs : ∀ c : UInt8, c = 9 ∨ c = 10 ∨ c = 32 → ∀ s : GoString,
      encs.find? (fun e => e.isPrefixOf (c :: s)) = some [c]) {t : GoString}
    (ht : ∀ e ∈ encs, ¬ e <+: t) : ∀ {a : GoString} {fuel : Nat}, Blank a →
    a.length ≤ fuel → trimLeft encs fuel (a ++ t) = t := by
  intro a
  induction a with
  | nil => intro fuel _ _; exact trimLeft_of_none ht fuel
  | cons c cs ih =>
      intro fuel hblank hfuel
      cases fuel with
      | zero => exact absurd hfuel (Nat.not_succ_le_zero _)
      | succ fuel =>
          rw [List.cons_append, trimLeft, hencs c (hblank c List.mem_cons_self)]
          exact ih (fun d hd => hblank d (List.mem_cons_of_mem c hd))
            (Nat.le_of_succ_le_succ hfuel)

theorem find?_blank (c : UInt8) (h : c = 9 ∨ c = 10 ∨ c = 32) (s : GoString) :
    spaceEncodings.find? (fun e => e.isPrefixOf (c :: s)) = some [c] ∧
      (spaceEncodings.map List.reverse).find? (fun e => e.isPrefixOf (c :: s)) =
        some [c] := by
  rcases h with rfl | rfl | rfl <;> exact ⟨rfl, rfl⟩

/-- The white space around a word is trimmed, and nothing else. -/
theorem trimSpace_padded {a w b : GoString} (ha : Blank a) (hb : Blank b)
    (hne : w ≠ []) (hleft : Solid spaceEncodings w)
    (hright : Solid (spaceEncodings.map List.reverse) w) :
    trimSpace (a ++ (w ++ b)) = w := by
  have hfront : trimLeft spaceEncodings (a ++ (w ++ b)).length (a ++ (w ++ b)) = w ++ b :=
    trimLeft_blank (fun c hc s => (find?_blank c hc s).1) (solid_of_head hne hleft b) ha
      (by rw [List.length_append]; exact Nat.le_add_right _ _)
  have hrev : Solid (spaceEncodings.map List.reverse) w.reverse :=
    fun c hc => hright c (List.mem_reverse.mp hc)
  have hend := solid_of_head (fun h => hne (List.reverse_eq_nil_iff.mp h)) hrev []
  rw [List.append_nil] at hend
  have hback : trimLeft (spaceEncodings.map List.reverse) (w ++ b).length
      (w ++ b).reverse = w.reverse := by
    rw [List.reverse_append]
    exact trimLeft_blank (fun c hc s => (find?_blank c hc s).2) hend
      (fun c hc => hb c (List.mem_reverse.mp hc))
      (by rw [List.length_reverse, List.length_append]; exact Nat.le_add_left _ _)
  unfold trimSpace
  simp only [hfront, hback, List.reverse_reverse]

/-! ## What is trimmed -/

theorem mem_trimLeft {encs : List GoString} {c : UInt8} (h : ∀ e ∈ encs, c ∉ e) :
    ∀ {fuel : Nat} {s : GoString}, c ∈ s → c ∈ trimLeft encs fuel s := by
  intro fuel
  induction fuel with
  | zero => intro s hs; exact hs
  | succ fuel ih =>
      intro s hs
      rw [trimLeft]
      split
      · next e he =>
          have hp : e <+: s := by simpa using List.find?_some he
          obtain ⟨t, rfl⟩ := hp
          rw [List.drop_left]
          exact ih ((List.mem_append.mp hs).resolve_left (h e (List.mem_of_find?_eq_some he)))
      · exact hs

/-- A byte of no white space is not trimmed. -/
theorem mem_trimSpace {c : UInt8} {s : GoString} (h : ∀ e ∈ spaceEncodings, c ∉ e)
    (hs : c ∈ s) : c ∈ trimSpace s := by
  have hrev : ∀ e ∈ spaceEncodings.map List.reverse, c ∉ e := by
    intro r hr
    obtain ⟨e, he, rfl⟩ := List.mem_map.mp hr
    exact fun hc => h e he (List.mem_reverse.mp hc)
  unfold trimSpace
  exact List.mem_reverse.mpr (mem_trimLeft hrev (List.mem_reverse.mpr (mem_trimLeft h hs)))

theorem trimSpace_blank {s : GoString} (h : Blank s) : trimSpace s = [] := by
  have hno : ∀ e ∈ spaceEncodings, ¬ e <+: ([] : GoString) := by decide
  have hfront : trimLeft spaceEncodings s.length s = [] := by
    have := trimLeft_blank (fun c hc s => (find?_blank c hc s).1) hno h (Nat.le_refl _)
    rwa [List.append_nil] at this
  unfold trimSpace
  rw [hfront]
  rfl

end Go
