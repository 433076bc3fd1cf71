import Mathlib.Data.List.Basic

/-!
# Command lines

A program that runs another one takes its own options first and the other's command line
behind a stop word. Read from the left, a word is an option, with or without a value, and the
word behind an option that takes a value is its value whatever it looks like. So a list of
options that was spelled word by word is read back as it was meant, and what follows the stop
word is not looked at. The words of the options may come from anywhere; the spelling only has
to say at each option which one it is.

How a program reads the rest of its words does not matter for this. A `Reader` of a syntax is
any function that does so with the words of the syntax, one at a time.
-/

namespace CommandLine

variable {A O : Type*}

/-- The words that are options, and which of them take a value. -/
structure Syntax (A O : Type*) where
  stop : A
  find : A → Option O
  takesValue : O → Bool

/-- An option as it was given. -/
inductive Given (O A : Type*) where
  | flag (o : O)
  | pair (o : O) (value : A)
deriving DecidableEq, Repr

/-- A function that reads the words of the syntax off the front of a command line: the stop
word ends the options, and an option is put before those that are read off the rest. -/
structure Syntax.Reader (S : Syntax A O)
    (reads : List A → Option (List (Given O A) × List A)) : Prop where
  stop : ∀ cmd, reads (S.stop :: cmd) = some ([], cmd)
  flag : ∀ a o rest, a ≠ S.stop → S.find a = some o → S.takesValue o = false →
    reads (a :: rest) = (reads rest).map fun r => (.flag o :: r.1, r.2)
  pair : ∀ a o value rest, a ≠ S.stop → S.find a = some o → S.takesValue o = true →
    reads (a :: value :: rest) = (reads rest).map fun r => (.pair o value :: r.1, r.2)

/-- The one that knows no other words: nothing is read off a command line with an unknown
option, with a value missing or without the stop word. -/
def Syntax.read [DecidableEq A] (S : Syntax A O) : List A → Option (List (Given O A) × List A)
  | [] => none
  | a :: rest =>
      if a = S.stop then some ([], rest)
      else
        match S.find a with
        | none => none
        | some o =>
            if S.takesValue o then
              match rest with
              | [] => none
              | value :: rest => (S.read rest).map fun r => (.pair o value :: r.1, r.2)
            else (S.read rest).map fun r => (.flag o :: r.1, r.2)

/-- The words are the options, each in one of its spellings. -/
inductive Syntax.Spells (S : Syntax A O) : List A → List (Given O A) → Prop
  | nil : Spells S [] []
  | flag {a : A} {o : O} {as : List A} {os : List (Given O A)} (hstop : a ≠ S.stop)
      (hfind : S.find a = some o) (hvalue : S.takesValue o = false) (h : Spells S as os) :
      Spells S (a :: as) (.flag o :: os)
  | pair {a value : A} {o : O} {as : List A} {os : List (Given O A)} (hstop : a ≠ S.stop)
      (hfind : S.find a = some o) (hvalue : S.takesValue o = true) (h : Spells S as os) :
      Spells S (a :: value :: as) (.pair o value :: os)

variable {S : Syntax A O} {as bs : List A} {os ps : List (Given O A)}

theorem Syntax.Spells.append (ha : S.Spells as os) (hb : S.Spells bs ps) :
    S.Spells (as ++ bs) (os ++ ps) := by
  induction ha with
  | nil => exact hb
  | flag hstop hfind hvalue _ ih => exact .flag hstop hfind hvalue ih
  | pair hstop hfind hvalue _ ih => exact .pair hstop hfind hvalue ih

/-- A spelled list of options is read back, and the command behind it is left alone. -/
theorem Syntax.Spells.reads {reads : List A → Option (List (Given O A) × List A)}
    (hr : S.Reader reads) (h : S.Spells as os) (cmd : List A) :
    reads (as ++ S.stop :: cmd) = some (os, cmd) := by
  induction h with
  | nil => exact hr.stop cmd
  | flag hstop hfind hvalue _ ih =>
      rw [List.cons_append, hr.flag _ _ _ hstop hfind hvalue, ih, Option.map_some]
  | pair hstop hfind hvalue _ ih =>
      rw [List.cons_append, List.cons_append, hr.pair _ _ _ _ hstop hfind hvalue, ih,
        Option.map_some]

theorem Syntax.reader_read [DecidableEq A] (S : Syntax A O) : S.Reader S.read where
  stop := fun cmd => by rw [Syntax.read, if_pos rfl]
  flag := fun a o rest hstop hfind hvalue => by
    rw [Syntax.read, if_neg hstop, hfind]
    simp [hvalue]
  pair := fun a o value rest hstop hfind hvalue => by
    rw [Syntax.read, if_neg hstop, hfind]
    simp [hvalue]

/-! ## What is given -/

section

variable [DecidableEq O]

/-- The options of a kind that were given with a value, in their order. -/
def pairsOf (kind : O → Bool) (os : List (Given O A)) : List (O × A) :=
  os.filterMap fun
    | .flag _ => none
    | .pair o value => if kind o then some (o, value) else none

/-- The values of one option. -/
def valuesOf (o : O) (os : List (Given O A)) : List A :=
  (pairsOf (fun p => p = o) os).map Prod.snd

def flagged (o : O) (os : List (Given O A)) : Bool :=
  os.any fun
    | .flag p => p = o
    | .pair _ _ => false

omit [DecidableEq O] in
theorem pairsOf_append (kind : O → Bool) (os ps : List (Given O A)) :
    pairsOf kind (os ++ ps) = pairsOf kind os ++ pairsOf kind ps := List.filterMap_append

/-- Of one option, the values say it all. -/
theorem pairsOf_one (o : O) (os : List (Given O A)) :
    pairsOf (fun p => p = o) os = (valuesOf o os).map fun value => (o, value) := by
  have hfst : ∀ r ∈ pairsOf (fun p => p = o) os, r.1 = o := by
    intro r hr
    obtain ⟨g, -, hg⟩ := List.mem_filterMap.mp hr
    cases g with
    | flag p => cases hg
    | pair p value =>
        simp only [Option.ite_none_right_eq_some, Option.some.injEq, decide_eq_true_eq] at hg
        exact hg.2 ▸ hg.1
  rw [valuesOf, List.map_map]
  refine (List.map_id _).symm.trans (List.map_congr_left fun r hr => ?_)
  exact Prod.ext (hfst r hr) rfl

theorem valuesOf_append (o : O) (os ps : List (Given O A)) :
    valuesOf o (os ++ ps) = valuesOf o os ++ valuesOf o ps := by
  rw [valuesOf, pairsOf_append, List.map_append]
  rfl

theorem flagged_append (o : O) (os ps : List (Given O A)) :
    flagged o (os ++ ps) = (flagged o os || flagged o ps) := List.any_append

end

end CommandLine
