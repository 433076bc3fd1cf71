import Goboxd.Proofs.SeccompAdditive

/-!
# Which policies are read as they are written

A policy text of the embedded file's shape, with any entries and any comments, and
what `parseGlobalPolicyBytes` makes of it. The parser looks for three words before it
removes a comment, and each of them can be found too early: `POLICY` in a comment of
the header, the opening of the block at the end of the policy's own name, and the
brace that closes the block in a comment of it.

The last is where entries are lost. Up to the brace the text is taken for the block,
so what is read are the entries in front of the first comment with a brace in it.
Nothing is lost exactly when no entry stands behind one.
-/

namespace Goboxd.Seccomp

open Go

/-! ## The shape -/

/-- A piece of what may stand between two entries: white space, or a comment and the
end of its line. -/
inductive Piece where
  | blank (s : GoString) (h : Blank s)
  | comment (t : GoString) (h : 10 ∉ t)

def Piece.text : Piece → GoString
  | .blank s _ => s
  | .comment t _ => bytes "//" ++ t ++ [10]

abbrev Gap := List Piece

def gapText (g : Gap) : GoString := g.flatMap Piece.text

def comments (g : Gap) : List GoString :=
  g.filterMap fun p =>
    match p with
    | .blank _ _ => none
    | .comment t _ => some t

/-- An entry, what stands between it and its comma, and between that and the next
entry. Every name of kafel's table and every `SYSCALL[n]` is plain (`plain_of_valid`). -/
structure Item where
  entry : GoString
  plain : Plain entry
  after : Gap
  next : Gap

def itemsText : List Item → GoString
  | [] => []
  | [it] => it.entry ++ (gapText it.after ++ gapText it.next)
  | it :: rest => it.entry ++ (gapText it.after ++ 44 :: (gapText it.next ++ itemsText rest))

def headerText (cs : List GoString) : GoString := cs.flatMap fun t => bytes "//" ++ t ++ [10]

/-- A policy of the embedded file's shape. -/
structure PolicyText where
  header : List GoString
  lines : ∀ t ∈ header, 10 ∉ t
  name : GoString
  plain : Plain name
  nameGap : GoString
  openGap : GoString
  lead : Gap
  items : List Item
  closeGap : GoString
  useGap : GoString
  action : GoString
  endGap : GoString
  blanks : ∀ g ∈ [nameGap, openGap, closeGap, useGap, endGap], Blank g
  /-- A word. -/
  word : action ≠ [] ∧ Solid spaceEncodings action ∧
    Solid (spaceEncodings.map List.reverse) action

def PolicyText.block (p : PolicyText) : GoString := gapText p.lead ++ itemsText p.items

/-- What stands behind the block. -/
def PolicyText.tail (p : PolicyText) : GoString :=
  p.closeGap ++ bytes "\x7d" ++ p.useGap ++ useTail p.name ++ p.action ++ p.endGap

def PolicyText.text (p : PolicyText) : GoString :=
  headerText p.header ++ bytes "POLICY " ++ p.name ++ p.nameGap ++ bytes "\x7b" ++
    p.openGap ++ bytes "DENY \x7b" ++ p.block ++ bytes "\x7d" ++ p.tail

/-- What a policy says. -/
def PolicyText.meaning (p : PolicyText) : GlobalPolicy where
  names := p.items.map Item.entry
  header := headerText p.header
  name := p.name
  defAction := p.action

/-- The comments that an entry stands behind. -/
def PolicyText.commentsBefore (p : PolicyText) : List GoString :=
  if p.items = [] then []
  else comments p.lead ++ p.items.dropLast.flatMap fun it => comments it.after ++ comments it.next

/-- None of the three words is found too early. -/
structure PolicyText.Readable (p : PolicyText) : Prop where
  header : ∀ t ∈ p.header, ¬ bytes "POLICY " <:+: t
  name : ¬ (bytes "DENY" <:+ p.name ∧ p.nameGap = bytes " ")
  block : ∀ t ∈ p.commentsBefore, 125 ∉ t

/-! ## The embedded policy is one -/

def newLine : Gap := [.blank (bytes "\n\t\t") (by decide)]

def newLineNote (t : GoString) (h : 10 ∉ t) : Gap :=
  newLine ++ [.comment t h, .blank (bytes "\t\t") (by decide)]

/-- What stands behind each entry of the embedded policy and its comma. -/
def policyGaps : List Gap :=
  [newLine, newLine, newLine, newLine,
    newLineNote (bytes " Process debugging / injection") (by decide),
    newLineNote (bytes " Kernel module tampering") (by decide),
    newLine, newLine, newLine,
    newLineNote (bytes " Kernel execution tampering") (by decide),
    newLine, newLine, newLine,
    newLineNote (bytes " System identity tampering") (by decide),
    newLine, newLineNote (bytes " I/O port manipulation") (by decide),
    newLine, newLineNote (bytes " Swapping") (by decide),
    newLine, newLineNote (bytes " BPF programming") (by decide),
    [.blank (bytes "\n\t") (by decide)]]

def embeddedText : PolicyText where
  header :=
    [" goboxd seccomp policy",
      " Blocks syscalls that could be used for sandbox escape or kernel tampering.",
      " All other syscalls are allowed (DEFAULT ALLOW) so normal code execution works.",
      "",
      " NOTE: kafel (nsjail's bundled seccomp policy language) is frozen upstream",
      " and its amd64 syscall table is missing umount2. SYSCALL[166] is umount2",
      " (and umount) on x86_64, which is the only architecture goboxd targets."].map bytes
  lines := by decide
  name := bytes "goboxd"
  plain := ⟨by decide, List.all_iff_forall_prop.mp (by decide)⟩
  nameGap := bytes " "
  openGap := bytes "\n\t"
  lead := newLineNote (bytes " Filesystem escape") (by decide)
  items := (globalPolicy.names.attach.zip policyGaps).map fun x =>
    { entry := x.1.1
      plain := globalPolicy_names.2 x.1.1 x.1.2
      after := []
      next := x.2 }
  closeGap := bytes "\n"
  useGap := bytes "\n\n"
  action := bytes "ALLOW"
  endGap := bytes "\n"
  blanks := by decide
  word := by decide

theorem embeddedText_text : embeddedText.text = policy := by decide +kernel

theorem embeddedText_readable : embeddedText.Readable :=
  ⟨by decide +kernel, by decide +kernel, by decide +kernel⟩

/-! ## Comments -/

/-- The text of a block without its comments. -/
def stripComments (body : GoString) : GoString := join 10 ((split 10 body).map stripComment)

/-- The entries of a text without comments. -/
def entriesOf (clean : GoString) : List GoString :=
  ((split 44 clean).map trimSpace).filter fun n => n ≠ []

theorem denyEntries_eq (body : GoString) : denyEntries body = entriesOf (stripComments body) := rfl

theorem join_cons_cons (sep c : UInt8) (w : GoString) (ws : List GoString) :
    join sep ((c :: w) :: ws) = c :: join sep (w :: ws) := by
  cases ws <;> rfl

theorem stripComment_cons {c : UInt8} (hc : c ≠ 47) (w : GoString) :
    stripComment (c :: w) = c :: stripComment w := by
  have hsub : bytes "//" = [47, 47] := by decide
  have hp : ¬ ([47, 47] : GoString).isPrefixOf (c :: w) = true := by
    simp [List.isPrefixOf, hc.symm]
  rw [stripComment, stripComment, hsub, index, if_neg hp]
  cases index [47, 47] w <;> rfl

theorem stripComment_slashes (t : GoString) : stripComment (bytes "//" ++ t) = [] := by
  have hsub : bytes "//" = [47, 47] := by decide
  rw [stripComment, hsub, List.cons_append, index, if_pos (by simp)]
  rfl

theorem stripComments_append {a : GoString} (h : 47 ∉ a) (s : GoString) :
    stripComments (a ++ s) = a ++ stripComments s := by
  induction a with
  | nil => rfl
  | cons c cs ih =>
      have hc : c ≠ 47 := fun hc => h (hc ▸ List.mem_cons_self)
      rw [List.cons_append, List.cons_append, ← ih fun hm => h (List.mem_cons_of_mem c hm),
        stripComments, stripComments, split]
      cases hcs : split 10 (cs ++ s) with
      | nil => exact absurd hcs (split_ne_nil 10 _)
      | cons w ws =>
          by_cases hten : c = 10
          · simp only [if_pos hten, List.map_cons]
            rw [hten]
            rfl
          · simp only [if_neg hten, List.map_cons]
            rw [stripComment_cons hc, join_cons_cons]

theorem stripComments_line {t : GoString} (h : 10 ∉ t) (s : GoString) :
    stripComments (bytes "//" ++ t ++ 10 :: s) = 10 :: stripComments s := by
  have hline : 10 ∉ bytes "//" ++ t := by
    rw [List.mem_append, not_or]
    exact ⟨by decide, h⟩
  rw [stripComments, split_line s hline, List.map_cons, stripComment_slashes, stripComments]
  cases hs : split 10 s with
  | nil => exact absurd hs (split_ne_nil 10 s)
  | cons w ws => rfl

theorem stripComments_open {t : GoString} (h : 10 ∉ t) :
    stripComments (bytes "//" ++ t) = [] := by
  have hline : 10 ∉ bytes "//" ++ t := by
    rw [List.mem_append, not_or]
    exact ⟨by decide, h⟩
  rw [stripComments, split_self hline, List.map_singleton, stripComment_slashes]
  rfl

/-! ## The block up to its first brace -/

/-- What the parser takes for the block. -/
def upTo (s : GoString) : GoString := s.takeWhile fun c => c ≠ 125

theorem upTo_append {a : GoString} (h : 125 ∉ a) (s : GoString) :
    upTo (a ++ s) = a ++ upTo s :=
  List.takeWhile_append_of_pos fun _ hc => decide_eq_true fun heq => h (heq ▸ hc)

theorem upTo_brace (a s : GoString) : upTo (a ++ 125 :: s) = upTo a := by
  induction a with
  | nil => rfl
  | cons c cs ih =>
      unfold upTo at ih ⊢
      rw [List.cons_append, List.takeWhile_cons, List.takeWhile_cons, ih]

theorem upTo_append_mem {a : GoString} (h : 125 ∈ a) (s : GoString) :
    upTo (a ++ s) = upTo a := by
  obtain ⟨x, y, rfl⟩ := List.append_of_mem h
  rw [List.append_assoc, List.cons_append, upTo_brace, upTo_brace]

theorem blank_not_mem {s : GoString} (h : Blank s) {c : UInt8}
    (hc : c ≠ 9 ∧ c ≠ 10 ∧ c ≠ 32) : c ∉ s := by
  intro hm
  rcases h c hm with h | h | h
  · exact hc.1 h
  · exact hc.2.1 h
  · exact hc.2.2 h

theorem blank_append {a b : GoString} (ha : Blank a) (hb : Blank b) : Blank (a ++ b) :=
  fun c hc => (List.mem_append.mp hc).elim (ha c) (hb c)

theorem gapText_cons (p : Piece) (g : Gap) : gapText (p :: g) = p.text ++ gapText g :=
  List.flatMap_cons

theorem gapText_append (g h : Gap) : gapText (g ++ h) = gapText g ++ gapText h :=
  List.flatMap_append

/-- A gap has a brace where one of its comments has. -/
theorem brace_mem_gapText {g : Gap} : 125 ∈ gapText g ↔ ∃ t ∈ comments g, 125 ∈ t := by
  induction g with
  | nil => simp [gapText, comments]
  | cons p g ih =>
      rw [gapText_cons, List.mem_append, ih]
      cases p with
      | blank s h =>
          have hno : 125 ∉ s := blank_not_mem h (by decide)
          simp [Piece.text, comments, hno]
      | comment t h =>
          have hslash : (125 : UInt8) ∉ bytes "//" := by decide
          simp [Piece.text, comments, hslash]

/-- What is left of a gap is white space; behind a brace in it nothing is left. -/
theorem strip_gap : ∀ g : Gap, ∃ b, Blank b ∧ ∀ s, stripComments (upTo (gapText g ++ s)) =
    if 125 ∈ gapText g then b else b ++ stripComments (upTo s) := by
  intro g
  induction g with
  | nil => exact ⟨[], by simp [Blank], fun s => by simp [gapText]⟩
  | cons p g ih =>
      obtain ⟨b, hb, heq⟩ := ih
      cases p with
      | blank w h =>
          have hbrace : 125 ∉ w := blank_not_mem h (by decide)
          have hslash : 47 ∉ w := blank_not_mem h (by decide)
          refine ⟨w ++ b, blank_append h hb, fun s => ?_⟩
          rw [gapText_cons, Piece.text, List.append_assoc, upTo_append hbrace,
            stripComments_append hslash, heq]
          simp only [List.mem_append, hbrace, false_or]
          split
          · rfl
          · rw [List.append_assoc]
      | comment t h =>
          have hslash : (125 : UInt8) ∉ bytes "//" := by decide
          by_cases ht : 125 ∈ t
          · refine ⟨[], by simp [Blank], fun s => ?_⟩
            have hopen : 10 ∉ upTo t := fun hm => h ((List.takeWhile_subset _) hm)
            rw [gapText_cons, Piece.text]
            simp only [List.append_assoc]
            rw [upTo_append hslash, upTo_append_mem ht, stripComments_open hopen, if_pos]
            simp [ht]
          · refine ⟨10 :: b, fun c hc => ?_, fun s => ?_⟩
            · rcases List.mem_cons.mp hc with rfl | hc
              · exact .inr (.inl rfl)
              · exact hb c hc
            · have hline : 125 ∉ bytes "//" ++ t ++ [10] := by
                simp [hslash, ht]
              rw [gapText_cons, Piece.text, List.append_assoc, upTo_append hline,
                List.append_assoc _ [10], List.singleton_append, stripComments_line h, heq]
              simp only [List.mem_append, hslash, ht, false_or, List.mem_singleton]
              have hten : ¬ (125 : UInt8) = 10 := by decide
              simp only [hten, false_or]
              split <;> rfl

/-! ## The entries in front of the first brace -/

/-- The entries that no comment with a brace stands in front of. -/
def keptItems : List Item → List GoString
  | [] => []
  | it :: rest =>
      it.entry :: (if 125 ∈ gapText it.after ∨ 125 ∈ gapText it.next then [] else keptItems rest)

def PolicyText.kept (p : PolicyText) : List GoString :=
  if 125 ∈ gapText p.lead then [] else keptItems p.items

theorem Plain.not_mem {w : GoString} (h : Plain w) {c : UInt8} (hc : plainByte c = false) :
    c ∉ w :=
  fun hm => plain_ne (h.2 c hm) hc rfl

theorem entriesOf_blank {b : GoString} (h : Blank b) : entriesOf b = [] := by
  rw [entriesOf, split_self (blank_not_mem h (by decide)), List.map_singleton,
    trimSpace_blank h]
  rfl

theorem comma_not_mem {a w b : GoString} (hw : Plain w) (ha : Blank a) (hb : Blank b) :
    44 ∉ a ++ (w ++ b) := by
  rw [List.mem_append, List.mem_append, not_or, not_or]
  exact ⟨blank_not_mem ha (by decide), hw.not_mem (by decide), blank_not_mem hb (by decide)⟩

theorem entriesOf_last {a w b : GoString} (hw : Plain w) (ha : Blank a) (hb : Blank b) :
    entriesOf (a ++ (w ++ b)) = [w] := by
  rw [entriesOf, split_self (comma_not_mem hw ha hb), List.map_singleton, hw.trimmed ha hb]
  simp [hw.1]

theorem entriesOf_comma {a w b : GoString} (hw : Plain w) (ha : Blank a) (hb : Blank b)
    (s : GoString) : entriesOf (a ++ (w ++ b) ++ 44 :: s) = w :: entriesOf s := by
  rw [entriesOf, split_line s (comma_not_mem hw ha hb), List.map_cons, hw.trimmed ha hb]
  exact List.filter_cons_of_pos (p := fun n : GoString => decide (n ≠ [])) (decide_eq_true hw.1)

/-- The text of an entry goes through the parser as it is. -/
theorem strip_entry {w : GoString} (hw : Plain w) (s : GoString) :
    stripComments (upTo (w ++ s)) = w ++ stripComments (upTo s) := by
  rw [upTo_append (hw.not_mem (by decide)), stripComments_append (hw.not_mem (by decide))]

theorem strip_comma (s : GoString) :
    stripComments (upTo (44 :: s)) = 44 :: stripComments (upTo s) := by
  have hplain : upTo (44 :: s) = [44] ++ upTo s := upTo_append (a := [44]) (by decide) s
  rw [hplain, stripComments_append (by decide)]
  rfl

theorem entriesOf_items : ∀ {items : List Item} {lead : GoString}, Blank lead →
    entriesOf (lead ++ stripComments (upTo (itemsText items))) = keptItems items := by
  intro items
  induction items with
  | nil =>
      intro lead hlead
      have hnil : stripComments (upTo (itemsText [])) = [] := rfl
      rw [hnil, List.append_nil, entriesOf_blank hlead]
      rfl
  | cons it rest ih =>
      intro lead hlead
      cases rest with
      | nil =>
          obtain ⟨b, hb, heq⟩ := strip_gap (it.after ++ it.next)
          have hrest : stripComments (upTo (gapText it.after ++ gapText it.next)) = b := by
            have hend : stripComments (upTo []) = [] := rfl
            have hgap := heq []
            rw [hend, List.append_nil, List.append_nil, ite_self, gapText_append] at hgap
            exact hgap
          rw [itemsText, strip_entry it.plain, hrest, entriesOf_last it.plain hlead hb,
            keptItems, keptItems, ite_self]
      | cons it' rest =>
          obtain ⟨b, hb, heq⟩ := strip_gap it.after
          obtain ⟨b', hb', heq'⟩ := strip_gap it.next
          rw [itemsText, strip_entry it.plain, heq, keptItems]
          · by_cases hafter : 125 ∈ gapText it.after
            · rw [if_pos hafter, if_pos (.inl hafter), entriesOf_last it.plain hlead hb]
            · rw [if_neg hafter, strip_comma, heq', ← List.append_assoc it.entry,
                ← List.append_assoc lead, entriesOf_comma it.plain hlead hb]
              by_cases hnext : 125 ∈ gapText it.next
              · rw [if_pos hnext, if_pos (.inr hnext), entriesOf_blank hb']
              · rw [if_neg hnext, if_neg (not_or.mpr ⟨hafter, hnext⟩), ih hb']
          · intro h
            cases h

/-- What the parser reads of a block. -/
theorem denyEntries_block (p : PolicyText) : denyEntries (upTo p.block) = p.kept := by
  obtain ⟨b, hb, heq⟩ := strip_gap p.lead
  rw [denyEntries_eq, PolicyText.block, heq, PolicyText.kept]
  split
  · exact entriesOf_blank hb
  · exact entriesOf_items hb

theorem keptItems_eq_iff : ∀ {items : List Item}, keptItems items = items.map Item.entry ↔
    ∀ it ∈ items.dropLast, 125 ∉ gapText it.after ∧ 125 ∉ gapText it.next := by
  intro items
  induction items with
  | nil => simp [keptItems]
  | cons it rest ih =>
      cases rest with
      | nil => simp [keptItems]
      | cons it' rest =>
          rw [keptItems, List.map_cons, List.cons_eq_cons, List.dropLast_cons_cons,
            List.forall_mem_cons, ← not_or]
          by_cases h : 125 ∈ gapText it.after ∨ 125 ∈ gapText it.next
          · rw [if_pos h]
            simp [h]
          · rw [if_neg h, ih]
            simp [h]

/-- All entries are read when none stands behind a comment with a brace, and only
then. -/
theorem kept_eq_iff (p : PolicyText) :
    p.kept = p.items.map Item.entry ↔ ∀ t ∈ p.commentsBefore, 125 ∉ t := by
  have hgap : ∀ g : Gap, 125 ∉ gapText g ↔ ∀ t ∈ comments g, 125 ∉ t := by
    intro g
    rw [brace_mem_gapText]
    simp
  rw [PolicyText.kept, PolicyText.commentsBefore]
  by_cases hnil : p.items = []
  · rw [hnil, if_pos rfl]
    simp [keptItems]
  · rw [if_neg hnil]
    have hitems : (∀ t ∈ p.items.dropLast.flatMap fun it => comments it.after ++ comments it.next,
        125 ∉ t) ↔ keptItems p.items = p.items.map Item.entry := by
      rw [keptItems_eq_iff]
      simp only [hgap, List.mem_flatMap, List.mem_append]
      constructor
      · intro h it hit
        exact ⟨fun t ht => h t ⟨it, hit, .inl ht⟩, fun t ht => h t ⟨it, hit, .inr ht⟩⟩
      · rintro h t ⟨it, hit, ht | ht⟩
        · exact (h it hit).1 t ht
        · exact (h it hit).2 t ht
    rw [List.forall_mem_append, hitems, ← hgap]
    by_cases hlead : 125 ∈ gapText p.lead
    · have hne : ¬ ([] : List GoString) = p.items.map Item.entry := by
        intro h
        exact hnil (List.map_eq_nil_iff.mp h.symm)
      rw [if_pos hlead]
      simp [hlead, hne]
    · rw [if_neg hlead]
      simp [hlead]

/-! ## Where the words are found -/

theorem policy_ne : bytes "POLICY " ≠ [] := by decide

theorem policy_not_slashed {t : GoString} (h : ¬ bytes "POLICY " <:+: t) :
    ¬ bytes "POLICY " <:+: bytes "//" ++ t := by
  have hslash : bytes "//" = [47, 47] := by decide
  obtain ⟨c, cs, hp, hc⟩ : ∃ c cs, bytes "POLICY " = c :: cs ∧ c ≠ 47 :=
    ⟨80, _, rfl, by decide⟩
  rw [hp] at h ⊢
  rw [hslash, List.cons_append, List.cons_append, List.infix_cons_iff, List.infix_cons_iff,
    List.cons_prefix_cons, List.cons_prefix_cons]
  rintro (⟨heq, -⟩ | ⟨heq, -⟩ | hin)
  · exact hc heq
  · exact hc heq
  · exact h hin

/-- A header without the word is gone over. -/
theorem index_header (z : GoString) : ∀ {header : List GoString},
    (∀ t ∈ header, ¬ bytes "POLICY " <:+: t) →
    index (bytes "POLICY ") (headerText header ++ z) =
      (index (bytes "POLICY ") z).map fun i => (headerText header).length + i := by
  intro header
  induction header with
  | nil =>
      intro _
      rw [headerText, List.flatMap_nil, List.nil_append, List.length_nil]
      simp
  | cons t header ih =>
      intro h
      have hten : (10 : UInt8) ∉ bytes "POLICY " := by decide
      have hshape : headerText (t :: header) ++ z =
          (bytes "//" ++ t) ++ 10 :: (headerText header ++ z) := by
        simp [headerText]
      have hlen : (headerText (t :: header)).length =
          (bytes "//" ++ t).length + 1 + (headerText header).length := by
        simp only [headerText, List.flatMap_cons, List.length_append, List.length_singleton]
      rw [hshape, index_behind policy_ne hten _
          (policy_not_slashed (h t List.mem_cons_self)),
        ih fun u hu => h u (List.mem_cons_of_mem t hu), Option.map_map, hlen]
      congr 1
      funext i
      simp only [Function.comp]
      omega

/-- A header with the word is cut at it. -/
theorem index_mentioned {header : List GoString} {t : GoString} (ht : t ∈ header)
    (hin : bytes "POLICY " <:+: t) (z : GoString) :
    ∃ i, index (bytes "POLICY ") (headerText header ++ z) = some i ∧
      i < (headerText header).length := by
  have hline : bytes "POLICY " <:+: headerText header := by
    have hmem : t <:+: headerText header := by
      obtain ⟨l₁, l₂, rfl⟩ := List.append_of_mem ht
      refine ⟨headerText l₁ ++ bytes "//", [10] ++ headerText l₂, ?_⟩
      simp [headerText]
    exact hin.trans hmem
  obtain ⟨i, hi⟩ := index_isSome hline
  have hlen := index_length hi
  have hpos : (bytes "POLICY ").length = 7 := by decide
  exact ⟨i, index_append z hi, by omega⟩

theorem suffix_snoc {u v : GoString} {c d : UInt8} :
    u ++ [c] <:+ v ++ [d] ↔ c = d ∧ u <:+ v := by
  rw [List.suffix_concat_iff]
  constructor
  · rintro (h | ⟨t, ht, hs⟩)
    · simp at h
    · obtain ⟨rfl, hcd⟩ := List.append_inj' ht rfl
      exact ⟨(List.cons.inj hcd).1, hs⟩
  · rintro ⟨rfl, h⟩
    exact .inr ⟨u, rfl, h⟩

theorem last_mem_suffix {x y : GoString} {c : UInt8} (h : x <:+ y ++ [c]) (hx : x ≠ []) :
    c ∈ x := by
  rcases List.suffix_concat_iff.mp h with rfl | ⟨t, rfl, -⟩
  · exact absurd rfl hx
  · simp

/-- What stands in front of the first brace. -/
def PolicyText.front (p : PolicyText) : GoString := bytes "POLICY " ++ p.name ++ p.nameGap

theorem PolicyText.text_eq (p : PolicyText) :
    p.text = headerText p.header ++ (bytes "POLICY " ++ (p.name ++ (p.nameGap ++
      123 :: (p.openGap ++ bytes "DENY " ++ 123 :: (p.block ++ 125 :: p.tail))))) := by
  have hdeny : bytes "DENY \x7b" = bytes "DENY " ++ [123] := by decide
  have hopen : bytes "\x7b" = [123] := by decide
  have hclose : bytes "\x7d" = [125] := by decide
  unfold PolicyText.text
  rw [hdeny, hopen, hclose]
  simp only [List.append_assoc, List.cons_append, List.nil_append]

section Blanks

variable (p : PolicyText)

theorem PolicyText.nameBlank : Blank p.nameGap := p.blanks _ (by simp)
theorem PolicyText.openBlank : Blank p.openGap := p.blanks _ (by simp)
theorem PolicyText.endBlank : Blank p.endGap := p.blanks _ (by simp)

theorem PolicyText.front_no_brace : 123 ∉ p.front := by
  rw [PolicyText.front, List.mem_append, List.mem_append, not_or, not_or]
  exact ⟨⟨by decide, p.plain.not_mem (by decide)⟩, blank_not_mem p.nameBlank (by decide)⟩

/-- `DENY` stands in front of the first brace where the name ends in it. -/
theorem PolicyText.deny_in_front :
    bytes "DENY " <:+ p.front ↔ bytes "DENY" <:+ p.name ∧ p.nameGap = bytes " " := by
  have hdeny : bytes "DENY " = bytes "DENY" ++ [32] := by decide
  have hden : bytes "DENY" = bytes "DEN" ++ [89] := by decide
  have hblank : bytes " " = [32] := by decide
  rw [PolicyText.front, hdeny, hblank]
  constructor
  · intro h
    rcases List.eq_nil_or_concat p.nameGap with hgap | ⟨g, c, hgap⟩
    · obtain ⟨n, c, hn⟩ := (List.eq_nil_or_concat p.name).resolve_left p.plain.1
      rw [List.concat_eq_append] at hn
      rw [hgap, List.append_nil, hn, ← List.append_assoc, suffix_snoc] at h
      have hmem : c ∈ p.name := by rw [hn]; simp
      exact absurd (h.1 ▸ hmem) (p.plain.not_mem (by decide))
    · rw [List.concat_eq_append] at hgap
      rw [hgap, ← List.append_assoc, suffix_snoc] at h
      obtain ⟨rfl, h⟩ := h
      rcases List.eq_nil_or_concat g with rfl | ⟨g', d, rfl⟩
      · rw [List.append_nil] at h
        refine ⟨?_, hgap⟩
        rcases List.suffix_or_suffix_of_suffix h (List.suffix_append _ _) with hs | ⟨x, hx⟩
        · exact hs
        · rw [← hx, List.suffix_append_self_iff] at h
          by_cases hxe : x = []
          · rw [hxe, List.nil_append] at hx
            exact ⟨[], hx.symm⟩
          · have hmem : 32 ∈ bytes "DENY" := by
              rw [← hx]
              exact List.mem_append_left _ (last_mem_suffix (y := bytes "POLICY") h hxe)
            exact absurd hmem (by decide)
      · rw [List.concat_eq_append] at hgap h
        rw [← List.append_assoc, hden, suffix_snoc] at h
        have hmem : (89 : UInt8) ∈ p.nameGap := by
          rw [hgap, ← h.1]
          simp
        exact absurd hmem (blank_not_mem p.nameBlank (by decide))
  · rintro ⟨⟨x, hx⟩, hgap⟩
    rw [hgap]
    exact ⟨bytes "POLICY " ++ x, by rw [← hx]; simp⟩

/-- What is taken for the block starts behind the first `DENY` and its brace. -/
def PolicyText.taken : GoString :=
  if bytes "DENY" <:+ p.name ∧ p.nameGap = bytes " " then
    p.openGap ++ bytes "DENY " ++ 123 :: p.block
  else p.block

theorem PolicyText.index_deny : ∃ i,
    index (bytes "DENY \x7b") (p.front ++ 123 ::
      (p.openGap ++ bytes "DENY " ++ 123 :: (p.block ++ 125 :: p.tail))) = some i ∧
    (p.front ++ 123 :: (p.openGap ++ bytes "DENY " ++ 123 :: (p.block ++ 125 :: p.tail))).drop
      (i + (bytes "DENY \x7b").length) = p.taken ++ 125 :: p.tail := by
  have hdeny : bytes "DENY \x7b" = bytes "DENY " ++ [123] := by decide
  have hno : (123 : UInt8) ∉ bytes "DENY " := by decide
  have hopen : 123 ∉ p.openGap ++ bytes "DENY " := by
    rw [List.mem_append, not_or]
    exact ⟨blank_not_mem p.openBlank (by decide), hno⟩
  have hlen : (bytes "DENY \x7b").length = (bytes "DENY ").length + 1 := by decide
  rw [hlen, hdeny, index_until hno _ p.front_no_brace, index_until hno _ hopen,
    if_pos (List.suffix_append p.openGap _), PolicyText.taken]
  by_cases h : bytes "DENY " <:+ p.front
  · rw [if_pos h, if_pos (p.deny_in_front.mp h)]
    refine ⟨_, rfl, ?_⟩
    have hle := h.length_le
    have hat : p.front.length - (bytes "DENY ").length + ((bytes "DENY ").length + 1) =
        p.front.length + 1 := by omega
    rw [hat, ← List.drop_drop, List.drop_left, List.drop_succ_cons, List.drop_zero]
    simp only [List.append_assoc, List.cons_append]
  · rw [if_neg h, if_neg fun hn => h (p.deny_in_front.mpr hn)]
    refine ⟨p.front.length + 1 + p.openGap.length, ?_, ?_⟩
    · rw [Option.map_some, List.length_append, Nat.add_sub_cancel]
    · have hat : p.front.length + 1 + p.openGap.length + ((bytes "DENY ").length + 1) =
          p.front.length + (1 + ((p.openGap ++ bytes "DENY ").length + 1)) := by
        rw [List.length_append]
        omega
      rw [hat, ← List.drop_drop, List.drop_left, ← List.drop_drop, List.drop_succ_cons,
        List.drop_zero, ← List.drop_drop, List.drop_left, List.drop_succ_cons, List.drop_zero]

end Blanks

/-! ## The name and the default -/

theorem gap_end (z : GoString) : ∀ {g : GoString}, Blank g →
    ∃ n, indexAny (g ++ 123 :: z) (bytes " \t\x7b") = some n ∧ n ≤ g.length := by
  have hchars : bytes " \t\x7b" = [32, 9, 123] := by decide
  intro g
  rw [hchars]
  induction g with
  | nil => intro _; exact ⟨0, rfl, Nat.le_refl 0⟩
  | cons c g ih =>
      intro h
      obtain ⟨n, hn, hle⟩ := ih fun d hd => h d (List.mem_cons_of_mem c hd)
      rw [indexAny] at hn
      rw [List.cons_append, indexAny, List.findIdx?_cons]
      rcases h c List.mem_cons_self with rfl | rfl | rfl
      · exact ⟨0, rfl, Nat.zero_le _⟩
      · refine ⟨n + 1, ?_, Nat.succ_le_succ hle⟩
        rw [hn]
        rfl
      · exact ⟨0, rfl, Nat.zero_le _⟩

/-- The name is found between the word and the white space or the brace behind it. -/
theorem name_end {name gap : GoString} (hname : Plain name) (hgap : Blank gap) (z : GoString) :
    ∃ n, indexAny (name ++ (gap ++ 123 :: z)) (bytes " \t\x7b") = some n ∧
      trimSpace ((name ++ (gap ++ 123 :: z)).take n) = name := by
  obtain ⟨n, hn, hle⟩ := gap_end z hgap
  have hnone : name.findIdx? (fun c => (bytes " \t\x7b").contains c) = none := by
    rw [List.findIdx?_eq_none_iff]
    intro c hc
    have hchars : ∀ d ∈ bytes " \t\x7b", plainByte d = false :=
      List.all_iff_forall_prop.mp (by decide)
    rw [Bool.eq_false_iff]
    intro hin
    exact plain_ne (hname.2 c hc) (hchars c (List.contains_iff_mem.mp hin)) rfl
  rw [indexAny] at hn
  refine ⟨n + name.length, ?_, ?_⟩
  · rw [indexAny, List.findIdx?_append, hnone, hn]
    rfl
  · rw [Nat.add_comm, List.take_length_add_append, List.take_append_of_le_length hle]
    exact hname.trimmed (a := []) (by simp [Blank]) fun c hc =>
      hgap c (List.mem_of_mem_take hc)

theorem split_solid {sep : UInt8} {q w : GoString} {ws : List GoString}
    (hq : split sep q = w :: ws) : ∀ {p : GoString}, sep ∉ p →
    split sep (p ++ q) = (p ++ w) :: ws := by
  intro p
  induction p with
  | nil => intro _; exact hq
  | cons c p ih =>
      intro h
      have hc : c ≠ sep := fun hc => h (hc ▸ List.mem_cons_self)
      rw [List.cons_append, split, ih fun hm => h (List.mem_cons_of_mem c hm)]
      simp only [if_neg hc]
      rfl

theorem split_useTail {name : GoString} (hname : Plain name) (q : GoString) :
    split 32 (useTail name ++ q) = bytes "USE" :: name :: bytes "DEFAULT" :: split 32 q := by
  have huse : bytes "USE " = bytes "USE" ++ [32] := by decide
  have hdefault : bytes " DEFAULT " = 32 :: bytes "DEFAULT" ++ [32] := by decide
  have hshape : useTail name ++ q =
      bytes "USE" ++ 32 :: (name ++ 32 :: (bytes "DEFAULT" ++ 32 :: q)) := by
    rw [useTail, huse, hdefault]
    simp only [List.append_assoc, List.cons_append, List.nil_append]
  rw [hshape, split_line _ (by decide), split_line _ (hname.not_mem (by decide)),
    split_line _ (by decide)]

/-- The line at the end is the last of its kind: its words are not its own again
further on. -/
theorem useTail_last {name action gap : GoString} (hname : Plain name) (haction : 32 ∉ action)
    (hgap : Blank gap) :
    lastIndex (useTail name) (useTail name ++ (action ++ gap)) = some 0 := by
  have huse : ¬ bytes "USE" <:+ bytes "DEFAULT" := by decide
  have hne : useTail name ≠ [] := by
    rw [useTail, List.append_assoc]
    exact List.append_ne_nil_of_left_ne_nil (by decide) _
  refine lastIndex_front hne fun a b hab ha hp => ?_
  obtain ⟨r, rfl⟩ := hp
  obtain ⟨init, l, heq, hl⟩ := split_append (split_useTail hname r) a
  rw [← hab, split_useTail hname] at heq
  obtain ⟨w, ws, hw⟩ : ∃ w ws, split 32 gap = w :: ws :=
    List.exists_cons_of_ne_nil (split_ne_nil 32 gap)
  rw [split_solid hw haction] at heq
  match init, heq with
  | [], heq =>
      have hnil := (List.cons.inj heq).1
      have hle : l = [] := List.append_left_eq_self.mp hnil.symm
      exact ha ((hl rfl).symm.trans hle)
  | [_], heq =>
      have hrest := (List.cons.inj heq).2
      have hcut := (List.cons.inj hrest).1
      have hdef := (List.cons.inj (List.cons.inj hrest).2).1
      exact huse ⟨l, by rw [hdef, hcut]⟩
  | [_, _], heq =>
      have hcut := (List.cons.inj (List.cons.inj (List.cons.inj heq).2).2).1
      exact huse ⟨l, hcut.symm⟩
  | _ :: _ :: _ :: init, heq =>
      have hrest := (List.cons.inj (List.cons.inj (List.cons.inj heq).2).2).2
      have hmem : name ∈ ws := by
        cases init with
        | nil => rw [(List.cons.inj hrest).2]; simp
        | cons i is => rw [(List.cons.inj hrest).2]; simp
      have hin : name ∈ split 32 gap := by
        rw [hw]
        exact List.mem_cons_of_mem w hmem
      have hsub := mem_of_mem_split hin
      obtain ⟨c, cs, hc⟩ := List.exists_cons_of_ne_nil hname.1
      have hplain : plainByte c = true := hname.2 c (by rw [hc]; simp)
      rcases hgap c (hsub c (by rw [hc]; simp)) with h | h | h <;>
        (rw [h] at hplain; exact absurd hplain (by decide))

theorem PolicyText.default_text (p : PolicyText) :
    defaultAction p.text p.name = p.action := by
  obtain ⟨hne, hleft, hright⟩ := p.word
  have hblank : 32 ∉ p.action := by
    intro hm
    have hspace : ([32] : GoString) ∈ spaceEncodings := by decide
    exact (hleft 32 hm [32] hspace).1 rfl
  obtain ⟨pre, hpre⟩ : ∃ pre, p.text = pre ++ (useTail p.name ++ (p.action ++ p.endGap)) :=
    ⟨headerText p.header ++ bytes "POLICY " ++ p.name ++ p.nameGap ++ bytes "\x7b" ++
      p.openGap ++ bytes "DENY \x7b" ++ p.block ++ bytes "\x7d" ++ p.closeGap ++
      bytes "\x7d" ++ p.useGap, by
        rw [PolicyText.text, PolicyText.tail]
        simp only [List.append_assoc]⟩
  rw [hpre, defaultAction_append _ _ _ (useTail_last p.plain hblank p.endBlank)]
  exact trimSpace_padded (a := []) (by simp [Blank]) p.endBlank hne hleft hright

/-! ## The whole text -/

theorem index_self {sub : GoString} (hne : sub ≠ []) (z : GoString) :
    index sub (sub ++ z) = some 0 := by
  obtain ⟨c, cs, rfl⟩ := List.exists_cons_of_ne_nil hne
  rw [List.cons_append, index, if_pos (by simp)]

/-- A text whose header does not have the word: only the block can be taken wrongly. -/
theorem parse_text (p : PolicyText) (h : ∀ t ∈ p.header, ¬ bytes "POLICY " <:+: t) :
    parseGlobalPolicyBytes p.text =
      .ok { p.meaning with names := denyEntries (upTo p.taken) } := by
  have haction := p.default_text
  have hne := p.word.1
  obtain ⟨n, hn, hname⟩ := name_end p.plain p.nameBlank
    (p.openGap ++ bytes "DENY " ++ 123 :: (p.block ++ 125 :: p.tail))
  obtain ⟨i, hi, hrest⟩ := p.index_deny
  obtain ⟨e, he⟩ : ∃ e, index (bytes "\x7d") (p.taken ++ 125 :: p.tail) = some e := by
    refine index_isSome ⟨p.taken, p.tail, ?_⟩
    have hbrace : bytes "\x7d" = [125] := by decide
    rw [hbrace, List.append_assoc, List.singleton_append]
  have hbody : (p.taken ++ 125 :: p.tail).take e = upTo p.taken := by
    have hbrace : bytes "\x7d" = [125] := by decide
    rw [hbrace] at he
    rw [take_index_byte he, ← upTo_brace p.taken p.tail]
    rfl
  have hfront : bytes "POLICY " ++ (p.name ++ (p.nameGap ++ 123 ::
      (p.openGap ++ bytes "DENY " ++ 123 :: (p.block ++ 125 :: p.tail)))) =
      p.front ++ 123 :: (p.openGap ++ bytes "DENY " ++ 123 :: (p.block ++ 125 :: p.tail)) := by
    rw [PolicyText.front]
    simp only [List.append_assoc]
  have hpolicy : index (bytes "POLICY ") p.text = some (headerText p.header).length := by
    rw [p.text_eq, index_header _ h, index_self policy_ne]
    rfl
  have hafter : p.text.drop ((headerText p.header).length + (bytes "POLICY ").length) =
      p.name ++ (p.nameGap ++ 123 ::
        (p.openGap ++ bytes "DENY " ++ 123 :: (p.block ++ 125 :: p.tail))) := by
    rw [p.text_eq, ← List.drop_drop, List.drop_left, List.drop_left]
  have hdrop : p.text.drop (headerText p.header).length =
      p.front ++ 123 :: (p.openGap ++ bytes "DENY " ++ 123 :: (p.block ++ 125 :: p.tail)) := by
    rw [p.text_eq, List.drop_left, hfront]
  have hheader : p.text.take (headerText p.header).length = headerText p.header := by
    rw [p.text_eq, List.take_left]
  unfold parseGlobalPolicyBytes
  rw [hpolicy]
  simp only []
  rw [hafter, hn]
  simp only []
  rw [hname, hdrop, hi]
  simp only []
  rw [Nat.add_assoc, ← List.drop_drop, hdrop, hrest, he]
  simp only []
  rw [haction, if_neg hne, hbody, hheader]
  rfl

/-- Where the header has the word, less than the header is read. -/
theorem parse_mentioned {p : PolicyText} {t : GoString} (ht : t ∈ p.header)
    (hin : bytes "POLICY " <:+: t) : parseGlobalPolicyBytes p.text ≠ .ok p.meaning := by
  obtain ⟨i, hi, hlt⟩ := index_mentioned ht hin (bytes "POLICY " ++ (p.name ++ (p.nameGap ++
    123 :: (p.openGap ++ bytes "DENY " ++ 123 :: (p.block ++ 125 :: p.tail)))))
  rw [← p.text_eq] at hi
  intro h
  have hheader : p.text.take i = headerText p.header := by
    unfold parseGlobalPolicyBytes at h
    rw [hi] at h
    simp only [] at h
    split at h
    · cases h
    · split at h
      · cases h
      · split at h
        · cases h
        · split at h
          · cases h
          · exact congrArg GlobalPolicy.header (Except.ok.inj h)
  have hlen := congrArg List.length hheader
  rw [List.length_take] at hlen
  omega

/-- Where the block is taken from the name on, an entry is read that is none. -/
theorem denyEntries_from_name {p : PolicyText}
    (h : bytes "DENY" <:+ p.name ∧ p.nameGap = bytes " ") :
    denyEntries (upTo p.taken) ≠ p.items.map Item.entry := by
  have hdeny : ∀ c ∈ bytes "DENY ", c ≠ 125 ∧ c ≠ 47 ∧ c ≠ 44 :=
    List.all_iff_forall_prop.mp (by decide)
  have hno : ∀ c : UInt8, (c = 125 ∨ c = 47 ∨ c = 44) →
      c ∉ p.openGap ++ bytes "DENY " ++ [123] := by
    intro c hc hm
    rw [List.mem_append, List.mem_append] at hm
    rcases hm with (hm | hm) | hm
    · rcases hc with rfl | rfl | rfl <;>
        exact blank_not_mem p.openBlank (by decide) hm
    · rcases hc with rfl | rfl | rfl
      · exact (hdeny _ hm).1 rfl
      · exact (hdeny _ hm).2.1 rfl
      · exact (hdeny _ hm).2.2 rfl
    · rcases hc with rfl | rfl | rfl <;> exact absurd hm (by decide)
  have hshape : p.taken = p.openGap ++ bytes "DENY " ++ [123] ++ p.block := by
    rw [PolicyText.taken, if_pos h]
    simp
  obtain ⟨w, ws, hw⟩ : ∃ w ws, split 44 (stripComments (upTo p.block)) = w :: ws :=
    List.exists_cons_of_ne_nil (split_ne_nil 44 _)
  have hbrace : 123 ∈ trimSpace (p.openGap ++ bytes "DENY " ++ [123] ++ w) := by
    refine mem_trimSpace (by decide) ?_
    simp
  have hmem : trimSpace (p.openGap ++ bytes "DENY " ++ [123] ++ w) ∈
      denyEntries (upTo p.taken) := by
    rw [denyEntries_eq, hshape, upTo_append (hno 125 (by simp)),
      stripComments_append (hno 47 (by simp)), entriesOf,
      split_solid hw (hno 44 (by simp)), List.map_cons, List.mem_filter]
    exact ⟨List.mem_cons_self, decide_eq_true (List.ne_nil_of_mem hbrace)⟩
  intro heq
  rw [heq, List.mem_map] at hmem
  obtain ⟨it, -, hit⟩ := hmem
  rw [← hit] at hbrace
  exact it.plain.not_mem (by decide) hbrace

/-- A policy is read as it is written exactly when none of the three words is found
too early. -/
theorem parse_text_iff (p : PolicyText) :
    parseGlobalPolicyBytes p.text = .ok p.meaning ↔ p.Readable := by
  by_cases hheader : ∀ t ∈ p.header, ¬ bytes "POLICY " <:+: t
  · rw [parse_text p hheader]
    have hiff : (Except.ok { p.meaning with names := denyEntries (upTo p.taken) } :
        Except SeccompErr GlobalPolicy) = .ok p.meaning ↔
        denyEntries (upTo p.taken) = p.items.map Item.entry := by
      constructor
      · intro h
        exact congrArg GlobalPolicy.names (Except.ok.inj h)
      · intro h
        rw [h]
        rfl
    rw [hiff]
    constructor
    · intro h
      have hname : ¬ (bytes "DENY" <:+ p.name ∧ p.nameGap = bytes " ") :=
        fun hn => denyEntries_from_name hn h
      rw [PolicyText.taken, if_neg hname, denyEntries_block] at h
      exact ⟨hheader, hname, (kept_eq_iff p).mp h⟩
    · intro h
      rw [PolicyText.taken, if_neg h.name, denyEntries_block]
      exact (kept_eq_iff p).mpr h.block
  · constructor
    · intro h
      push Not at hheader
      obtain ⟨t, ht, hin⟩ := hheader
      exact absurd h (parse_mentioned ht hin)
    · intro h
      exact absurd h.header hheader

/-- Two entries, with a brace in the comment between them. -/
def bracedText : PolicyText where
  header := [bytes " denied"]
  lines := by decide
  name := bytes "goboxd"
  plain := ⟨by decide, List.all_iff_forall_prop.mp (by decide)⟩
  nameGap := bytes " "
  openGap := bytes "\n\t"
  lead := [.blank (bytes "\n\t\t") (by decide)]
  items :=
    [{ entry := bytes "mount"
       plain := ⟨by decide, List.all_iff_forall_prop.mp (by decide)⟩
       after := []
       next := [.blank (bytes " ") (by decide),
         .comment (bytes " not umount\x7b2\x7d") (by decide),
         .blank (bytes "\t\t") (by decide)] },
      { entry := bytes "ptrace"
        plain := ⟨by decide, List.all_iff_forall_prop.mp (by decide)⟩
        after := []
        next := [.blank (bytes "\n\t") (by decide)] }]
  closeGap := bytes "\n"
  useGap := bytes "\n\n"
  action := bytes "ALLOW"
  endGap := bytes "\n"
  blanks := by decide
  word := by decide

/-- `ptrace` is lost. -/
theorem brace_in_comment :
    bracedText.meaning.names = [bytes "mount", bytes "ptrace"] ∧
      parseGlobalPolicyBytes bracedText.text =
        .ok { bracedText.meaning with names := [bytes "mount"] } := by
  decide +kernel

end Goboxd.Seccomp
