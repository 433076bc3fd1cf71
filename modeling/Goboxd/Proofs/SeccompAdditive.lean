import Mathlib.Data.Bool.AllAny
import Goboxd.Runner.Args
import Goboxd.Seccomp

/-!
# A language's denies are added, and nothing else is

`CombinedWith` writes a policy and `parseGlobalPolicyBytes` reads one, by looking
for words. What is read back is what was written because of what a name can be:
one of kafel's table or `SYSCALL[n]`, so nothing but letters, digits, the
underscore and square brackets. None of these ends a block, separates entries,
starts a comment or is white space.

The front of the text is the embedded policy's own, so every word that is looked
for there is found where it is found in the embedded policy. The tail is the one
line after the block, so it is the last one. In between stand the entries, which
are cut at the commas and trimmed.
-/

namespace Goboxd.Seccomp

open Go

/-! ## What a name is made of -/

/-- `SYSCALL[n]` for a number in decimal digits. -/
def SyscallNum (e : GoString) : Prop :=
  ∃ digits : GoString, digits ≠ [] ∧ (∀ c ∈ digits, isDigit c = true) ∧
    e = bytes "SYSCALL[" ++ digits ++ bytes "]"

def plainByte (c : UInt8) : Bool :=
  isDigit c || (97 ≤ c && c ≤ 122) || (65 ≤ c && c ≤ 90) || c = 95 || c = 91 ||
    c = 93

def Plain (w : GoString) : Prop := w ≠ [] ∧ ∀ c ∈ w, plainByte c = true

theorem syscallNumRe_iff {e : GoString} : syscallNumRe e = true ↔ SyscallNum e := by
  simp only [syscallNumRe, Bool.and_eq_true, decide_eq_true_eq, List.all_eq_true]
  constructor
  · rintro ⟨⟨⟨hfront, hback⟩, hne⟩, hdigits⟩
    refine ⟨_, hne, hdigits, ?_⟩
    rw [List.append_assoc, ← eq_append_of_hasSuffix hback]
    exact eq_append_of_hasPrefix hfront
  · rintro ⟨digits, hne, hdigits, rfl⟩
    rw [List.append_assoc, trimPrefix_append, trimSuffix_append]
    exact ⟨⟨⟨List.isPrefixOf_iff_prefix.mpr (List.prefix_append _ _),
      List.isSuffixOf_iff_suffix.mpr (List.suffix_append _ _)⟩, hne⟩, hdigits⟩

theorem plain_of_table {e : GoString} (h : e ∈ validSyscalls) : Plain e := by
  have hall : ∀ n ∈ validSyscalls, n ≠ [] ∧ n.all plainByte = true := by
    decide +kernel
  obtain ⟨hne, hbytes⟩ := hall e h
  exact ⟨hne, List.all_eq_true.mp hbytes⟩

theorem plain_of_num {e : GoString} (h : SyscallNum e) : Plain e := by
  obtain ⟨digits, -, hdigits, rfl⟩ := h
  have hbracket : bytes "]" ≠ [] := by decide
  refine ⟨List.append_ne_nil_of_right_ne_nil _ hbracket, fun c hc => ?_⟩
  have hfront : ∀ c ∈ bytes "SYSCALL[", plainByte c = true :=
    List.all_iff_forall_prop.mp (by decide)
  have hback : ∀ c ∈ bytes "]", plainByte c = true :=
    List.all_iff_forall_prop.mp (by decide)
  rcases List.mem_append.mp hc with hc | hc
  · rcases List.mem_append.mp hc with hc | hc
    · exact hfront c hc
    · rw [plainByte, hdigits c hc]
      rfl
  · exact hback c hc

theorem plain_of_valid {e : GoString} (h : validSyscall e = true) : Plain e := by
  rcases Bool.or_eq_true_iff.mp h with h | h
  · exact plain_of_table (of_decide_eq_true h)
  · exact plain_of_num (syscallNumRe_iff.mp h)

/-- What a name has to keep out of the text. -/
theorem plain_ne {c d : UInt8} (h : plainByte c = true) (hd : plainByte d = false) :
    c ≠ d := by
  intro heq
  rw [heq, hd] at h
  cases h

theorem Plain.solid {w : GoString} (h : Plain w) :
    Solid spaceEncodings w ∧ Solid (spaceEncodings.map List.reverse) w := by
  have hheads : ∀ e ∈ spaceEncodings, e ≠ [] ∧ e.head?.all (fun c => !plainByte c) = true ∧
      e.reverse ≠ [] ∧ e.reverse.head?.all (fun c => !plainByte c) = true := by decide
  have hspace : ∀ (o : Option UInt8) (c : UInt8), o.all (fun c => !plainByte c) = true →
      o = some c → plainByte c = false := by
    intro o c hall ho
    rw [ho, Option.all_some, Bool.not_eq_true'] at hall
    exact hall
  constructor
  · intro c hc e he
    obtain ⟨hne, hhead, -, -⟩ := hheads e he
    exact ⟨fun heq => plain_ne (h.2 c hc) (hspace _ c hhead heq) rfl, hne⟩
  · intro c hc r hr
    obtain ⟨e, he, rfl⟩ := List.mem_map.mp hr
    obtain ⟨-, -, hne, hhead⟩ := hheads e he
    exact ⟨fun heq => plain_ne (h.2 c hc) (hspace _ c hhead heq) rfl, hne⟩

theorem Plain.trimmed {a w b : GoString} (h : Plain w) (ha : Blank a) (hb : Blank b) :
    trimSpace (a ++ (w ++ b)) = w :=
  trimSpace_padded ha hb h.1 h.solid.1 h.solid.2

/-! ## The entries of the block -/

theorem mem_denyLines {c : UInt8} : ∀ {names : List GoString}, c ∈ denyLines names →
    (∃ n ∈ names, c ∈ n) ∨ c = 9 ∨ c = 10 ∨ c = 44 := by
  have htab : ∀ c ∈ bytes "\t\t", c = 9 :=
    List.all_iff_forall_prop.mp (by decide)
  have hend : ∀ c ∈ bytes "\n", c = 10 :=
    List.all_iff_forall_prop.mp (by decide)
  have hcomma : ∀ c ∈ bytes ",\n", c = 10 ∨ c = 44 :=
    List.all_iff_forall_prop.mp (by decide)
  intro names
  induction names with
  | nil => intro h; cases h
  | cons n rest ih =>
      intro h
      cases rest with
      | nil =>
          rw [denyLines] at h
          rcases List.mem_append.mp h with h | h
          · rcases List.mem_append.mp h with h | h
            · exact .inr (.inl (htab c h))
            · exact .inl ⟨n, List.mem_cons_self, h⟩
          · exact .inr (.inr (.inl (hend c h)))
      | cons m rest =>
          rw [denyLines] at h
          · rcases List.mem_append.mp h with h | h
            · rcases List.mem_append.mp h with h | h
              · rcases List.mem_append.mp h with h | h
                · exact .inr (.inl (htab c h))
                · exact .inl ⟨n, List.mem_cons_self, h⟩
              · exact .inr (.inr (hcomma c h))
            · refine (ih h).imp_left ?_
              rintro ⟨n', hn', hc⟩
              exact ⟨n', List.mem_cons_of_mem n hn', hc⟩
          · intro heq
            cases heq

/-- The text between the braces of the block. -/
def denyBody (names : List GoString) : GoString :=
  bytes "\n" ++ denyLines names ++ bytes "\t"

theorem not_mem_denyBody {c : UInt8} {names : List GoString}
    (hnames : ∀ n ∈ names, Plain n) (hplain : plainByte c = false)
    (hc : c ≠ 9 ∧ c ≠ 10 ∧ c ≠ 44) : c ∉ denyBody names := by
  intro h
  have hend : ∀ c ∈ bytes "\n", c = 10 :=
    List.all_iff_forall_prop.mp (by decide)
  have htab : ∀ c ∈ bytes "\t", c = 9 :=
    List.all_iff_forall_prop.mp (by decide)
  rcases List.mem_append.mp h with h | h
  · rcases List.mem_append.mp h with h | h
    · exact hc.2.1 (hend c h)
    · rcases mem_denyLines h with ⟨n, hn, hcn⟩ | h | h | h
      · exact plain_ne ((hnames n hn).2 c hcn) hplain rfl
      · exact hc.1 h
      · exact hc.2.1 h
      · exact hc.2.2 h
  · exact hc.1 (htab c h)

/-- The entries of the block, cut at the commas and trimmed. `lead` is the line
end that stands before the first of them. -/
theorem split_denyLines : ∀ {names : List GoString} {lead : GoString}, names ≠ [] →
    (∀ n ∈ names, Plain n) → Blank lead →
    (split 44 (lead ++ (denyLines names ++ bytes "\t"))).map trimSpace = names := by
  have hblank : ∀ {w : GoString}, Blank w → 44 ∉ w := by
    intro w hw hm
    exact absurd (hw 44 hm) (by decide)
  have hplain : ∀ {w : GoString}, Plain w → 44 ∉ w := by
    intro w hw hm
    exact plain_ne (hw.2 44 hm) (d := 44) (by decide) rfl
  intro names
  induction names with
  | nil => intro lead hne; exact absurd rfl hne
  | cons n rest ih =>
      intro lead _ hnames hlead
      have hn := hnames n List.mem_cons_self
      have hfront : Blank (lead ++ bytes "\t\t") := by
        intro c hc
        have htab : Blank (bytes "\t\t") := by decide
        exact (List.mem_append.mp hc).elim (hlead c) (htab c)
      cases rest with
      | nil =>
          have hback : Blank (bytes "\n" ++ bytes "\t") := by decide
          have hshape : lead ++ (denyLines [n] ++ bytes "\t") =
              (lead ++ bytes "\t\t") ++ (n ++ (bytes "\n" ++ bytes "\t")) := by
            simp only [denyLines, List.append_assoc]
          have hno : 44 ∉ (lead ++ bytes "\t\t") ++ (n ++ (bytes "\n" ++ bytes "\t")) := by
            intro hm
            rcases List.mem_append.mp hm with hm | hm
            · exact hblank hfront hm
            · rcases List.mem_append.mp hm with hm | hm
              · exact hplain hn hm
              · exact hblank hback hm
          rw [hshape, split_self hno, List.map_singleton, hn.trimmed hfront hback]
      | cons m rest =>
          have hshape : lead ++ (denyLines (n :: m :: rest) ++ bytes "\t") =
              ((lead ++ bytes "\t\t") ++ (n ++ [])) ++
                44 :: (bytes "\n" ++ (denyLines (m :: rest) ++ bytes "\t")) := by
            have hcomma : bytes ",\n" = 44 :: bytes "\n" := by decide
            rw [denyLines, hcomma]
            · simp only [List.append_assoc, List.append_nil, List.cons_append]
            · intro heq
              cases heq
          have hno : 44 ∉ (lead ++ bytes "\t\t") ++ (n ++ []) := by
            rw [List.append_nil, List.mem_append, not_or]
            exact ⟨hblank hfront, hplain hn⟩
          rw [hshape, split_line _ hno, List.map_cons,
            hn.trimmed hfront (by decide : Blank []),
            ih (List.cons_ne_nil m rest)
              (fun k hk => hnames k (List.mem_cons_of_mem n hk)) (by decide)]

theorem denyEntries_denyBody {names : List GoString} (hne : names ≠ [])
    (hnames : ∀ n ∈ names, Plain n) : denyEntries (denyBody names) = names := by
  have hslash : 47 ∉ denyBody names :=
    not_mem_denyBody hnames (by decide) (by decide)
  have hclean : (split 10 (denyBody names)).map stripComment =
      split 10 (denyBody names) := by
    have hsub : bytes "//" = [47, 47] := by decide
    refine (List.map_congr_left fun line hline => ?_).trans (List.map_id _)
    have hno : 47 ∉ line := fun hm => hslash (mem_of_mem_split hline 47 hm)
    rw [stripComment, hsub, index_none hno]
    rfl
  unfold denyEntries
  simp only [hclean, join_split]
  rw [denyBody, List.append_assoc, split_denyLines hne hnames (by decide),
    List.filter_eq_self]
  intro n hn
  exact decide_eq_true (hnames n hn).1

/-! ## The names of the combined policy -/

theorem appendExtras_eq : ∀ {extras names : List GoString},
    (∀ e ∈ extras, e ≠ [] ∧ trimSpace e = e) →
    appendExtras names extras =
      names ++ (extras.filter fun e => e ∉ names).eraseDups := by
  intro extras
  induction extras with
  | nil => intro names _; rw [appendExtras, List.filter_nil, List.eraseDups_nil, List.append_nil]
  | cons e rest ih =>
      intro names h
      obtain ⟨hne, htrim⟩ := h e List.mem_cons_self
      have hrest := fun x hx => h x (List.mem_cons_of_mem e hx)
      rw [appendExtras]
      simp only [htrim]
      by_cases hmem : e ∈ names
      · rw [if_pos (.inr hmem), ih hrest, List.filter_cons_of_neg (by simpa using hmem)]
      · rw [if_neg (by simp [hne, hmem]), ih hrest,
          List.filter_cons_of_pos (by simpa using hmem), List.eraseDups_cons,
          List.filter_filter, List.append_assoc, List.singleton_append]
        congr 3
        refine List.filter_congr fun x _ => ?_
        by_cases hx : x = e <;> simp [hx]

theorem unknownExtra_none {extras : List GoString}
    (h : ∀ e ∈ extras, validSyscall (trimSpace e) = true) :
    unknownExtra extras = none := by
  rw [unknownExtra, List.find?_eq_none]
  intro e' he'
  obtain ⟨e, he, rfl⟩ := List.mem_map.mp he'
  simp [h e he]

theorem unknownExtra_some {extras : List GoString} {e : GoString} (he : e ∈ extras)
    (hne : trimSpace e ≠ []) (hbad : validSyscall (trimSpace e) = false) :
    ∃ e', unknownExtra extras = some e' := by
  refine Option.isSome_iff_exists.mp (List.find?_isSome.mpr ?_)
  exact ⟨trimSpace e, List.mem_map_of_mem he, by simp [hne, hbad]⟩

/-! ## Reading the combined policy -/

/-- What the embedded policy is taken apart into. -/
def globalPolicy : GlobalPolicy where
  names :=
    ["mount", "umount", "SYSCALL[166]", "pivot_root", "chroot", "ptrace",
      "create_module", "init_module", "finit_module", "delete_module",
      "kexec_load", "kexec_file_load", "reboot", "acct", "sethostname",
      "setdomainname", "ioperm", "iopl", "swapon", "swapoff", "bpf"].map bytes
  header := policy.take 414
  name := bytes "goboxd"
  defAction := bytes "ALLOW"

theorem parse_policy : parseGlobalPolicy = .ok globalPolicy := by decide +kernel

theorem globalPolicy_names :
    globalPolicy.names ≠ [] ∧ ∀ n ∈ globalPolicy.names, Plain n := by
  have hall : ∀ n ∈ globalPolicy.names, n ≠ [] ∧ n.all plainByte = true := by decide
  refine ⟨by decide, fun n hn => ?_⟩
  exact ⟨(hall n hn).1, List.all_eq_true.mp (hall n hn).2⟩

/-- The text of a policy up to its block. -/
def frontText : GoString :=
  globalPolicy.header ++ bytes "POLICY goboxd \x7b\n\tDENY \x7b"

/-- The text from the end of the block on, less the brace, and less the line that
names the default. -/
def backText : GoString := bytes "\n\x7d\n\n"

theorem policyText_eq (names : List GoString) :
    policyText globalPolicy names =
      frontText ++ (denyBody names ++
        125 :: (backText ++ (useTail globalPolicy.name ++ bytes "ALLOW\n"))) := by
  have hfront : bytes "POLICY goboxd \x7b\n\tDENY \x7b" ++ bytes "\n" =
      bytes "POLICY " ++ bytes "goboxd" ++ bytes " \x7b\n\tDENY \x7b\n" := by decide
  have hback : bytes "\t\x7d\n\x7d\n\n" = bytes "\t" ++ 125 :: bytes "\n\x7d\n\n" := by
    decide
  have haction : bytes "ALLOW\n" = bytes "ALLOW" ++ bytes "\n" := by decide
  have hname : globalPolicy.name = bytes "goboxd" := rfl
  have hallow : globalPolicy.defAction = bytes "ALLOW" := rfl
  unfold policyText frontText denyBody backText useTail
  rw [hname, hallow, hback, haction]
  simp only [List.append_assoc, List.cons_append] at hfront ⊢
  rw [← List.append_assoc (bytes "POLICY goboxd \x7b\n\tDENY \x7b"), hfront]
  simp only [List.append_assoc]

theorem defaultAction_append (pre name action : GoString)
    (hlast : lastIndex (useTail name) (useTail name ++ action) = some 0) :
    defaultAction (pre ++ (useTail name ++ action)) name = trimSpace action := by
  rw [defaultAction, lastIndex_append hlast]
  simp only [Nat.add_zero]
  rw [← List.drop_drop, List.drop_left, List.drop_left]

/-- A policy that starts as the embedded one does, and whose block has no closing
brace in it, is taken apart at the same places. -/
theorem parse_frontText {body tail : GoString} (hbody : 125 ∉ body) :
    parseGlobalPolicyBytes (frontText ++ (body ++ 125 :: tail)) =
      if defaultAction (frontText ++ (body ++ 125 :: tail)) globalPolicy.name = [] then
        .error (.missingUse globalPolicy.name)
      else
        .ok
          { names := denyEntries body
            header := globalPolicy.header
            name := globalPolicy.name
            defAction :=
              defaultAction (frontText ++ (body ++ 125 :: tail)) globalPolicy.name } := by
  -- the embedded text is evaluated once for all five
  obtain ⟨hlen, hpolicy, hafter, hdeny, hheader⟩ : frontText.length = 437 ∧
      index (bytes "POLICY ") frontText = some 414 ∧
      frontText.drop (414 + (bytes "POLICY ").length) =
        bytes "goboxd \x7b\n\tDENY \x7b" ∧
      index (bytes "DENY \x7b") (frontText.drop 414) = some 17 ∧
      frontText.take 414 = globalPolicy.header := by decide +kernel
  have hnameEnd : indexAny (bytes "goboxd \x7b\n\tDENY \x7b") (bytes " \t\x7b") = some 6 := by
    decide
  have hname : trimSpace ((bytes "goboxd \x7b\n\tDENY \x7b").take 6) = globalPolicy.name := by
    decide
  have hpolLen : (bytes "POLICY ").length = 7 := by decide
  have hdenyLen : (bytes "DENY \x7b").length = 6 := by decide
  have hbrace : bytes "\x7d" = [125] := by decide
  have hany : indexAny (bytes "goboxd \x7b\n\tDENY \x7b" ++ (body ++ 125 :: tail))
      (bytes " \t\x7b") = some 6 := by
    rw [indexAny] at hnameEnd ⊢
    rw [List.findIdx?_append, hnameEnd]
    rfl
  unfold parseGlobalPolicyBytes
  rw [index_append _ hpolicy]
  simp only []
  rw [List.drop_append_of_le_length (by omega), hafter, hany]
  simp only []
  rw [List.take_append_of_le_length (by decide), hname,
    List.drop_append_of_le_length (by omega), index_append _ hdeny]
  simp only []
  rw [show 414 + 17 + (bytes "DENY \x7b").length = frontText.length by omega,
    List.drop_left, hbrace, index_byte tail hbody]
  simp only []
  rw [List.take_left, List.take_append_of_le_length (by omega), hheader]

theorem parse_policyText {names : List GoString} (hne : names ≠ [])
    (hnames : ∀ n ∈ names, Plain n) :
    parseGlobalPolicyBytes (policyText globalPolicy names) =
      .ok { globalPolicy with names := names } := by
  have hbody : 125 ∉ denyBody names := not_mem_denyBody hnames (by decide) (by decide)
  have hlast : lastIndex (useTail globalPolicy.name)
      (useTail globalPolicy.name ++ bytes "ALLOW\n") = some 0 := by decide +kernel
  have haction : defaultAction (policyText globalPolicy names) globalPolicy.name =
      globalPolicy.defAction := by
    rw [policyText_eq, ← List.cons_append, ← List.append_assoc, ← List.append_assoc,
      defaultAction_append _ _ _ hlast]
    decide
  have hallow : globalPolicy.defAction ≠ [] := by decide
  rw [policyText_eq] at haction ⊢
  rw [parse_frontText hbody, haction, if_neg hallow, denyEntries_denyBody hne hnames]

/-- A language's profile only adds to the policy. Of every directive: one with a
name that is no syscall is refused; any other gives a policy that is read back
with the embedded policy's header, name, default action and denies, and behind
these the directive's own that were not among them, each once, in the order in
which they first occur. -/
theorem seccomp_additive (d : GoString) :
    ((∃ e ∈ Runner.parseSyscallNames d, e ∉ validSyscalls ∧ ¬ SyscallNum e) →
      ∃ err, CombinedWith (Runner.parseSyscallNames d) = .error err) ∧
    ((∀ e ∈ Runner.parseSyscallNames d, e ∈ validSyscalls ∨ SyscallNum e) →
      ∃ g pol, parseGlobalPolicyBytes policy = .ok g ∧
        CombinedWith (Runner.parseSyscallNames d) = .ok pol ∧
        parseGlobalPolicyBytes pol =
          .ok { g with
            names := g.names ++
              ((Runner.parseSyscallNames d).filter fun e => e ∉ g.names).eraseDups }) := by
  have htight : ∀ e ∈ Runner.parseSyscallNames d, e ≠ [] ∧ trimSpace e = e := by
    intro e he
    rw [Runner.parseSyscallNames] at he
    split at he
    · cases he
    · obtain ⟨hne, ht⟩ := fieldsOr_tight he
      exact ⟨hne, trimSpace_tight ht⟩
  have hvalid : ∀ e, validSyscall e = true ↔ e ∈ validSyscalls ∨ SyscallNum e := by
    intro e
    rw [validSyscall, Bool.or_eq_true, decide_eq_true_eq, syscallNumRe_iff]
  constructor
  · rintro ⟨e, he, hno, hnum⟩
    obtain ⟨hne, htrim⟩ := htight e he
    have hbad : validSyscall e = false := by
      rw [Bool.eq_false_iff, Ne, hvalid]
      exact fun h => h.elim hno hnum
    obtain ⟨e', he'⟩ := unknownExtra_some he (by rw [htrim]; exact hne) (by rw [htrim]; exact hbad)
    exact ⟨_, by rw [CombinedWith, he']⟩
  · intro hall
    have hnone : unknownExtra (Runner.parseSyscallNames d) = none := by
      refine unknownExtra_none fun e he => ?_
      rw [(htight e he).2]
      exact (hvalid e).mpr (hall e he)
    obtain ⟨hne, hplain⟩ := globalPolicy_names
    refine ⟨globalPolicy,
      policyText globalPolicy (appendExtras globalPolicy.names (Runner.parseSyscallNames d)),
      parse_policy, by rw [CombinedWith, hnone, parse_policy]; rfl, ?_⟩
    rw [appendExtras_eq htight, parse_policyText]
    · exact List.append_ne_nil_of_left_ne_nil hne _
    · intro n hn
      rcases List.mem_append.mp hn with hn | hn
      · exact hplain n hn
      · rw [List.mem_eraseDups] at hn
        have he := List.mem_of_mem_filter hn
        exact plain_of_valid ((hvalid n).mpr (hall n he))

end Goboxd.Seccomp
