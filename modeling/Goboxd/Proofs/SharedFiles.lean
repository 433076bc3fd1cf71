import Goboxd.Runner.Masks
import Goboxd.Proofs.JailView

/-!
# The masked files are there before any jail is

The masked files and the policy are made by whichever jails come first, at once, with calls
any of which may fail. Whatever happens, all jails are told the same, so that what each is
given is what `nsjailArgs` gives on one host with fixed paths; and a path that is given leads
to a file that the process made for it, with the right contents, and readable for the jailed
user where it must be. Together with what a jail sees of the host: no jail ever reads the
host's own file, or half of a masked one.

The computation of one file is followed call by call. What it knows throughout is that it has
made one file at most, and what that file is so far; nobody else touches files with its
pattern, and its own calls touch no others.
-/

namespace Goboxd.Runner

open Go

/-! ## One file -/

/-- The files of a pattern are alone this one. -/
def OnlyFile (pattern path : GoString) (f : File) (w : Files) : Prop :=
  ∀ p g, g.pattern = some pattern → (w p = some g ↔ p = path ∧ g = f)

def NoFile (pattern : GoString) (w : Files) : Prop :=
  ∀ p g, w p = some g → g.pattern ≠ some pattern

/-- What the making of a file of the pattern puts up with. -/
def keepsFiles (pattern : GoString) (s t : Files) : Prop :=
  ∀ p g, g.pattern = some pattern → (s p = some g ↔ t p = some g)

/-- What it does. -/
def keepsOthers (pattern : GoString) (s t : Files) : Prop :=
  ∀ p g other, other ≠ pattern → g.pattern = some other → (s p = some g ↔ t p = some g)

variable {pattern path dir : GoString} {f : File} {s t w : Files}

theorem OnlyFile.keeps (h : OnlyFile pattern path f s) (hkeep : keepsFiles pattern s t) :
    OnlyFile pattern path f t :=
  fun p g hg => (hkeep p g hg).symm.trans (h p g hg)

theorem NoFile.keeps (h : NoFile pattern s) (hkeep : keepsFiles pattern s t) :
    NoFile pattern t :=
  fun p g ht hg => h p g ((hkeep p g hg).mpr ht) hg

/-- What is known of the files of a pattern when nothing has failed so far. -/
theorem OnlyFile.at (h : OnlyFile pattern path f s) (hf : f.pattern = some pattern) :
    s path = some f := (h path f hf).mpr ⟨rfl, rfl⟩

/-- A change of the file, by the one who makes it. -/
theorem OnlyFile.change (h : OnlyFile pattern path f s) (hf : f.pattern = some pattern)
    {F : File → File} (hF : (F f).pattern = some pattern) :
    OnlyFile pattern path (F f) (s.change path F) ∧
      keepsOthers pattern s (s.change path F) := by
  have hpath : s.change path F path = some (F f) := by
    rw [Files.change, Function.update_self, h.at hf, Option.map_some]
  have hother : ∀ p, p ≠ path → s.change path F p = s p := fun p hp =>
    Function.update_of_ne hp ..
  refine ⟨fun p g hg => ?_, fun p g other hne hg => ?_⟩
  · by_cases hp : p = path
    · rw [hp, hpath, Option.some.injEq]
      exact ⟨fun heq => ⟨rfl, heq.symm⟩, fun heq => heq.2.symm⟩
    · rw [hother p hp, h p g hg]
      exact ⟨fun heq => absurd heq.1 hp, fun heq => absurd heq.1 hp⟩
  · by_cases hp : p = path
    · rw [hp, hpath, h.at hf]
      refine ⟨fun heq => ?_, fun heq => ?_⟩
      · rw [← Option.some.inj heq, hf] at hg
        exact absurd (Option.some.inj hg).symm hne
      · rw [← Option.some.inj heq, hF] at hg
        exact absurd (Option.some.inj hg).symm hne
    · rw [hother p hp]

/-- A new file. -/
theorem NoFile.create (h : NoFile pattern s) (hfree : s path = none)
    (hf : f.pattern = some pattern) :
    OnlyFile pattern path f (Function.update s path (some f)) ∧
      keepsOthers pattern s (Function.update s path (some f)) := by
  refine ⟨fun p g hg => ?_, fun p g other hne hg => ?_⟩
  · by_cases hp : p = path
    · rw [hp, Function.update_self, Option.some.injEq]
      exact ⟨fun heq => ⟨rfl, heq.symm⟩, fun heq => heq.2.symm⟩
    · rw [Function.update_of_ne hp]
      exact ⟨fun heq => absurd hg (h p g heq), fun heq => absurd heq.1 hp⟩
  · by_cases hp : p = path
    · rw [hp, Function.update_self, hfree]
      refine ⟨fun heq => absurd heq.symm (Option.some_ne_none g), fun heq => ?_⟩
      rw [← Option.some.inj heq, hf] at hg
      exact absurd (Option.some.inj hg).symm hne
    · rw [Function.update_of_ne hp]

theorem keepsOthers.refl (pattern : GoString) (s : Files) : keepsOthers pattern s s :=
  fun _ _ _ _ _ => Iff.rfl

/-- What has become of a file when its making is over. -/
def Made (dir : GoString) (m : Masked) : Except GoString GoString → Files → Prop
  | .error _, w => ∃ path, ∀ p g, w p = some g → g.pattern = some m.pattern → p = path
  | .ok path, w => TempName dir m.pattern path ∧ ∃ f, OnlyFile m.pattern path f w ∧
      f.pattern = some m.pattern ∧ f.data = m.payload ∧
      (m.chmod.isSome = true → f.mode = 0o644)

/-- What a computation knows of its file. -/
abbrev During (dir : GoString) (m : Masked) (w : Files) (p : Makes) : Prop :=
  p.Guarantees ⟨keepsFiles m.pattern, fileAct dir⟩ (keepsOthers m.pattern) (Made dir m) w

variable {m : Masked}

theorem between_keeps {A : (c : FileCall) → Files → FileAnswer c → Files → Prop}
    (h : Calls.Setting.Between ⟨keepsFiles pattern, A⟩ s t) : keepsFiles pattern s t := by
  refine h.rel (fun _ _ _ _ => Iff.rfl) (fun _ _ _ hst htu p g hg => ?_) fun _ _ hst => hst
  exact (hst p g hg).trans (htu p g hg)

theorem during_failed (h : OnlyFile m.pattern path f s) (err : GoString) :
    During dir m s (.done (.error err)) := by
  intro t hst
  refine ⟨path, fun p g hp hg => ?_⟩
  exact ((h.keeps (between_keeps hst) p g hg).mp hp).1

theorem during_done (h : OnlyFile m.pattern path f s) (hf : f.pattern = some m.pattern)
    (hdata : f.data = m.payload) (hmode : m.chmod.isSome = true → f.mode = 0o644)
    (hname : TempName dir m.pattern path) : During dir m s (.done (.ok path)) :=
  fun _ hst => ⟨hname, f, h.keeps (between_keeps hst), hf, hdata, hmode⟩

theorem during_chmod (h : OnlyFile m.pattern path f s) (hf : f.pattern = some m.pattern)
    (hdata : f.data = m.payload) (hname : TempName dir m.pattern path) :
    During dir m s (chmodTemp path m.chmod) := by
  cases hm : m.chmod with
  | none => exact during_done h hf hdata (fun hsome => by rw [hm] at hsome; cases hsome) hname
  | some text =>
      intro t hst x u hact
      have ht := h.keeps (between_keeps hst)
      rcases hact with ⟨err, rfl, rfl⟩ | ⟨rfl, rfl⟩
      · exact ⟨keepsOthers.refl _ _, during_failed ht _⟩
      · obtain ⟨honly, hothers⟩ :=
          ht.change hf (F := fun f => { f with mode := 0o644 }) hf
        exact ⟨hothers, during_done honly hf hdata (fun _ => rfl) hname⟩

theorem during_close (h : OnlyFile m.pattern path f s) (hf : f.pattern = some m.pattern)
    (hdata : f.data = m.payload) (hname : TempName dir m.pattern path) :
    During dir m s (closeTemp m path) := by
  intro t hst x u hact
  have ht := h.keeps (between_keeps hst)
  obtain rfl : u = t := hact
  refine ⟨keepsOthers.refl _ _, ?_⟩
  cases x with
  | error err => exact during_failed ht _
  | ok _ => exact during_chmod ht hf hdata hname

theorem during_write (h : OnlyFile m.pattern path f s) (hf : f.pattern = some m.pattern)
    (hdata : f.data = []) (hname : TempName dir m.pattern path) :
    During dir m s (writeTemp m path) := by
  intro t hst x u hact
  have ht := h.keeps (between_keeps hst)
  rcases hact with ⟨err, n, rfl, rfl⟩ | ⟨rfl, rfl⟩
  · obtain ⟨honly, hothers⟩ :=
      ht.change hf (F := fun f => { f with data := f.data ++ m.payload.take n }) hf
    refine ⟨hothers, fun u hu y v hclose => ?_⟩
    obtain rfl : v = u := hclose
    exact ⟨keepsOthers.refl _ _, during_failed (honly.keeps (between_keeps hu)) _⟩
  · obtain ⟨honly, hothers⟩ :=
      ht.change hf (F := fun f => { f with data := f.data ++ m.payload }) hf
    refine ⟨hothers, during_close honly hf ?_ hname⟩
    rw [hdata, List.nil_append]

/-- Making a file, when there is none of its pattern yet. -/
theorem during_materialize (h : NoFile m.pattern s) : During dir m s (materialize m) := by
  intro t hst x u hact
  have ht := h.keeps (between_keeps hst)
  rcases hact with ⟨err, rfl, rfl⟩ | ⟨path, mode, rfl, hname, hfree, rfl⟩
  · refine ⟨keepsOthers.refl _ _, fun v hv => ⟨[], fun p g hp hg => ?_⟩⟩
    exact absurd hg ((ht.keeps (between_keeps hv)) p g hp)
  · obtain ⟨honly, hothers⟩ := ht.create hfree (f := ⟨[], mode, some m.pattern⟩) rfl
    exact ⟨hothers, during_write honly rfl rfl hname⟩

/-! ## All of them -/

theorem pattern_ne {k l : Shared} (h : k ≠ l) : k.masked.pattern ≠ l.masked.pattern := by
  cases k <;> cases l <;> first | exact absurd rfl h | decide

theorem onceFiles_sound (dir : GoString) :
    Once.Sound (onceFiles dir) (fun k => keepsFiles k.masked.pattern)
      (fun k => keepsOthers k.masked.pattern) (fun k => NoFile k.masked.pattern)
      (fun k => Made dir k.masked) where
  env := fun henv p g hg => henv p g _ hg
  apart := fun hne hG p g hg => hG p g _ (pattern_ne hne).symm hg
  idle := fun hkeep h => h.keeps hkeep
  body := during_materialize

theorem fileAct_total (dir : GoString) (c : FileCall) (v : Files) :
    ∃ x v', fileAct dir c v x v' := by
  cases c with
  | createTemp pattern => exact ⟨.error [], v, .inl ⟨[], rfl, rfl⟩⟩
  | write path data => exact ⟨.ok (), _, .inr ⟨rfl, rfl⟩⟩
  | close path => exact ⟨.ok (), v, rfl⟩
  | chmod path mode => exact ⟨.ok (), _, .inr ⟨rfl, rfl⟩⟩

/-! ## What a jail is given -/

section

variable {α β : Type} {paths : Shared → Except GoString GoString}

/-- A call for a path is answered from the table. -/
theorem lookup_ask (k : Shared) (f : Except GoString GoString → Except GoString GoString) :
    Once.lookup paths (ExceptT.mk (f <$> Calls.ask k) : ExceptT GoString Asks GoString).run =
      some (f (paths k)) := rfl

/-- What follows is looked up if there was no error. -/
theorem lookup_bind {x : ExceptT GoString Asks α} {f : α → ExceptT GoString Asks β}
    {r : Except GoString α} {g : α → Except GoString β}
    (hx : Once.lookup paths x.run = some r)
    (hf : ∀ a, Once.lookup paths (f a).run = some (g a)) :
    Once.lookup paths (x >>= f).run = some (r.bind g) := by
  show Once.lookup paths (x.run >>= ExceptT.bindCont f) = _
  generalize x.run = p at hx
  induction p with
  | done a =>
      obtain rfl := Option.some.inj hx
      cases a with
      | error err => rfl
      | ok a => exact hf a
  | call k next ih => exact ih (paths k) hx
  | endless => cases hx

end

theorem lookup_seccompArgsBy (paths : Shared → Except GoString GoString) (host : Host)
    (langSeccomp : GoString) :
    Once.lookup paths (seccompArgsBy (fun k => Calls.ask k) host langSeccomp).run =
      some (seccompArgs (host.withPaths paths) langSeccomp) := by
  rw [seccompArgs_eq]
  unfold seccompArgsBy
  simp only []
  split
  · rfl
  · have hbind := lookup_bind (x := ExceptT.mk (Calls.ask .policy)) (r := paths .policy)
      (f := fun path => pure [str "--seccomp_policy", path])
      (g := fun path => .ok [str "--seccomp_policy", path]) rfl fun _ => rfl
    refine hbind.trans (congrArg some ?_)
    show (paths .policy).bind _ = (paths .policy).map _
    cases paths .policy <;> rfl

/-- The paths looked up in a table, `nsjailArgs` gives what it gives on a host with them. -/
theorem lookup_nsjailArgsAsks (paths : Shared → Except GoString GoString) (host : Host)
    (appDir : GoString) (lim : ExecLimits) (uid : Int) (jailCg : Option Cgroupv2.Jail)
    (langSeccomp : GoString) :
    Once.lookup paths (nsjailArgsAsks host appDir lim uid jailCg langSeccomp) =
      some (nsjailArgs (host.withPaths paths) appDir lim uid jailCg langSeccomp) := by
  rw [nsjailArgs_eq]
  exact lookup_bind (lookup_seccompArgsBy paths host langSeccomp) fun _ =>
    lookup_bind (lookup_ask .hosts _) fun _ => lookup_bind (lookup_ask .resolv _) fun _ =>
    lookup_bind (lookup_ask .nsswitch _) fun _ => rfl

theorem noFile_of_none {w : Files} (hw : ∀ path f, w path = some f → f.pattern = none)
    (k : Shared) : NoFile k.masked.pattern w := by
  intro path f hf hpattern
  rw [hw path f hf] at hpattern
  cases hpattern

section

variable {s : Jails} {u : Starting} {host : Host} {appDir : GoString} {lim : ExecLimits}
  {uid : Int} {jailCg : Option Cgroupv2.Jail} {langSeccomp : GoString}

theorem given_of_reached
    {r : Except GoString (List GoString)} {paths : Shared → Except GoString GoString}
    (hno : ∀ k : Shared, NoFile k.masked.pattern w)
    (h : Once.Reached (onceFiles dir) w s) (hpaths : Once.Extends paths s)
    (hu : u ∈ s.askers)
    (hprogram : u.program = nsjailArgsAsks host appDir lim uid jailCg langSeccomp)
    (hpc : u.pc = .out (.done r)) :
    r = nsjailArgs (host.withPaths paths) appDir lim uid jailCg langSeccomp := by
  have heq := h.lookup (onceFiles_sound dir) hno hpaths u hu
  rw [hprogram, lookup_nsjailArgsAsks, hpc] at heq
  exact (Option.some.inj heq).symm

/-- However many jails are started at once, and whatever fails: there are four paths, or
errors, such that what any of them was given, at whatever time, is what `nsjailArgs` gives
with these. And as long as one of them is not done, some jail can go on. -/
theorem jails_agree
    (hw : ∀ path f, w path = some f → f.pattern = none)
    (h : Once.Reached (onceFiles dir) w s) :
    (∃ paths : Shared → Except GoString GoString, ∀ u ∈ s.askers,
      ∀ host appDir lim uid jailCg langSeccomp r,
        u.program = nsjailArgsAsks host appDir lim uid jailCg langSeccomp →
        u.pc = .out (.done r) →
        r = nsjailArgs (host.withPaths paths) appDir lim uid jailCg langSeccomp) ∧
    ∀ (i : ℕ) (u : Starting), s.askers[i]? = some u → u.pc.Going →
      ∃ j t, Once.Move (onceFiles dir) j s t := by
  have hno := noFile_of_none hw
  refine ⟨⟨Once.table s (.error []), ?_⟩, fun i u hu hgoing => ?_⟩
  · intro u hu host appDir lim uid jailCg langSeccomp r hprogram hpc
    exact given_of_reached hno h (Once.extends_table s _) hu hprogram hpc
  · exact h.goes (onceFiles_sound dir) hno (fileAct_total dir) hu hgoing

/-! ## What a jail reads -/

/-- A file that the jailed user can read. -/
def Readable (w : Files) (path data : GoString) : Prop :=
  ∃ f, w path = some f ∧ f.data = data ∧ f.mode = 0o644

/-- The policy of a jail: the embedded one, or the one made for its language. -/
def Policed (w : Files) (host : Host) (langSeccomp : GoString) : Policy → Prop
  | .file path => ∃ f, w path = some f ∧ f.data = Seccomp.policy
  | .text combined => host.combinedWith (parseSyscallNames langSeccomp) = .ok combined

theorem colon_not_mem_tempName (hdir : 58 ∉ dir) (hpattern : 58 ∉ pattern)
    (h : TempName dir pattern path) : 58 ∉ path := by
  obtain ⟨before, after, n, rfl, -, rfl⟩ := h
  have hname : 58 ∉ before ++ itoa n ++ after := by
    simp only [List.mem_append, List.mem_cons, not_or] at hpattern ⊢
    exact ⟨⟨hpattern.1, colon_not_mem_itoa n⟩, hpattern.2.2⟩
  unfold joinPath
  split
  · exact List.not_mem_append hdir hname
  · exact List.not_mem_append hdir (List.not_mem_cons_of_ne_of_not_mem (by decide) hname)

theorem made_of_table (hno : ∀ k : Shared, NoFile k.masked.pattern w)
    (h : Once.Reached (onceFiles dir) w s) {k : Shared} {path : GoString}
    (hk : Once.table s (.error []) k = .ok path) :
    TempName dir k.masked.pattern path ∧ ∃ f, s.world path = some f ∧
      f.data = k.masked.payload ∧ (k.masked.chmod.isSome = true → f.mode = 0o644) := by
  unfold Once.table at hk
  split at hk
  · next r hcell =>
      cases hk
      obtain ⟨hname, f, honly, hf, hdata, hmode⟩ := h.done (onceFiles_sound dir) hno hcell
      exact ⟨hname, f, honly.at hf, hdata, hmode⟩
  · cases hk

/-- Whatever failed on the way, a jail that is started at all sees files with exactly the
masked contents where the host's would lead to its name or its resolver, and is put under the
embedded policy or that policy with its language's denies. -/
theorem jails_masked {n : Nsjail} (hn : n.Documented) {args : List GoString}
    (hw : ∀ path f, w path = some f → f.pattern = none)
    (h : Once.Reached (onceFiles dir) w s) (hu : u ∈ s.askers)
    (hprogram : u.program = nsjailArgsAsks host appDir lim uid jailCg langSeccomp)
    (hpc : u.pc = .out (.done (.ok args))) (hdir : 58 ∉ dir) (happ : 58 ∉ appDir)
    (cmdArgs : List GoString) :
    ∃ os masks, n.reads (args ++ cmdArgs) = some (os, cmdArgs) ∧
      Sees (n.mounts os) appDir masks ∧
      Readable s.world masks.hosts maskedHostsContent ∧
      Readable s.world masks.resolv maskedResolvContent ∧
      Readable s.world masks.nsswitch maskedNsswitchContent ∧
      ∃ policy : Policy, CommandLine.pairsOf NsjailOpt.polices os = [policy.given] ∧
        Policed s.world host langSeccomp policy := by
  have hno := noFile_of_none hw
  have hargs := given_of_reached hno h (Once.extends_table s (.error [])) hu hprogram hpc
  have hcolon : ∀ {k : Shared} {path : GoString},
      Once.table s (.error []) k = .ok path → 58 ∉ path := by
    intro k path hk
    refine colon_not_mem_tempName hdir ?_ (made_of_table hno h hk).1
    cases k <;> decide
  have hreadable : ∀ {k : Shared} {path : GoString}, k.masked.chmod.isSome = true →
      Once.table s (.error []) k = .ok path → Readable s.world path k.masked.payload := by
    intro k path hchmod hk
    obtain ⟨-, f, hf, hdata, hmode⟩ := made_of_table hno h hk
    exact ⟨f, hf, hdata, hmode hchmod⟩
  obtain ⟨masks, policy, os, hlooked, hreads, hpolices, hsees⟩ :=
    jail_view hn hargs.symm (fun masks policy hl =>
      ⟨happ, hcolon hl.hosts, hcolon hl.resolv, hcolon hl.nsswitch⟩) cmdArgs
  refine ⟨os, masks, hreads, hsees, hreadable (k := .hosts) rfl hlooked.hosts,
    hreadable (k := .resolv) rfl hlooked.resolv,
    hreadable (k := .nsswitch) rfl hlooked.nsswitch, policy, hpolices, ?_⟩
  have hpolicy := hlooked.policy
  unfold jailPolicy at hpolicy
  split at hpolicy
  · cases hp : (host.withPaths (Once.table s (.error []))).policyPath with
    | error err => rw [hp] at hpolicy; cases hpolicy
    | ok path =>
        rw [hp] at hpolicy
        cases hpolicy
        obtain ⟨-, f, hf, hdata, -⟩ := made_of_table hno h hp
        exact ⟨f, hf, hdata⟩
  · cases hc : (host.withPaths (Once.table s (.error []))).combinedWith
        (parseSyscallNames langSeccomp) with
    | error err => rw [hc] at hpolicy; cases hpolicy
    | ok combined =>
        rw [hc] at hpolicy
        cases hpolicy
        exact hc

end

/-! ## Two jails at once, and nothing fails -/

section

variable {dir path : GoString} {w : Files} {s : Jails} {i : ℕ} {k : Shared}
  {p : Asks (Except GoString (List GoString))}
  {next : Except GoString GoString → Asks (Except GoString (List GoString))}

/-- The state where program `i` has come to `pc`, with other files and cells. -/
def Jails.comeTo (s : Jails) (i : ℕ) (p : Asks (Except GoString (List GoString)))
    (pc : Once.Pc Shared FileCall FileAnswer (Except GoString GoString)
      (Except GoString (List GoString))) (v : Files)
    (cell : Shared → Once.Cell (Except GoString GoString)) : Jails :=
  ⟨v, cell, s.askers.set i ⟨p, pc⟩⟩

theorem reached_act {pc : Once.Pc Shared FileCall FileAnswer (Except GoString GoString)
      (Except GoString (List GoString))} {v v' : Files}
    {cell : Shared → Once.Cell (Except GoString GoString)} {c : FileCall}
    {after : FileAnswer c → Makes} {x : FileAnswer c} (hi : s.askers[i]? = some ⟨p, pc⟩)
    (h : Once.Reached (onceFiles dir) w (s.comeTo i p (.inside k (.call c after) next) v cell))
    (hact : fileAct dir c v x v') :
    Once.Reached (onceFiles dir) w (s.comeTo i p (.inside k (after x) next) v' cell) := by
  have hnext := h.next (.move i (.act (Family.getElem?_set_self hi) rfl hact))
  simp only [Once.St.goTo, Jails.comeTo, List.set_set] at hnext
  exact hnext

/-- A program that is the first to ask for a path makes the file. -/
theorem reached_made (path : GoString) (h : Once.Reached (onceFiles dir) w s)
    (hi : s.askers[i]? = some ⟨p, .out (.call k next)⟩) (hk : s.cell k = .fresh)
    (hname : TempName dir k.masked.pattern path) (hfree : s.world path = none) :
    ∃ v', (∀ q, q ≠ path → v' q = s.world q) ∧ Once.Reached (onceFiles dir) w
      (s.comeTo i p (.out (next (.ok path))) v'
        (Function.update s.cell k (.done (.ok path)))) := by
  have hfirst : Once.Reached (onceFiles dir) w (s.comeTo i p
      (.inside k (materialize k.masked) next) s.world (Function.update s.cell k (.busy i))) :=
    h.next (.move i (.first hi rfl hk))
  have hcreated := reached_act (c := .createTemp _) (x := (.ok path : Except GoString GoString))
    hi hfirst (.inr ⟨path, 0o600, rfl, hname, hfree, rfl⟩)
  have hwritten := reached_act (c := .write _ _) (x := (.ok () : Except GoString Unit)) hi
    hcreated (.inr ⟨rfl, rfl⟩)
  have hclosed := reached_act (c := .close _) (x := (.ok () : Except GoString Unit)) hi
    hwritten rfl
  have hleft : ∀ {v' : Files}, Once.Reached (onceFiles dir) w (s.comeTo i p
        (.inside k (.done (.ok path)) next) v' (Function.update s.cell k (.busy i))) →
      Once.Reached (onceFiles dir) w (s.comeTo i p (.out (next (.ok path))) v'
        (Function.update s.cell k (.done (.ok path)))) := by
    intro v' hv
    have hleave := hv.next (.move i (.leave (Family.getElem?_set_self hi) rfl))
    simp only [Once.St.goTo, Once.St.fill, Jails.comeTo, List.set_set,
      Function.update_idem] at hleave
    exact hleave
  have hother : ∀ (u : Files) (F : File → File) (q : GoString), q ≠ path →
      u.change path F q = u q := fun u F q hq => Function.update_of_ne hq ..
  cases hm : k.masked.chmod with
  | none =>
      rw [show chmodTemp path k.masked.chmod = .done (.ok path) by rw [hm]; rfl] at hclosed
      refine ⟨_, fun q hq => ?_, hleft hclosed⟩
      rw [hother _ _ _ hq]
      exact Function.update_of_ne hq ..
  | some text =>
      simp only [hm, chmodTemp] at hclosed
      have hmade := reached_act (c := .chmod _ _) (x := (.ok () : Except GoString Unit)) hi
        hclosed (.inr ⟨rfl, rfl⟩)
      refine ⟨_, fun q hq => ?_, hleft hmade⟩
      rw [hother _ _ _ hq, hother _ _ _ hq]
      exact Function.update_of_ne hq ..

end

/-- The first two calls of `nsjailArgs` of a process. -/
def firstAsks : Asks (Except GoString (List GoString)) :=
  nsjailArgsAsks oddHost (str "/tmp/jail-1/app") oddLimits 10001 none []

def secondAsks : Asks (Except GoString (List GoString)) :=
  nsjailArgsAsks oddHost (str "/tmp/jail-2/app") oddLimits 10002 none []

/-- Both come at once. While the first makes the policy file the second waits for it; then each
makes one of the masked files that the other is told of, and the first one the third. -/
theorem first_two_reached :
    ∃ (s t : Jails) (args args' : List GoString),
      Once.Reached (onceFiles (str "/tmp")) (fun _ => none) s ∧
      (∃ u, s.askers[1]? = some u ∧ u.pc.Going) ∧ s.cell .policy = .busy 0 ∧
      Once.Reached (onceFiles (str "/tmp")) (fun _ => none) t ∧
      t.askers = [⟨firstAsks, .out (.done (.ok args))⟩,
        ⟨secondAsks, .out (.done (.ok args'))⟩] := by
  have h₀ : Once.Reached (onceFiles (str "/tmp")) (fun _ => none)
      ⟨fun _ => none, fun _ => .fresh, [⟨firstAsks, .out (.call .policy _)⟩,
        ⟨secondAsks, .out (.call .policy _)⟩]⟩ :=
    (Once.Reached.start.next (.start firstAsks)).next (.start secondAsks)
  have hwaits := h₀.next (.move 0 (.first rfl rfl rfl))
  obtain ⟨v₁, hv₁, h₁⟩ := reached_made (i := 0) (str "/tmp/goboxd-seccomp-1.policy") h₀ rfl rfl
    ⟨str "goboxd-seccomp-", str ".policy", 1, by decide, by decide, by decide⟩ rfl
  have h₂ := h₁.next (.move 1 (.known rfl rfl rfl))
  obtain ⟨v₃, hv₃, h₃⟩ := reached_made (i := 1) (str "/tmp/goboxd-hosts-1.masked") h₂ rfl rfl
    ⟨str "goboxd-hosts-", str ".masked", 1, by decide, by decide, by decide⟩
    (hv₁ _ (by decide))
  have h₄ := h₃.next (.move 0 (.known rfl rfl rfl))
  obtain ⟨v₅, hv₅, h₅⟩ := reached_made (i := 0) (str "/tmp/goboxd-resolv-1.masked") h₄ rfl rfl
    ⟨str "goboxd-resolv-", str ".masked", 1, by decide, by decide, by decide⟩
    ((hv₃ _ (by decide)).trans (hv₁ _ (by decide)))
  have h₆ := h₅.next (.move 1 (.known rfl rfl rfl))
  obtain ⟨v₇, -, h₇⟩ := reached_made (i := 1) (str "/tmp/goboxd-nsswitch-1.masked") h₆ rfl rfl
    ⟨str "goboxd-nsswitch-", str ".masked", 1, by decide, by decide, by decide⟩
    ((hv₅ _ (by decide)).trans ((hv₃ _ (by decide)).trans (hv₁ _ (by decide))))
  have h₈ := h₇.next (.move 0 (.known rfl rfl rfl))
  exact ⟨_, _, _, _, hwaits, ⟨_, rfl, trivial⟩, rfl, h₈, rfl⟩

theorem jails_masked_first :
    ∃ (t : Jails) (os : List (CommandLine.Given NsjailOpt GoString)) (masks : Masks),
      Once.Reached (onceFiles (str "/tmp")) (fun _ => none) t ∧
      Sees (plainNsjail.mounts os) (str "/tmp/jail-1/app") masks ∧
      Readable t.world masks.hosts maskedHostsContent ∧
      Readable t.world masks.resolv maskedResolvContent ∧
      Readable t.world masks.nsswitch maskedNsswitchContent := by
  obtain ⟨-, t, args, args', -, -, -, h, haskers⟩ := first_two_reached
  obtain ⟨os, masks, -, hsees, hhosts, hresolv, hnsswitch, -⟩ :=
    jails_masked plainNsjail_documented (fun _ _ hf => absurd hf.symm (Option.some_ne_none _)) h
      (haskers ▸ List.mem_cons_self) rfl rfl (by decide) (by decide) []
  exact ⟨t, os, masks, h, hsees, hhosts, hresolv, hnsswitch⟩

theorem jails_agree_first :
    ∃ (s t : Jails) (paths : Shared → Except GoString GoString) (args args' : List GoString),
      Once.Reached (onceFiles (str "/tmp")) (fun _ => none) s ∧ s.cell .policy = .busy 0 ∧
      (∃ j u, Once.Move (onceFiles (str "/tmp")) j s u) ∧
      Once.Reached (onceFiles (str "/tmp")) (fun _ => none) t ∧
      nsjailArgs (oddHost.withPaths paths) (str "/tmp/jail-1/app") oddLimits 10001 none [] =
        .ok args ∧
      nsjailArgs (oddHost.withPaths paths) (str "/tmp/jail-2/app") oddLimits 10002 none [] =
        .ok args' := by
  obtain ⟨s, t, args, args', hs, ⟨u, hu, hgoing⟩, hbusy, ht, haskers⟩ := first_two_reached
  have hnone : ∀ (path : GoString) (f : File), (fun _ : GoString => (none : Option File)) path =
      some f → f.pattern = none := fun _ _ hf => absurd hf.symm (Option.some_ne_none _)
  obtain ⟨⟨paths, hpaths⟩, -⟩ := jails_agree hnone ht
  have hmove := (jails_agree hnone hs).2 1 u hu hgoing
  rw [haskers] at hpaths
  exact ⟨s, t, paths, args, args', hs, hbusy, hmove, ht,
    (hpaths _ List.mem_cons_self _ _ _ _ _ _ _ rfl rfl).symm,
    (hpaths _ (List.mem_cons_of_mem _ List.mem_cons_self) _ _ _ _ _ _ _ rfl rfl).symm⟩

end Goboxd.Runner
