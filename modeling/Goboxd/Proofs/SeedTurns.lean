import Goboxd.Lib.PosixTree
import Goboxd.Runner.SeedCalls

/-!
# The calls of a turn stay under its name

A turn of the copy's loop works at a place, a directory of the destination with the
path that leads there, and under the name of one entry. Each of its calls resolves a
path that is the place's and that name: so it finds the place whatever was done inside
it before, and it stops at the name, which is either no link by then or is not
followed.

`Inv` is what holds after every call of a copy, whatever it answered; `Done` is that
what was done, was done at the place and under names of its own. The errors go the
same way as the rest, so that a turn may stop wherever it likes.
-/

namespace Goboxd.Runner.Seed

open Go Posix Posix.Fs Outcome

/-- Two directories to copy between: nothing in the destination is a link, and they have
no directory in common. -/
structure Ready (fs₀ : Fs) (T D : ℕ) : Prop where
  wf : fs₀.Wf
  source : fs₀.isDir T = true
  isDir : fs₀.isDir D = true
  noLinks : ∀ i, fs₀.Inside D i → fs₀.link i = none
  apart : ∀ i, fs₀.Inside T i → fs₀.Inside D i → fs₀.isDir i = false

/-- What holds after every call of a copy from inside `T` to inside `D` that began in
`fs₀`. -/
structure Inv (fs₀ : Fs) (T D : ℕ) (s : Sys) : Prop where
  wf : s.fs.Wf
  works : Works D (fun _ => True) fs₀ s.fs
  /-- What was there before and is no directory is as it was. -/
  leaf : ∀ i < fs₀.next, fs₀.isDir i = false → s.fs.node i = fs₀.node i
  touched : ∀ e ∈ s.touched, e.fs.Inside D e.object
  made : ∀ i, fs₀.next ≤ i → i < s.fs.next → ∃ e ∈ s.touched, e.object = i
  reads : ∀ i ∈ s.reads, fs₀.Inside T i ∧ fs₀.kind i = .file

/-- Nothing but time has passed. -/
structure Quiet (s t : Sys) : Prop where
  fs : t.fs = s.fs
  touched : t.touched = s.touched
  reads : t.reads = s.reads

/-- What was done on the way from `s` to `t` was done at a place, under these names. -/
structure Done (fs₀ : Fs) (T D : ℕ) (p : Place) (N : GoString → Prop) (s t : Sys) : Prop where
  inv : Inv fs₀ T D t
  works : Works p.dir N s.fs t.fs

section Done

variable {fs₀ : Fs} {T D : ℕ} {p : Place} {n : GoString} {N M : GoString → Prop} {s t u : Sys}

theorem Quiet.tick (s : Sys) : Quiet s s.tick := ⟨rfl, rfl, rfl⟩

theorem Quiet.trans (h : Quiet s t) (h' : Quiet t u) : Quiet s u :=
  ⟨h'.fs.trans h.fs, h'.touched.trans h.touched, h'.reads.trans h.reads⟩

theorem Inv.quiet (hI : Inv fs₀ T D s) (h : Quiet s t) : Inv fs₀ T D t := by
  refine ⟨?_, ?_, ?_, ?_, ?_, ?_⟩
  · rw [h.fs]; exact hI.wf
  · rw [h.fs]; exact hI.works
  · rw [h.fs]; exact hI.leaf
  · rw [h.touched]; exact hI.touched
  · rw [h.fs, h.touched]; exact hI.made
  · rw [h.reads]; exact hI.reads

theorem Done.of_quiet (hI : Inv fs₀ T D s) (h : Quiet s t) : Done fs₀ T D p N s t := by
  refine ⟨hI.quiet h, ?_⟩
  rw [h.fs]
  exact Works.refl hI.wf p.dir N

theorem Done.trans (hI : Inv fs₀ T D s) (hp : p.At D s.fs) (h : Done fs₀ T D p N s t)
    (h' : Done fs₀ T D p N t u) : Done fs₀ T D p N s u :=
  ⟨h'.inv, h.works.trans hI.wf hp.isDir h'.works⟩

theorem Done.mono (hI : Inv fs₀ T D s) (h : Done fs₀ T D p N s t) (hsub : ∀ n, N n → M n) :
    Done fs₀ T D p M s t :=
  ⟨h.inv, h.works.mono hI.wf hsub⟩

theorem Done.place (hI : Inv fs₀ T D s) (hp : p.At D s.fs) (h : Done fs₀ T D p N s t) :
    p.At D t.fs :=
  hp.works hI.wf h.works

/-- One edit under the name, with what it made or changed in the log. -/
theorem Done.of_edit (h₀ : Ready fs₀ T D) (hI : Inv fs₀ T D s) (hp : p.At D s.fs)
    (hed : Edit p.dir n s.fs t.fs)
    (hleaf : ∀ i < fs₀.next, fs₀.isDir i = false → t.fs.node i = s.fs.node i)
    (hlog : ∀ e ∈ t.touched, e ∈ s.touched ∨ (e.fs = t.fs ∧ (n, e.object) ∈ t.fs.entries p.dir))
    (hkept : ∀ e ∈ s.touched, e ∈ t.touched)
    (hmade : ∀ i, s.fs.next ≤ i → i < t.fs.next → ∃ e ∈ t.touched, e.object = i)
    (hreads : ∀ i ∈ t.reads, i ∈ s.reads ∨ (fs₀.Inside T i ∧ fs₀.kind i = .file)) :
    Done fs₀ T D p (· = n) s t := by
  have hw := hed.works hI.wf hp.isDir
  have hall := hw.mono hI.wf (M := fun _ => True) fun _ _ => trivial
  refine ⟨⟨hed.wf, ?_, ?_, ?_, ?_, ?_⟩, hw⟩
  · exact hI.works.trans h₀.wf h₀.isDir (hall.up hI.wf hp.inside)
  · intro i hi hd
    rw [hleaf i hi hd, hI.leaf i hi hd]
  · intro e he
    rcases hlog e he with he | ⟨hfs, hmem⟩
    · exact hI.touched e he
    · rw [hfs]
      exact (hw.stays hI.wf hp.inside).tail ⟨n, hmem⟩
  · intro i hi hlt
    by_cases hold : i < s.fs.next
    · obtain ⟨e, he, heq⟩ := hI.made i hi hold
      exact ⟨e, hkept e he, heq⟩
    · exact hmade i (by omega) hlt
  · intro i hi
    rcases hreads i hi with hi | hi
    · exact hI.reads i hi
    · exact hi

end Done

/-! ## The calls -/

section Calls

variable {fs₀ : Fs} {T D : ℕ} {p : Place} {n : GoString} {s : Sys} {w : World}

theorem ends_look {α : Type} (w : World) (f : Fs → Except Errno α) (s : Sys) :
    Ends (look w f) s (fun a t => Quiet s t ∧ f s.fs = .ok a)
      fun e t => Quiet s t ∧ e ≠ .depth := by
  rw [Ends, look]
  simp only [ExceptT.run_mk]
  cases w.fault s.clock with
  | some e => exact ⟨Quiet.tick s, by simp⟩
  | none =>
      cases hf : f s.fs with
      | error e => exact ⟨Quiet.tick s, by simp⟩
      | ok a => exact ⟨Quiet.tick s, rfl⟩

/-- A look whose failure is an answer as well. -/
theorem ends_glance {α : Type} (w : World) (f : Fs → Except Errno α) (s : Sys)
    {E : CopyErr → Sys → Prop} :
    Ends (outcome (look w f)) s (fun r t => Quiet s t ∧ ∀ a, r = .ok a → f s.fs = .ok a) E := by
  refine (ends_look w f s).outcome.mono (F := E) ?_ fun _ _ h => h
  intro r t h
  obtain ⟨hok, herr⟩ := h
  refine ⟨?_, fun a ha => (hok a ha).2⟩
  cases r with
  | ok a => exact (hok a rfl).1
  | error e => exact (herr e rfl).1

theorem ends_take (w : World) (f : Fs → Except Errno Fs) (s : Sys) :
    Ends (take w f) s
      (fun _ t => f s.fs = .ok t.fs ∧ t.touched = s.touched ∧ t.reads = s.reads)
      fun e t => Quiet s t ∧ e ≠ .depth := by
  rw [Ends, take]
  simp only [ExceptT.run_mk]
  cases w.fault s.clock with
  | some e => exact ⟨Quiet.tick s, by simp⟩
  | none =>
      cases hf : f s.fs with
      | error e => exact ⟨Quiet.tick s, by simp⟩
      | ok fs => exact ⟨rfl, rfl, rfl⟩

theorem ends_touch (w : World) (f : Fs → Except Errno (Fs × ℕ)) (s : Sys) :
    Ends (touch w f) s
      (fun i t => f s.fs = .ok (t.fs, i) ∧ t.touched = ⟨i, t.fs⟩ :: s.touched ∧
        t.reads = s.reads)
      fun e t => Quiet s t ∧ e ≠ .depth := by
  rw [Ends, touch]
  simp only [ExceptT.run_mk]
  cases w.fault s.clock with
  | some e => exact ⟨Quiet.tick s, by simp⟩
  | none =>
      cases hf : f s.fs with
      | error e => exact ⟨Quiet.tick s, by simp⟩
      | ok r => exact ⟨rfl, rfl, rfl⟩

end Calls

/-! ## The calls of a turn -/

/-- However `m` ends, what it did was done under these names, and it runs out of depth only
if `B`. -/
def Does (fs₀ : Fs) (T D : ℕ) (p : Place) (N : GoString → Prop) (B : Prop) {α : Type}
    (m : SysM α) (s : Sys) (Q : α → Sys → Prop) : Prop :=
  Ends m s (fun a t => Done fs₀ T D p N s t ∧ Q a t)
    fun e t => Done fs₀ T D p N s t ∧ (e = .depth → B)

section Does

variable {fs₀ : Fs} {T D : ℕ} {p : Place} {n : GoString} {N M : GoString → Prop} {B : Prop}
  {α β : Type} {s : Sys} {w : World} {c : ℕ} {m : SysM α} {Q : α → Sys → Prop}

/-- First something under some of the names, and then the rest. -/
theorem Does.first {f : α → SysM β} {R : β → Sys → Prop} (hsub : ∀ n, N n → M n)
    (hI : Inv fs₀ T D s) (hp : p.At D s.fs) (h : Does fs₀ T D p N B m s Q)
    (hf : ∀ a t, Done fs₀ T D p N s t → p.At D t.fs → Q a t →
      Does fs₀ T D p M B (f a) t R) :
    Does fs₀ T D p M B (m >>= f) s R := by
  refine (h.mono (F := fun e t => Done fs₀ T D p M s t ∧ (e = .depth → B))
    (fun _ _ h => h) fun _ _ h => ⟨h.1.mono hI hsub, h.2⟩).bind fun a t h => ?_
  have hst := h.1.mono hI hsub
  refine (hf a t h.1 (h.1.place hI hp) h.2).mono ?_ ?_
  · exact fun _ u hu => ⟨hst.trans hI hp hu.1, hu.2⟩
  · exact fun _ u hu => ⟨hst.trans hI hp hu.1, hu.2⟩

theorem Does.bind {f : α → SysM β} {R : β → Sys → Prop} (hI : Inv fs₀ T D s)
    (hp : p.At D s.fs) (h : Does fs₀ T D p N B m s Q)
    (hf : ∀ a t, Done fs₀ T D p N s t → p.At D t.fs → Q a t →
      Does fs₀ T D p N B (f a) t R) :
    Does fs₀ T D p N B (m >>= f) s R :=
  h.first (fun _ hn => hn) hI hp hf

theorem Does.outcome (h : Does fs₀ T D p N B m s Q) :
    Does fs₀ T D p N B (outcome m) s fun r t =>
      (∀ a, r = .ok a → Q a t) ∧ ∀ e, r = .error e → e = .depth → B := by
  refine (Ends.outcome (F := fun _ _ => False) h).mono ?_ fun _ _ h => h.elim
  intro r t h
  obtain ⟨hok, herr⟩ := h
  refine ⟨?_, fun a ha => (hok a ha).2, fun e he => (herr e he).2⟩
  cases r with
  | ok a => exact (hok a rfl).1
  | error e => exact (herr e rfl).1

/-- A call that changes nothing when it fails. -/
theorem Does.of_ends (hI : Inv fs₀ T D s)
    (h : Ends m s (fun a t => Done fs₀ T D p N s t ∧ Q a t)
      fun e t => Quiet s t ∧ e ≠ .depth) : Does fs₀ T D p N B m s Q :=
  h.mono (fun _ _ ht => ht) fun _ _ ht =>
    ⟨Done.of_quiet hI ht.1, fun he => absurd he ht.2⟩

theorem does_pure {a : α} (hI : Inv fs₀ T D s) (h : Q a s) :
    Does fs₀ T D p N B (pure a) s Q :=
  ends_pure ⟨Done.of_quiet hI ⟨rfl, rfl, rfl⟩, h⟩

theorem does_throw {e : CopyErr} (hI : Inv fs₀ T D s) (h : e = .depth → B) :
    Does fs₀ T D p N B (throw e) s Q :=
  ends_throw ⟨Done.of_quiet hI ⟨rfl, rfl, rfl⟩, h⟩

theorem does_raise {r : Except CopyErr α} (hI : Inv fs₀ T D s)
    (h : ∀ e, r = .error e → e = .depth → B) :
    Does fs₀ T D p N B (raise r) s fun a t => r = .ok a ∧ Quiet s t := by
  have hq : Done fs₀ T D p N s s := Done.of_quiet hI ⟨rfl, rfl, rfl⟩
  exact ends_raise (fun a ha => ⟨hq, ha, ⟨rfl, rfl, rfl⟩⟩) fun e he => ⟨hq, h e he⟩

theorem does_look (hI : Inv fs₀ T D s) (f : Fs → Except Errno α) :
    Does fs₀ T D p N B (look w f) s fun a t => Quiet s t ∧ f s.fs = .ok a :=
  Does.of_ends hI ((ends_look w f s).mono (fun _ _ h => ⟨Done.of_quiet hI h.1, h⟩)
    fun _ _ h => h)

/-- A call that takes the name away. -/
theorem does_take (h₀ : Ready fs₀ T D) (hI : Inv fs₀ T D s) (hp : p.At D s.fs)
    {f : Fs → Except Errno Fs} (hf : ∀ fs', f s.fs = .ok fs' → fs' = s.fs.cut p.dir n) :
    Does fs₀ T D p (· = n) B (take w f) s fun _ _ => True := by
  refine Does.of_ends hI ((ends_take w f s).mono ?_ fun _ _ h => h)
  intro a t h
  obtain ⟨hrun, htouched, hreads⟩ := h
  have hfs := hf t.fs hrun
  have hed : Edit p.dir n s.fs t.fs := by
    rw [hfs]
    exact edit_cut hI.wf hp.isDir n
  have hnext : t.fs.next = s.fs.next := by
    rw [hfs]
    exact setEntries_next
  refine ⟨Done.of_edit h₀ hI hp hed ?_ ?_ ?_ ?_ ?_, trivial⟩
  · intro i hi hd
    rw [hfs]
    refine node_setEntries_ne fun heq => ?_
    rw [← hI.works.isDir i hi, heq, hp.isDir] at hd
    cases hd
  · rw [htouched]
    exact fun e he => .inl he
  · rw [htouched]
    exact fun e he => he
  · intro i hi hlt
    omega
  · rw [hreads]
    exact fun i hi => .inl hi

/-- A call that makes something. -/
theorem ends_add (h₀ : Ready fs₀ T D) (hI : Inv fs₀ T D s) (hp : p.At D s.fs)
    (hn : Walk.IsName n) {f : Fs → Except Errno (Fs × ℕ)} {x : Node}
    (hnew : ∀ o m q es, x = .dir o m q es → es = [])
    (hf : ∀ r, f s.fs = .ok r →
      s.fs.child p.dir n = none ∧ r = (s.fs.add p.dir n x, s.fs.next)) :
    Ends (touch w f) s
      (fun c t => Done fs₀ T D p (· = n) s t ∧ t.fs.child p.dir n = some c ∧ fs₀.next ≤ c ∧
        t.fs.node c = some x)
      fun e t => Quiet s t ∧ e ≠ .depth := by
  refine (ends_touch w f s).mono ?_ fun _ _ h => h
  intro c t h
  obtain ⟨hrun, htouched, hreads⟩ := h
  obtain ⟨hfree, hr⟩ := hf _ hrun
  obtain ⟨hfs, hc⟩ := Prod.mk.injEq .. ▸ hr
  have hed : Edit p.dir n s.fs t.fs := by
    rw [hfs]
    exact edit_add hI.wf hp.isDir hn hfree hnew
  have hentry : (n, c) ∈ t.fs.entries p.dir := by
    rw [hfs, entries_add hI.wf hp.isDir, hc]
    exact List.mem_append_right _ List.mem_cons_self
  have hdlt := hI.wf.lt_of_isDir hp.isDir
  have hnext := hI.works.next
  refine ⟨Done.of_edit h₀ hI hp hed ?_ ?_ ?_ ?_ ?_, ?_, ?_, ?_⟩
  · intro i hi hd
    rw [hfs]
    refine node_add_ne (fun heq => ?_) (by omega)
    rw [← hI.works.isDir i hi, heq, hp.isDir] at hd
    cases hd
  · rw [htouched]
    intro e he
    rcases List.mem_cons.mp he with he | he
    · rw [he]
      exact .inr ⟨rfl, hentry⟩
    · exact .inl he
  · rw [htouched]
    exact fun e he => List.mem_cons_of_mem _ he
  · intro i hi hlt
    refine ⟨⟨c, t.fs⟩, by rw [htouched]; exact List.mem_cons_self, ?_⟩
    have hsucc : t.fs.next = s.fs.next + 1 := by rw [hfs]; rfl
    show c = i
    omega
  · rw [hreads]
    exact fun i hi => .inl hi
  · exact hed.wf.child_iff.mpr hentry
  · omega
  · rw [hfs, hc]
    exact node_add_new

/-- What a call changes under the name is a directory or is new. -/
structure Mine (fs₀ : Fs) (p : Place) (n : GoString) (c : ℕ) (fs : Fs) : Prop where
  child : fs.child p.dir n = some c
  mine : fs₀.next ≤ c ∨ fs.isDir c = true

theorem Done.of_modify (h₀ : Ready fs₀ T D) (hI : Inv fs₀ T D s) (hp : p.At D s.fs)
    (hm : Mine fs₀ p n c s.fs) {g : Node → Node} (hg : ∀ node, shape (g node) = shape node)
    {t : Sys} (hfs : t.fs = s.fs.modify c g) (htouched : t.touched = ⟨c, t.fs⟩ :: s.touched)
    (hreads : ∀ i ∈ t.reads, i ∈ s.reads ∨ (fs₀.Inside T i ∧ fs₀.kind i = .file)) :
    Done fs₀ T D p (· = n) s t ∧ Mine fs₀ p n c t.fs ∧ t.fs.link c = s.fs.link c ∧
      ∀ i, t.fs.entries i = s.fs.entries i := by
  have hentry := hI.wf.child_iff.mp hm.child
  have hshape : ∀ i, t.fs.entries i = s.fs.entries i ∧ t.fs.isDir i = s.fs.isDir i ∧
      t.fs.link i = s.fs.link i := by
    intro i
    rw [hfs]
    exact of_shape (shape_modify s.fs c hg i)
  have hed : Edit p.dir n s.fs t.fs := by
    rw [hfs]
    exact edit_modify hI.wf hentry hg
  have hnext : t.fs.next = s.fs.next := by
    rw [hfs]
    exact modify_next s.fs c g
  refine ⟨Done.of_edit h₀ hI hp hed ?_ ?_ ?_ ?_ hreads, ⟨?_, ?_⟩, (hshape c).2.2,
    fun i => (hshape i).1⟩
  · intro i hi hd
    rw [hfs]
    refine node_modify_ne (fun heq => ?_) g
    rcases hm.mine with hge | hdir
    · omega
    · rw [← hI.works.isDir i hi, heq, hdir] at hd
      cases hd
  · rw [htouched]
    intro e he
    rcases List.mem_cons.mp he with he | he
    · rw [he]
      refine .inr ⟨rfl, ?_⟩
      show (n, c) ∈ t.fs.entries p.dir
      rw [(hshape p.dir).1]
      exact hentry
    · exact .inl he
  · rw [htouched]
    exact fun e he => List.mem_cons_of_mem _ he
  · intro i hi hlt
    omega
  · rw [Fs.child, (hshape p.dir).1]
    exact hm.child
  · rw [(hshape c).2.1]
    exact hm.mine

/-- A call that changes what it finds. -/
theorem does_change (h₀ : Ready fs₀ T D) (hI : Inv fs₀ T D s) (hp : p.At D s.fs)
    (hn : Walk.IsName n) (hm : Mine fs₀ p n c s.fs) {follow : Bool}
    (hlink : follow = true → s.fs.link c = none) {g : Node → Node}
    (hg : ∀ node, shape (g node) = shape node) :
    Does fs₀ T D p (· = n) B (touch w fun fs => fs.change follow (p.path ++ 47 :: n) g) s
      fun _ t => Mine fs₀ p n c t.fs ∧ t.fs.link c = s.fs.link c ∧
        ∀ i, t.fs.entries i = s.fs.entries i := by
  refine Does.of_ends hI ((ends_touch w _ s).mono ?_ fun _ _ h => h)
  intro i t h
  obtain ⟨hrun, htouched, hreads⟩ := h
  rw [hp.here.change hn hm.child hlink g] at hrun
  obtain ⟨hfs, hc⟩ := Prod.mk.injEq .. ▸ Except.ok.inj hrun
  rw [← hc] at htouched
  refine Done.of_modify h₀ hI hp hm hg hfs.symm htouched ?_
  rw [hreads]
  exact fun i hi => .inl hi

end Does

/-! ## Directories on the way -/

theorem parentDir_front {path : GoString} (h : parentDir path ≠ []) :
    ∃ dir rest, path = dir ++ 47 :: rest ∧ parentDir path = dir ++ [47] := by
  have hstrip : (path.rdropWhile fun c => c == 47) <+: path := List.rdropWhile_prefix _ _
  have hname : parentDir path <+: path.rdropWhile fun c => c == 47 := List.rdropWhile_prefix _ _
  have hpre := hname.trans hstrip
  have hlast : (parentDir path).getLast h = 47 := by
    have hnot := List.rdropWhile_last_not (fun c => c != 47) (path.rdropWhile fun c => c == 47) h
    have heq := bne_iff_ne.not_left.mp hnot
    exact heq
  obtain ⟨rest, hrest⟩ := hpre
  have hsplit := List.dropLast_append_getLast h
  rw [hlast] at hsplit
  refine ⟨(parentDir path).dropLast, rest, ?_, hsplit.symm⟩
  rw [← List.singleton_append, ← List.append_assoc, hsplit, hrest]

theorem parentDir_lt {path : GoString} (h : parentDir path ≠ []) :
    (parentDir path).length < path.length := by
  have hpre : parentDir path <+: path.rdropWhile fun c => c == 47 := List.rdropWhile_prefix _ _
  have hpre' : (path.rdropWhile fun c => c == 47) <+: path := List.rdropWhile_prefix _ _
  have hle := hpre.length_le
  have hle' := hpre'.length_le
  by_cases hsame : (path.rdropWhile fun c => c == 47) = path
  · obtain ⟨dir, rest, hpath, hparent⟩ := parentDir_front h
    cases rest with
    | nil =>
        -- a path that ends in a slash loses it
        rw [hpath, List.rdropWhile_concat_pos _ _ _ (by simp)] at hsame
        have hfront : (dir.rdropWhile fun c => c == 47) <+: dir := List.rdropWhile_prefix _ _
        have hshort := hfront.length_le
        have hlen := congrArg List.length hsame
        rw [List.length_append, List.length_singleton] at hlen
        omega
    | cons c cs =>
        rw [hparent, hpath]
        simp
  · have hne : (path.rdropWhile fun c => c == 47).length ≠ path.length :=
      fun heq => hsame (hpre'.eq_of_length heq)
    omega

/-- Where something stands already, nothing is made. -/
theorem ends_mkdirLast (w : World) (mode : BitVec 12) {path : GoString} {s : Sys} {d : ℕ}
    (ht : s.fs.There) (hres : s.fs.resolve true path = .ok d) :
    Ends (mkdirLast w path mode) s (fun _ t => Quiet s t) fun e t => Quiet s t ∧ e ≠ .depth := by
  obtain ⟨x, hx⟩ := create_error ht hres fun d => .dir w.euid (mode &&& ~~~w.umask) d []
  rw [mkdirLast]
  refine (ends_touch w _ s).outcome.bind fun r t h => ?_
  obtain ⟨hok, herr⟩ := h
  cases r with
  | ok i =>
      have hmade := (hok i rfl).1
      rw [Fs.mkdir, hx] at hmade
      cases hmade
  | error e =>
      obtain ⟨ht, hne⟩ := herr e rfl
      refine (ends_glance w _ t).bind fun r u h => ?_
      have hu := h.1
      split
      · exact ends_pure (ht.trans hu)
      · exact ends_throw ⟨ht.trans hu, hne⟩

/-- Where a directory stands already, nothing is made. -/
theorem ends_parents (w : World) (mode : BitVec 12) : ∀ (fuel : ℕ) {path : GoString} {s : Sys},
    s.fs.There → (∃ d, s.fs.resolve true path = .ok d ∧ s.fs.isDir d = true) →
      Ends (mkdirAll w fuel path mode) s (fun _ t => Quiet s t)
        fun e t => Quiet s t ∧ (e = .depth → fuel ≤ path.length) := by
  intro fuel
  induction fuel with
  | zero => exact fun _ _ => ends_throw ⟨⟨rfl, rfl, rfl⟩, fun _ => Nat.zero_le _⟩
  | succ fuel ih =>
      intro path s ht hdir
      obtain ⟨d, hres, hd⟩ := hdir
      rw [mkdirAll]
      refine (ends_glance w _ s).bind fun r t h => ?_
      obtain ⟨hq, hok⟩ := h
      cases r with
      | ok info =>
          have hstat := hok info rfl
          obtain ⟨o, m, q, es, hnode⟩ := node_of_isDir hd
          rw [stat, hres] at hstat
          simp only [hnode] at hstat
          cases hstat
          exact ends_pure hq
      | error e =>
          have hlast : ∀ u, Quiet s u → Ends (mkdirLast w path mode) u (fun _ t => Quiet s t)
              fun e t => Quiet s t ∧ (e = .depth → fuel + 1 ≤ path.length) := by
            intro u hu
            refine (ends_mkdirLast w mode (hu.fs ▸ ht) (hu.fs ▸ hres)).mono
              (fun _ v hv => hu.trans hv) fun e v hv => ?_
            exact ⟨hu.trans hv.1, fun he => absurd he hv.2⟩
          simp only
          split
          · next hparent =>
              obtain ⟨dir, rest, hpath, heq⟩ := parentDir_front hparent
              have hlt := parentDir_lt hparent
              have hup : ∃ d, t.fs.resolve true (parentDir path) = .ok d ∧
                  t.fs.isDir d = true := by
                rw [hq.fs, heq]
                rw [hpath] at hres
                exact resolve_front ht hres
              refine ((ih (hq.fs ▸ ht) hup).mono (fun _ u hu => hq.trans hu) ?_).bind
                fun _ u hu => hlast u hu
              intro e u hu
              exact ⟨hq.trans hu.1, fun hdepth => by have := hu.2 hdepth; omega⟩
          · exact hlast t hq

theorem parentDir_child (path : GoString) {name : GoString} (hn : Walk.IsName name) :
    parentDir (path ++ 47 :: name) = path ++ [47] := by
  have hlast : (path ++ 47 :: name).rdropWhile (fun c => c == 47) = path ++ 47 :: name := by
    refine List.rdropWhile_eq_self_iff.mpr fun hl => ?_
    have hmem : (path ++ 47 :: name).getLast hl ∈ name := by
      rw [List.getLast_append_of_ne_nil _ (List.cons_ne_nil 47 name), List.getLast_cons hn.ne_nil]
      exact List.getLast_mem hn.ne_nil
    intro heq
    rw [beq_iff_eq.mp heq] at hmem
    exact hn.no_slash hmem
  have hname : ∀ c ∈ name.reverse, (c != 47) = true := by
    intro c hc
    refine bne_iff_ne.mpr fun heq => hn.no_slash ?_
    rw [← heq]
    exact List.mem_reverse.mp hc
  rw [parentDir, hlast, List.rdropWhile, List.reverse_append, List.reverse_cons,
    List.append_assoc, List.dropWhile_append_of_pos hname]
  simp

/-! ## What waits under a name -/

/-- All that is inside was there when the copy began. -/
def Old (fs₀ : Fs) (D : ℕ) (fs : Fs) (c : ℕ) : Prop :=
  ∀ x, fs.Inside c x → x < fs₀.next ∧ fs₀.Inside D x

section Old

variable {fs₀ : Fs} {T D : ℕ} {p : Place} {n : GoString} {N M : GoString → Prop} {B : Prop}
  {s t : Sys} {w : World} {c d : ℕ}

theorem Old.child {fs : Fs} (h : Old fs₀ D fs c) (hd : fs.Child c d) : Old fs₀ D fs d :=
  fun x hx => h x (Relation.ReflTransGen.head hd hx)

theorem Old.link (h₀ : Ready fs₀ T D) (hI : Inv fs₀ T D s) (h : Old fs₀ D s.fs c) :
    s.fs.link c = none := by
  obtain ⟨hlt, hin⟩ := h c .refl
  rw [hI.works.link c hlt]
  exact h₀.noLinks c hin

/-- All that has one of these names in the place was there when the copy began. -/
def Waiting (fs₀ : Fs) (D : ℕ) (p : Place) (N : GoString → Prop) (fs : Fs) : Prop :=
  ∀ n c, N n → (n, c) ∈ fs.entries p.dir → Old fs₀ D fs c

/-- What waits under other names is left alone. -/
theorem Waiting.done (hI : Inv fs₀ T D s) (h : Done fs₀ T D p N s t)
    (hne : ∀ m, M m → ¬ N m) (hwait : Waiting fs₀ D p M s.fs) : Waiting fs₀ D p M t.fs := by
  intro m c hm hc x hx
  have hc' := (h.works.other m c (hne m hm)).mp hc
  exact hwait m c hm hc' x (h.works.sibling hI.wf (hne m hm) hc' hx)

/-- A directory that stands under the name, and what is inside it. -/
structure Subdir (fs₀ : Fs) (D : ℕ) (p : Place) (n : GoString) (c : ℕ) (fs : Fs) : Prop where
  mine : Mine fs₀ p n c fs
  isDir : fs.isDir c = true
  old : ∀ m x, (m, x) ∈ fs.entries c → Old fs₀ D fs x

/-- What `stat` and `lstat` take for a directory is one. -/
theorem subdir_of_stat (h₀ : Ready fs₀ T D) (hI : Inv fs₀ T D s) (hp : p.At D s.fs)
    (hn : Walk.IsName n) (hwait : Waiting fs₀ D p (· = n) s.fs)
    {follow : Bool} {mode : BitVec 12}
    (h : s.fs.stat follow (p.path ++ 47 :: n) = .ok (.dir, mode)) :
    ∃ c, Subdir fs₀ D p n c s.fs := by
  cases hc : s.fs.child p.dir n with
  | none =>
      rw [stat, hp.here.resolve_none hn hp.isDir hc] at h
      cases h
  | some c =>
      have hentry := hI.wf.child_iff.mp hc
      have hold := hwait n c rfl hentry
      rw [stat, hp.here.resolve_some hn hc (hold.link h₀ hI)] at h
      simp only at h
      split at h
      · next node hnode =>
          have hd : s.fs.isDir c = true := by
            rw [Fs.isDir, hnode]
            cases node with
            | dir o m q es => rfl
            | _ => cases h
          exact ⟨c, ⟨hc, .inr hd⟩, hd, fun m x hx => hold.child ⟨m, hx⟩⟩
      · cases h

theorem Subdir.quiet {fs fs' : Fs} (h : Subdir fs₀ D p n c fs) (heq : fs' = fs) :
    Subdir fs₀ D p n c fs' := heq ▸ h

/-- The end of `MkdirAll`, of a name in the directory. -/
theorem turns_mkdirLast (h₀ : Ready fs₀ T D) (hI : Inv fs₀ T D s) (hp : p.At D s.fs)
    (hn : Walk.IsName n) (hwait : Waiting fs₀ D p (· = n) s.fs)
    (mode : BitVec 12) :
    Does fs₀ T D p (· = n) B (mkdirLast w (p.path ++ 47 :: n) mode) s
      fun _ t => ∃ c, Subdir fs₀ D p n c t.fs := by
  have hadd := ends_add (w := w) h₀ hI hp hn
    (f := fun fs => fs.mkdir w.euid (mode &&& ~~~w.umask) (p.path ++ 47 :: n))
    (x := .dir w.euid (mode &&& ~~~w.umask) p.dir [])
    (fun _ _ _ _ h => by cases h; rfl) fun r hr => hp.here.create hn hp.isDir hr
  rw [mkdirLast]
  refine hadd.outcome.bind fun r t h => ?_
  obtain ⟨hok, herr⟩ := h
  cases r with
  | ok c =>
      obtain ⟨hturn, hc, hnew, hnode⟩ := hok c rfl
      have hd : t.fs.isDir c = true := by rw [Fs.isDir, hnode]
      refine ends_pure ⟨hturn, c, ⟨hc, .inl hnew⟩, hd, fun m x hx => ?_⟩
      rw [Fs.entries, hnode] at hx
      cases hx
  | error e =>
      obtain ⟨ht, hne⟩ := herr e rfl
      refine (ends_glance w _ t).bind fun r u h => ?_
      obtain ⟨hu, hok'⟩ := h
      have hsu := ht.trans hu
      split
      · next m =>
          have hstat := hok' _ rfl
          rw [ht.fs] at hstat
          obtain ⟨c, hc⟩ := subdir_of_stat h₀ hI hp hn hwait hstat
          exact ends_pure ⟨Done.of_quiet hI hsu, c, hc.quiet hsu.fs⟩
      · exact ends_throw ⟨Done.of_quiet hI hsu, fun he => absurd he hne⟩

/-- `MkdirAll`, of a name in the directory. -/
theorem turns_mkdirAll (h₀ : Ready fs₀ T D) (hI : Inv fs₀ T D s) (hp : p.At D s.fs)
    (hn : Walk.IsName n) (hwait : Waiting fs₀ D p (· = n) s.fs)
    (mode : BitVec 12) :
    Does fs₀ T D p (· = n) B
      (mkdirAll w ((p.path ++ 47 :: n).length + 1) (p.path ++ 47 :: n) mode) s
      fun _ t => ∃ c, Subdir fs₀ D p n c t.fs := by
  have hlast : ∀ u, Quiet s u → Ends (mkdirLast w (p.path ++ 47 :: n) mode) u
      (fun _ t => Done fs₀ T D p (· = n) s t ∧ ∃ c, Subdir fs₀ D p n c t.fs)
      fun e t => Done fs₀ T D p (· = n) s t ∧ (e = .depth → B) := by
    intro u hu
    have hsu : Done fs₀ T D p (· = n) s u := Done.of_quiet hI hu
    refine (turns_mkdirLast (B := B) h₀ hsu.inv (hu.fs ▸ hp) hn (hu.fs ▸ hwait) mode).mono ?_ ?_
    · exact fun _ t ht => ⟨hsu.trans hI hp ht.1, ht.2⟩
    · exact fun _ t ht => ⟨hsu.trans hI hp ht.1, ht.2⟩
  rw [mkdirAll]
  refine (ends_glance w _ s).bind fun r t h => ?_
  obtain ⟨hq, hok⟩ := h
  cases r with
  | ok info =>
      have hstat := hok info rfl
      obtain ⟨kind, m⟩ := info
      have hturn : Done fs₀ T D p (· = n) s t := Done.of_quiet hI hq
      simp only
      split
      · next hkind =>
          rw [hkind] at hstat
          obtain ⟨c, hc⟩ := subdir_of_stat h₀ hI hp hn hwait hstat
          exact ends_pure ⟨hturn, c, hc.quiet hq.fs⟩
      · exact ends_throw ⟨hturn, fun he => by cases he⟩
  | error e =>
      have hup : ∃ d, t.fs.resolve true (parentDir (p.path ++ 47 :: n)) = .ok d ∧
          t.fs.isDir d = true := by
        rw [hq.fs, parentDir_child p.path hn]
        exact ⟨p.dir, hp.here.resolve_slash hp.isDir, hp.isDir⟩
      have hlt : (parentDir (p.path ++ 47 :: n)).length < (p.path ++ 47 :: n).length := by
        refine parentDir_lt ?_
        rw [parentDir_child p.path hn]
        simp
      simp only
      split
      · refine ((ends_parents w mode _ (hq.fs ▸ hI.wf.there) hup).mono
          (fun _ u hu => hq.trans hu) ?_).bind fun _ u hu => hlast u hu
        intro e u hu
        refine ⟨Done.of_quiet hI (hq.trans hu.1), fun hdepth => ?_⟩
        have := hu.2 hdepth
        omega
      · exact hlast t hq

end Old

/-! ## The turns -/

section Copy

variable {fs₀ : Fs} {T D : ℕ} {p : Place} {n : GoString} {B : Prop} {s : Sys} {w : World}
  {uid : Int} {i c : ℕ}

theorem turns_remove (h₀ : Ready fs₀ T D) (hI : Inv fs₀ T D s) (hp : p.At D s.fs)
    (hn : Walk.IsName n) :
    Does fs₀ T D p (· = n) B (remove w (p.path ++ 47 :: n)) s fun _ _ => True := by
  rw [remove]
  refine (does_take h₀ hI hp fun _ hr => hp.here.unlink hn hp.isDir hr).outcome.bind hI hp
    fun r t ht hpt ⟨_, hB⟩ => ?_
  cases r with
  | ok a => exact does_pure ht.inv trivial
  | error e =>
      refine (does_take h₀ ht.inv hpt fun _ hr => hpt.here.rmdir hn hpt.isDir hr).outcome.bind
        ht.inv hpt fun r u hu _ ⟨_, hB'⟩ => ?_
      cases r with
      | ok a => exact does_pure hu.inv trivial
      | error e1 =>
          refine does_throw hu.inv ?_
          split
          · exact hB e rfl
          · exact hB' e1 rfl

theorem shape_setOwner (uid : Int) (node : Node) : shape (node.setOwner uid) = shape node := by
  cases node <;> rfl

theorem shape_setMode (mode : BitVec 12) (node : Node) :
    shape (node.setMode mode) = shape node := by
  cases node <;> rfl

theorem shape_append (bytes : GoString) (node : Node) :
    shape (node.append bytes) = shape node := by
  cases node <;> rfl

/-- A link is copied. -/
theorem turns_copySymlink (h₀ : Ready fs₀ T D) (hI : Inv fs₀ T D s) (hp : p.At D s.fs)
    (hn : Walk.IsName n) (src : GoString) :
    Does fs₀ T D p (· = n) B (copySymlink w uid src (p.path ++ 47 :: n)) s fun _ _ => True := by
  rw [copySymlink]
  refine (does_look hI _).bind hI hp fun target t ht hpt _ => ?_
  refine (turns_remove h₀ ht.inv hpt hn).outcome.bind ht.inv hpt fun _ u hu hpu _ => ?_
  have hadd := ends_add (w := w) h₀ hu.inv hpu hn
    (f := fun fs => fs.symlink w.euid target (p.path ++ 47 :: n))
    (x := .symlink w.euid target) (fun _ _ _ _ h => by cases h) fun r hr => by
      simp only [Fs.symlink] at hr
      split at hr
      · cases hr
      · exact hpu.here.create hn hpu.isDir hr
  refine (Does.of_ends hu.inv hadd).bind hu.inv hpu fun c v hv hpv hc => ?_
  refine (does_change h₀ hv.inv hpv hn ⟨hc.1, .inl hc.2.1⟩ (fun h => by cases h)
    (shape_setOwner uid)).bind hv.inv hpv fun _ x hx _ _ => ?_
  exact does_pure hx.inv trivial

theorem file_of_kind {fs : Fs} (h : fs.kind i = .file) :
    ∃ o m data, fs.node i = some (.file o m data) := by
  rw [Fs.kind] at h
  split at h
  · next node hnode =>
      cases node with
      | file o m data => exact ⟨o, m, data, hnode⟩
      | _ => cases h
  · cases h

theorem isDir_of_kind {fs : Fs} (h : fs.kind i = .dir) : fs.isDir i = true := by
  rw [Fs.kind] at h
  split at h
  · next node hnode =>
      rw [Fs.isDir, hnode]
      cases node with
      | dir o m q es => rfl
      | _ => cases h
  · cases h

/-- A file of the template is as it was. -/
theorem Inv.file (h₀ : Ready fs₀ T D) (hI : Inv fs₀ T D s) (h : fs₀.kind i = .file) :
    s.fs.node i = fs₀.node i := by
  obtain ⟨o, m, data, hnode⟩ := file_of_kind h
  refine hI.leaf i ?_ (by rw [Fs.isDir, hnode])
  by_contra hge
  rw [h₀.wf.unused i (Nat.le_of_not_lt hge)] at hnode
  cases hnode

/-- A new file that stands under the name. -/
structure NewFile (fs₀ : Fs) (p : Place) (n : GoString) (c : ℕ) (fs : Fs) : Prop where
  mine : Mine fs₀ p n c fs
  link : fs.link c = none

theorem turns_ioCopy (h₀ : Ready fs₀ T D) (hI : Inv fs₀ T D s) (hp : p.At D s.fs)
    (hc : NewFile fs₀ p n c s.fs) (hi : fs₀.Inside T i ∧ fs₀.kind i = .file) :
    Does fs₀ T D p (· = n) B (ioCopy w i c) s fun _ t => NewFile fs₀ p n c t.fs := by
  obtain ⟨o, m, data, hnode⟩ := file_of_kind hi.2
  rw [← hI.file h₀ hi.2] at hnode
  have hwritten : ∀ k, ∃ t : Sys, t = { s.tick with
        fs := s.fs.modify c (Node.append (data.take k)),
        touched := ⟨c, s.fs.modify c (Node.append (data.take k))⟩ :: s.touched,
        reads := i :: s.reads } ∧
      Done fs₀ T D p (· = n) s t ∧ NewFile fs₀ p n c t.fs := by
    intro k
    refine ⟨_, rfl, ?_⟩
    obtain ⟨hturn, hmine, hlink, -⟩ := Done.of_modify (t := { s.tick with
        fs := s.fs.modify c (Node.append (data.take k)),
        touched := ⟨c, s.fs.modify c (Node.append (data.take k))⟩ :: s.touched,
        reads := i :: s.reads }) h₀ hI hp hc.mine (shape_append (data.take k)) rfl rfl
      fun j hj => by
        rcases List.mem_cons.mp hj with hj | hj
        · rw [hj]
          exact .inr hi
        · exact .inl hj
    exact ⟨hturn, hmine, hlink.trans hc.link⟩
  rw [Does, Ends, ioCopy]
  simp only [ExceptT.run_mk, hnode]
  cases w.fault s.clock with
  | none =>
      obtain ⟨t, rfl, hturn, hfile⟩ := hwritten data.length
      exact ⟨hturn, hfile⟩
  | some e =>
      obtain ⟨t, rfl, hturn, hfile⟩ := hwritten (w.written s.clock)
      exact ⟨hturn, fun he => by cases he⟩

theorem turns_copyBytes (h₀ : Ready fs₀ T D) (hI : Inv fs₀ T D s) (hp : p.At D s.fs)
    (hc : NewFile fs₀ p n c s.fs) (hi : fs₀.Inside T i ∧ fs₀.kind i = .file) :
    Does fs₀ T D p (· = n) B (copyBytes w i c) s fun _ t => NewFile fs₀ p n c t.fs := by
  rw [copyBytes]
  refine (turns_ioCopy h₀ hI hp hc hi).outcome.bind hI hp fun cErr t ht hpt ⟨hc, hcB⟩ => ?_
  refine (does_look ht.inv _).outcome.bind ht.inv hpt fun inErr u hu hpu ⟨hin, hinB⟩ => ?_
  refine (does_look hu.inv _).outcome.bind hu.inv hpu fun outErr v hv hpv ⟨hout, houtB⟩ => ?_
  -- what is raised first is what failed, and if nothing did all three are values
  refine (does_raise hv.inv hcB).bind hv.inv hpv fun a x hx hpx ⟨ha, hqx⟩ => ?_
  refine (does_raise hx.inv hinB).bind hx.inv hpx fun b y hy _ ⟨hb, hqy⟩ => ?_
  refine (does_raise hy.inv houtB).mono ?_ fun _ _ h => h
  intro d z ⟨hz, hd, hqz⟩
  have hsame : z.fs = t.fs := by
    rw [hqz.fs, hqy.fs, hqx.fs, (hout d hd).1.fs, (hin b hb).1.fs]
  refine ⟨hz, ?_⟩
  show NewFile fs₀ p n c z.fs
  rw [hsame]
  exact hc a ha

/-- The file that is written to is made here, or nothing is. -/
theorem turns_openExcl (h₀ : Ready fs₀ T D) (hI : Inv fs₀ T D s) (hp : p.At D s.fs)
    (hn : Walk.IsName n) (mode : BitVec 12) :
    Does fs₀ T D p (· = n) B (touch w fun fs => fs.openExcl w.euid mode (p.path ++ 47 :: n)) s
      fun c t => NewFile fs₀ p n c t.fs := by
  have hadd := ends_add (w := w) h₀ hI hp hn
    (f := fun fs => fs.openExcl w.euid mode (p.path ++ 47 :: n))
    (x := .file w.euid mode []) (fun _ _ _ _ h => by cases h)
    fun r hr => hp.here.create hn hp.isDir hr
  refine Does.of_ends hI (hadd.mono ?_ fun _ _ h => h)
  intro c t ht
  obtain ⟨ht, hc, hnew, hnode⟩ := ht
  exact ⟨ht, ⟨hc, .inl hnew⟩, by rw [Fs.link, hnode]⟩

/-- A regular file is copied. -/
theorem turns_copyRegular (h₀ : Ready fs₀ T D) (hI : Inv fs₀ T D s) (hp : p.At D s.fs)
    (hn : Walk.IsName n) {info src : GoString} (hi : fs₀.Inside T i ∧ fs₀.kind i = .file)
    (hsrc : ∀ t, Inv fs₀ T D t → t.fs.resolve true src = .ok i) :
    Does fs₀ T D p (· = n) B (copyRegular w uid info src (p.path ++ 47 :: n)) s
      fun _ _ => True := by
  rw [copyRegular]
  refine (does_look hI _).bind hI hp fun st t ht hpt _ => ?_
  obtain ⟨k, mode⟩ := st
  refine (turns_remove h₀ ht.inv hpt hn).outcome.bind ht.inv hpt fun _ u hu hpu _ => ?_
  refine (does_look hu.inv _).bind hu.inv hpu fun j v hv hpv hopen => ?_
  have hj : i = j := Except.ok.inj ((hsrc u hu.inv).symm.trans hopen.2)
  rw [← hj]
  refine (turns_openExcl h₀ hv.inv hpv hn _).outcome.bind hv.inv hpv fun r x hx hpx h => ?_
  obtain ⟨hok, hB⟩ := h
  cases r with
  | error e =>
      refine (does_look hx.inv _).outcome.bind hx.inv hpx fun _ y hy _ _ => ?_
      exact does_throw hy.inv (hB e rfl)
  | ok c =>
      refine (turns_copyBytes h₀ hx.inv hpx (hok c rfl) hi).bind hx.inv hpx
        fun _ y hy hpy hc => ?_
      refine (does_change h₀ hy.inv hpy hn hc.mine (fun _ => hc.link)
        (shape_setOwner uid)).bind hy.inv hpy fun _ z hz hpz hm => ?_
      refine (does_change h₀ hz.inv hpz hn hm.1 (fun _ => hm.2.1.trans hc.link)
        (shape_setMode (perm mode))).bind hz.inv hpz fun _ x' hx' _ _ => ?_
      exact does_pure hx'.inv trivial

end Copy

end Goboxd.Runner.Seed
