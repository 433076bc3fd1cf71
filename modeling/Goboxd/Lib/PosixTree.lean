import Mathlib.Data.List.Nodup
import Mathlib.Data.Set.Card
import Mathlib.Logic.Relation
import Goboxd.Lib.PosixFs

/-!
# What lies inside a directory, and what work there leaves alone

A directory's entries, theirs, and so on, are what lies inside it. The kernel keeps
the directories as trees, each with one entry at most, and that is what everything
here rests on: two entries of a directory have no directory inside them in common,
and nothing is inside what stands in it.

`Edit` is one change to one entry of a directory. `Works` is any number of them,
under some of a directory's names and in all that is inside what these names are of.
The two differ in what is left to see of the entries: an edit tells what became of
its name, work only what it left alone. Work composes, grows with the names, and
work in a directory is work under its name one level up (`Works.nest`), all the way
to where one started (`Works.up`).
-/

namespace Posix

open Go

namespace Fs

/-! ## What lies inside a directory -/

def Child (fs : Fs) (i j : ℕ) : Prop := ∃ n, (n, j) ∈ fs.entries i

/-- The directory itself, what it has entries of, and so on. -/
def Inside (fs : Fs) (d : ℕ) : ℕ → Prop := Relation.ReflTransGen fs.Child d

/-- A file system as a kernel keeps it: names, no two of them the same in a directory, of
objects that are there; and one entry, at most, for each directory, so that the
directories are trees. -/
structure Wf (fs : Fs) : Prop where
  unused : ∀ i, fs.next ≤ i → fs.node i = none
  there : fs.There
  names : ∀ i n j, (n, j) ∈ fs.entries i → Walk.IsName n
  nodup : ∀ i, ((fs.entries i).map Prod.fst).Nodup
  single : ∀ i i' n n' j, (n, j) ∈ fs.entries i → (n', j) ∈ fs.entries i' →
    fs.isDir j = true → i = i' ∧ n = n'
  ranked : ∃ rank : ℕ → ℕ, ∀ i j, fs.Child i j → rank i < rank j

theorem Child.isDir {fs : Fs} {i j : ℕ} (h : fs.Child i j) : fs.isDir i = true := by
  obtain ⟨n, hn⟩ := h
  rw [entries] at hn
  split at hn
  · next hnode => rw [Fs.isDir, hnode]
  · cases hn

section Wf

variable {fs : Fs} {d i j c c' x : ℕ} {n m : GoString}

theorem Wf.lt_of_child (hwf : fs.Wf) (h : fs.Child i j) : j < fs.next := by
  obtain ⟨n, hn⟩ := h
  exact hwf.there i n j hn

theorem Wf.lt_of_isDir (hwf : fs.Wf) (h : fs.isDir i = true) : i < fs.next := by
  by_contra hge
  rw [isDir, hwf.unused i (Nat.le_of_not_lt hge)] at h
  cases h

theorem Wf.lt_of_inside (hwf : fs.Wf) (hd : d < fs.next) (h : fs.Inside d i) : i < fs.next := by
  induction h with
  | refl => exact hd
  | tail _ hc _ => exact hwf.lt_of_child hc

theorem mem_keys_inj {es : List (GoString × ℕ)} (hnd : (es.map Prod.fst).Nodup) {n : GoString}
    {i j : ℕ} (hi : (n, i) ∈ es) (hj : (n, j) ∈ es) : i = j :=
  congrArg Prod.snd (List.inj_on_of_nodup_map hnd hi hj rfl)

theorem Wf.child_iff (hwf : fs.Wf) : fs.child d n = some c ↔ (n, c) ∈ fs.entries d := by
  constructor
  · exact fun h => mem_of_lookup h
  · intro h
    cases hl : fs.child d n with
    | none =>
        rw [Fs.child, List.lookup_eq_none_iff] at hl
        simpa using hl (n, c) h
    | some c' => rw [mem_keys_inj (hwf.nodup d) (mem_of_lookup hl) h]

/-- Nothing lies inside what it has an entry of. -/
theorem Wf.not_inside_child (hwf : fs.Wf) (h : fs.Child i j) : ¬ fs.Inside j i := by
  obtain ⟨rank, hrank⟩ := hwf.ranked
  intro hin
  have hle : ∀ x, fs.Inside j x → rank j ≤ rank x := by
    intro x hx
    induction hx with
    | refl => exact Nat.le_refl _
    | tail _ hc ih => exact Nat.le_of_lt (Nat.lt_of_le_of_lt ih (hrank _ _ hc))
  exact absurd (hrank i j h) (Nat.not_lt.mpr (hle i hin))

/-- No directory lies inside two directories that stand side by side. -/
theorem Wf.apart (hwf : fs.Wf) (hc : (n, c) ∈ fs.entries d) (hc' : (m, c') ∈ fs.entries d)
    (hne : n ≠ m) (hx : fs.isDir x = true) (h : fs.Inside c x) : ¬ fs.Inside c' x := by
  induction h with
  | refl =>
      intro h'
      rcases Relation.ReflTransGen.cases_tail h' with heq | ⟨y, hy, n', hn'⟩
      · subst heq
        exact hne (hwf.single _ _ _ _ _ hc hc' hx).2
      · obtain ⟨rfl, -⟩ := hwf.single _ _ _ _ _ hn' hc hx
        exact hwf.not_inside_child ⟨m, hc'⟩ hy
  | @tail z x hz hzx ih =>
      intro h'
      obtain ⟨n', hn'⟩ := hzx
      rcases Relation.ReflTransGen.cases_tail h' with heq | ⟨y, hy, m', hm'⟩
      · subst heq
        obtain ⟨rfl, -⟩ := hwf.single _ _ _ _ _ hn' hc' hx
        exact hwf.not_inside_child ⟨n, hc⟩ hz
      · obtain ⟨rfl, -⟩ := hwf.single _ _ _ _ _ hn' hm' hx
        exact ih (Child.isDir ⟨n', hn'⟩) hy

end Wf

/-! ## Changing one entry of a directory -/

/-- What of an object names and paths depend on. -/
def shape : Node → Node
  | .dir _ _ parent entries => .dir 0 0 parent entries
  | .file .. => .file 0 0 []
  | .symlink _ target => .symlink 0 target
  | .special .. => .special 0 0

/-- What a change to the entry `n` of the directory `d`, or to what it is of, leaves
alone. -/
structure Edit (d : ℕ) (n : GoString) (fs fs' : Fs) : Prop where
  root : fs'.root = fs.root
  cwd : fs'.cwd = fs.cwd
  next : fs.next ≤ fs'.next
  node : ∀ i < fs.next, i ≠ d → (n, i) ∉ fs.entries d → fs'.node i = fs.node i
  isDir : ∀ i < fs.next, fs'.isDir i = fs.isDir i
  link : ∀ i < fs.next, fs'.link i = fs.link i
  entries : ∀ i, i ≠ d → fs'.entries i = fs.entries i
  other : ∀ m j, m ≠ n → ((m, j) ∈ fs'.entries d ↔ (m, j) ∈ fs.entries d)
  named : ∀ j, (n, j) ∈ fs'.entries d → (n, j) ∈ fs.entries d ∨ fs.next ≤ j
  wf : fs'.Wf

@[simp] theorem node_put_self (fs : Fs) (i : ℕ) (node : Node) :
    (fs.put i node).node i = some node := Function.update_self ..

theorem node_put_ne {fs : Fs} {i j : ℕ} (h : j ≠ i) (node : Node) :
    (fs.put i node).node j = fs.node j := Function.update_of_ne h ..

section SetEntries

variable {fs : Fs} {d i : ℕ} {es : List (GoString × ℕ)}

theorem node_setEntries_ne (h : i ≠ d) : (fs.setEntries d es).node i = fs.node i := by
  rw [setEntries]
  split
  · exact node_put_ne h _
  · rfl

theorem entries_setEntries_ne (h : i ≠ d) : (fs.setEntries d es).entries i = fs.entries i := by
  rw [entries, entries, node_setEntries_ne h]

theorem entries_setEntries (hd : fs.isDir d = true) : (fs.setEntries d es).entries d = es := by
  obtain ⟨o, m, p, es', hnode⟩ := node_of_isDir hd
  rw [setEntries, hnode]
  simp [entries]

theorem isDir_setEntries : (fs.setEntries d es).isDir i = fs.isDir i := by
  by_cases h : i = d
  · subst h
    rw [setEntries]
    split
    · next hnode => simp [isDir, hnode]
    · rfl
  · rw [isDir, isDir, node_setEntries_ne h]

theorem link_setEntries : (fs.setEntries d es).link i = fs.link i := by
  by_cases h : i = d
  · subst h
    rw [setEntries]
    split
    · next hnode => simp [link, hnode]
    · rfl
  · rw [link, link, node_setEntries_ne h]

theorem setEntries_next : (fs.setEntries d es).next = fs.next := by
  rw [setEntries]
  split <;> rfl

theorem setEntries_root : (fs.setEntries d es).root = fs.root := by
  rw [setEntries]
  split <;> rfl

theorem setEntries_cwd : (fs.setEntries d es).cwd = fs.cwd := by
  rw [setEntries]
  split <;> rfl

end SetEntries

/-- A file system that has no other entries, and the same directories, is kept as well. -/
theorem Wf.of_sub {fs fs' : Fs} (hwf : fs.Wf) (hnext : fs'.next = fs.next)
    (hunused : ∀ i, fs'.next ≤ i → fs'.node i = none)
    (hdir : ∀ i, fs'.isDir i = fs.isDir i)
    (hsub : ∀ i, (fs'.entries i).Sublist (fs.entries i)) : fs'.Wf := by
  have hmem : ∀ i n j, (n, j) ∈ fs'.entries i → (n, j) ∈ fs.entries i :=
    fun i n j h => (hsub i).subset h
  obtain ⟨rank, hrank⟩ := hwf.ranked
  refine ⟨hunused, ?_, ?_, ?_, ?_, rank, ?_⟩
  · intro i n j h
    rw [hnext]
    exact hwf.there i n j (hmem i n j h)
  · exact fun i n j h => hwf.names i n j (hmem i n j h)
  · exact fun i => (hwf.nodup i).sublist ((hsub i).map Prod.fst)
  · intro i i' n n' j h h' hj
    rw [hdir] at hj
    exact hwf.single i i' n n' j (hmem i n j h) (hmem i' n' j h') hj
  · rintro i j ⟨n, hn⟩
    exact hrank i j ⟨n, hmem i n j hn⟩

theorem edit_cut {fs : Fs} (hwf : fs.Wf) {d : ℕ} (hd : fs.isDir d = true) (n : GoString) :
    Edit d n fs (fs.cut d n) := by
  have hsub : ∀ i, ((fs.cut d n).entries i).Sublist (fs.entries i) := by
    intro i
    by_cases h : i = d
    · subst h
      rw [cut, entries_setEntries hd]
      exact List.filter_sublist
    · rw [cut, entries_setEntries_ne h]
  have hnext : (fs.cut d n).next = fs.next := setEntries_next
  refine ⟨setEntries_root, setEntries_cwd, Nat.le_of_eq hnext.symm, ?_, ?_, ?_, ?_, ?_, ?_, ?_⟩
  · exact fun i _ h _ => node_setEntries_ne h
  · exact fun i _ => isDir_setEntries
  · exact fun i _ => link_setEntries
  · exact fun i h => entries_setEntries_ne h
  · intro m j hm
    rw [cut, entries_setEntries hd, List.mem_filter]
    simp [hm]
  · exact fun j h => .inl ((hsub d).subset h)
  · refine hwf.of_sub hnext (fun i hi => ?_) (fun i => isDir_setEntries) hsub
    have hlt := hwf.lt_of_isDir hd
    rw [hnext] at hi
    rw [cut, node_setEntries_ne (by omega)]
    exact hwf.unused i hi

/-- Entries, and what is a directory or a link, are read off the shape. -/
theorem of_shape {fs fs' : Fs} {i : ℕ}
    (h : (fs'.node i).map shape = (fs.node i).map shape) :
    fs'.entries i = fs.entries i ∧ fs'.isDir i = fs.isDir i ∧ fs'.link i = fs.link i := by
  unfold entries isDir link
  cases hnode : fs.node i with
  | none =>
      rw [hnode] at h
      rw [Option.map_eq_none_iff.mp h]
      exact ⟨rfl, rfl, rfl⟩
  | some node =>
      rw [hnode] at h
      obtain ⟨node', hnode', hshape⟩ := Option.map_eq_some_iff.mp h
      rw [hnode']
      cases node <;> cases node' <;> cases hshape <;> exact ⟨rfl, rfl, rfl⟩

theorem modify_next (fs : Fs) (c : ℕ) (f : Node → Node) : (fs.modify c f).next = fs.next := by
  rw [modify]
  split <;> rfl

theorem node_modify_ne {fs : Fs} {c i : ℕ} (h : i ≠ c) (f : Node → Node) :
    (fs.modify c f).node i = fs.node i := by
  rw [modify]
  split
  · exact node_put_ne h _
  · rfl

theorem shape_modify (fs : Fs) (c : ℕ) {f : Node → Node} (hf : ∀ node, shape (f node) = shape node)
    (i : ℕ) : ((fs.modify c f).node i).map shape = (fs.node i).map shape := by
  by_cases h : i = c
  · subst h
    rw [modify]
    split
    · next node hnode => rw [node_put_self, hnode, Option.map_some, Option.map_some, hf]
    · rfl
  · rw [node_modify_ne h]

theorem edit_modify {fs : Fs} (hwf : fs.Wf) {d c : ℕ} {n : GoString}
    (hc : (n, c) ∈ fs.entries d) {f : Node → Node} (hf : ∀ node, shape (f node) = shape node) :
    Edit d n fs (fs.modify c f) := by
  have hshape := fun i => of_shape (shape_modify fs c hf i)
  have hnext := modify_next fs c f
  have hroot : (fs.modify c f).root = fs.root ∧ (fs.modify c f).cwd = fs.cwd := by
    rw [modify]
    split <;> exact ⟨rfl, rfl⟩
  refine ⟨hroot.1, hroot.2, Nat.le_of_eq hnext.symm, ?_, ?_, ?_, ?_, ?_, ?_, ?_⟩
  · intro i _ _ h
    refine node_modify_ne (fun heq => h ?_) f
    rw [heq]
    exact hc
  · exact fun i _ => (hshape i).2.1
  · exact fun i _ => (hshape i).2.2
  · exact fun i _ => (hshape i).1
  · intro m j _
    rw [(hshape d).1]
  · intro j h
    rw [(hshape d).1] at h
    exact .inl h
  · refine hwf.of_sub hnext (fun i hi => ?_) (fun i => (hshape i).2.1) fun i => ?_
    · have hlt := hwf.there d n c hc
      rw [hnext] at hi
      rw [node_modify_ne (by omega)]
      exact hwf.unused i hi
    · rw [(hshape i).1]

section Add

variable {fs : Fs} {d i : ℕ} {n : GoString} {node : Node}

theorem node_add_ne (hd : i ≠ d) (hi : i ≠ fs.next) : (fs.add d n node).node i = fs.node i := by
  show ((fs.setEntries d _).put fs.next node).node i = _
  rw [node_put_ne hi, node_setEntries_ne hd]

theorem node_add_new : (fs.add d n node).node fs.next = some node := node_put_self ..

theorem node_add_old (hi : i ≠ fs.next) :
    (fs.add d n node).node i = (fs.setEntries d (fs.entries d ++ [(n, fs.next)])).node i :=
  node_put_ne hi node

theorem entries_add (hwf : fs.Wf) (hd : fs.isDir d = true) :
    (fs.add d n node).entries d = fs.entries d ++ [(n, fs.next)] := by
  have hlt := hwf.lt_of_isDir hd
  rw [entries, node_add_old (by omega)]
  exact entries_setEntries hd

theorem entries_add_ne (hwf : fs.Wf) (hnew : ∀ o m p es, node = .dir o m p es → es = [])
    (hd : i ≠ d) : (fs.add d n node).entries i = fs.entries i := by
  by_cases hi : i = fs.next
  · subst hi
    rw [entries, node_add_new, entries, hwf.unused _ (Nat.le_refl _)]
    cases node with
    | dir o m p es => exact hnew o m p es rfl
    | _ => rfl
  · rw [entries, node_add_ne hd hi, entries]

theorem mem_entries_add (hwf : fs.Wf) (hd : fs.isDir d = true)
    (hnew : ∀ o m p es, node = .dir o m p es → es = []) {m : GoString} {j : ℕ}
    (h : (m, j) ∈ (fs.add d n node).entries i) :
    (m, j) ∈ fs.entries i ∨ (i = d ∧ m = n ∧ j = fs.next) := by
  by_cases hi : i = d
  · rw [hi, entries_add hwf hd] at h
    rcases List.mem_append.mp h with h | h
    · rw [hi]
      exact .inl h
    · obtain ⟨hm, hj⟩ := Prod.mk.injEq .. ▸ List.mem_singleton.mp h
      exact .inr ⟨hi, hm, hj⟩
  · rw [entries_add_ne hwf hnew hi] at h
    exact .inl h

theorem isDir_add (hi : i < fs.next) : (fs.add d n node).isDir i = fs.isDir i := by
  rw [isDir, node_add_old (by omega)]
  exact isDir_setEntries

theorem link_add (hi : i < fs.next) : (fs.add d n node).link i = fs.link i := by
  rw [link, node_add_old (by omega)]
  exact link_setEntries

theorem Wf.add (hwf : fs.Wf) (hd : fs.isDir d = true) (hname : Walk.IsName n)
    (hfree : fs.child d n = none) (hnew : ∀ o m p es, node = .dir o m p es → es = []) :
    (fs.add d n node).Wf := by
  have hlt := hwf.lt_of_isDir hd
  have hnext : (fs.add d n node).next = fs.next + 1 := rfl
  have hunlisted : ∀ i m, (m, fs.next) ∉ fs.entries i :=
    fun i m h => absurd (hwf.there i m _ h) (Nat.lt_irrefl _)
  obtain ⟨rank, hrank⟩ := hwf.ranked
  refine ⟨?_, ?_, ?_, ?_, ?_, fun i => if i = fs.next then rank d + 1 else rank i, ?_⟩
  · intro i hi
    rw [hnext] at hi
    rw [node_add_ne (by omega) (by omega)]
    exact hwf.unused i (by omega)
  · intro i m j h
    rw [hnext]
    rcases mem_entries_add hwf hd hnew h with h | ⟨-, -, hj⟩
    · exact Nat.lt_succ_of_lt (hwf.there i m j h)
    · rw [hj]
      exact Nat.lt_succ_self _
  · intro i m j h
    rcases mem_entries_add hwf hd hnew h with h | ⟨-, hm, -⟩
    · exact hwf.names i m j h
    · rw [hm]
      exact hname
  · intro i
    by_cases hi : i = d
    · rw [hi, entries_add hwf hd, List.map_append, List.nodup_append]
      refine ⟨hwf.nodup d, by simp, fun a ha b hb heq => ?_⟩
      rw [List.map_singleton, List.mem_singleton] at hb
      obtain ⟨⟨m, j⟩, hmj, hm⟩ := List.mem_map.mp ha
      have hmn : m = n := hm.trans (heq.trans hb)
      rw [hmn, ← hwf.child_iff, hfree] at hmj
      cases hmj
    · rw [entries_add_ne hwf hnew hi]
      exact hwf.nodup i
  · intro i i' m m' j h h' hj
    rcases mem_entries_add hwf hd hnew h with h | ⟨hi, hm, hj'⟩
    · rcases mem_entries_add hwf hd hnew h' with h' | ⟨-, -, hj'⟩
      · rw [isDir_add (hwf.there i m j h)] at hj
        exact hwf.single i i' m m' j h h' hj
      · rw [hj'] at h
        exact absurd h (hunlisted i m)
    · rcases mem_entries_add hwf hd hnew h' with h' | ⟨hi', hm', -⟩
      · rw [hj'] at h'
        exact absurd h' (hunlisted i' m')
      · exact ⟨hi.trans hi'.symm, hm.trans hm'.symm⟩
  · intro i j h
    obtain ⟨m, h⟩ := h
    show (if i = fs.next then rank d + 1 else rank i) <
      if j = fs.next then rank d + 1 else rank j
    rcases mem_entries_add hwf hd hnew h with h | ⟨hi, -, hj⟩
    · have hjlt : j < fs.next := hwf.there i m j h
      have hilt : i < fs.next := hwf.lt_of_isDir (Child.isDir ⟨m, h⟩)
      rw [if_neg (by omega), if_neg (by omega)]
      exact hrank i j ⟨m, h⟩
    · rw [hi, hj, if_pos rfl, if_neg (by omega)]
      exact Nat.lt_succ_self _

theorem edit_add (hwf : fs.Wf) (hd : fs.isDir d = true) (hname : Walk.IsName n)
    (hfree : fs.child d n = none) (hnew : ∀ o m p es, node = .dir o m p es → es = []) :
    Edit d n fs (fs.add d n node) := by
  have hsetRoot : (fs.add d n node).root = fs.root := setEntries_root
  have hsetCwd : (fs.add d n node).cwd = fs.cwd := setEntries_cwd
  refine ⟨hsetRoot, hsetCwd, Nat.le_succ fs.next, ?_, ?_, ?_, ?_, ?_, ?_,
    hwf.add hd hname hfree hnew⟩
  · exact fun i hi h _ => node_add_ne h (by omega)
  · exact fun i hi => isDir_add hi
  · exact fun i hi => link_add hi
  · exact fun i h => entries_add_ne hwf hnew h
  · intro m j hm
    rw [entries_add hwf hd, List.mem_append]
    simp [hm]
  · intro j h
    rcases mem_entries_add hwf hd hnew h with h | ⟨-, -, hj⟩
    · exact .inl h
    · exact .inr (Nat.le_of_eq hj.symm)

end Add

theorem entries_congr {fs fs' : Fs} {i : ℕ} (h : fs'.node i = fs.node i) :
    fs'.entries i = fs.entries i := by
  rw [entries, entries, h]

theorem Inside.of_entries {fs fs' : Fs} {d i : ℕ} (h : ∀ i, fs'.entries i = fs.entries i)
    (hi : fs'.Inside d i) : fs.Inside d i := by
  induction hi with
  | refl => exact .refl
  | @tail x y _ hxy ih =>
      obtain ⟨n, hn⟩ := hxy
      rw [h x] at hn
      exact ih.tail ⟨n, hn⟩

/-! ## Work on some of a directory's entries -/

/-- What lies inside the entries with one of these names. -/
def Below (fs : Fs) (d : ℕ) (N : GoString → Prop) (i : ℕ) : Prop :=
  ∃ n c, N n ∧ (n, c) ∈ fs.entries d ∧ fs.Inside c i

/-- What work on the entries of `d` with these names, and inside them, leaves alone. -/
structure Works (d : ℕ) (N : GoString → Prop) (fs fs' : Fs) : Prop where
  root : fs'.root = fs.root
  cwd : fs'.cwd = fs.cwd
  next : fs.next ≤ fs'.next
  node : ∀ i < fs.next, i ≠ d → ¬ fs.Below d N i → fs'.node i = fs.node i
  isDir : ∀ i < fs.next, fs'.isDir i = fs.isDir i
  link : ∀ i < fs.next, fs'.link i = fs.link i
  other : ∀ m j, ¬ N m → ((m, j) ∈ fs'.entries d ↔ (m, j) ∈ fs.entries d)
  named : ∀ m j, N m → (m, j) ∈ fs'.entries d → (m, j) ∈ fs.entries d ∨ fs.next ≤ j
  closed : ∀ i j, fs.Below d N i ∨ fs.next ≤ i → fs'.Child i j →
    fs.Below d N j ∨ fs.next ≤ j

section Works

variable {fs fs' fs'' : Fs} {d e c i j : ℕ} {n m : GoString} {N M : GoString → Prop}

theorem Below.inside (h : fs.Below d N i) : fs.Inside d i := by
  obtain ⟨n, c, -, hc, hi⟩ := h
  exact Relation.ReflTransGen.head ⟨n, hc⟩ hi

theorem Below.child (h : fs.Below d N i) (hj : fs.Child i j) : fs.Below d N j := by
  obtain ⟨n, c, hn, hc, hi⟩ := h
  exact ⟨n, c, hn, hc, hi.tail hj⟩

theorem Wf.ne_of_below (hwf : fs.Wf) (h : fs.Below d N i) : i ≠ d := by
  obtain ⟨n, c, -, hc, hi⟩ := h
  intro heq
  rw [heq] at hi
  exact hwf.not_inside_child ⟨n, hc⟩ hi

theorem Wf.no_child (hwf : fs.Wf) (hi : fs.next ≤ i) : ¬ fs.Child i j := by
  intro h
  exact absurd (hwf.lt_of_isDir h.isDir) (Nat.not_lt.mpr hi)

theorem Works.refl (hwf : fs.Wf) (d : ℕ) (N : GoString → Prop) : Works d N fs fs := by
  refine ⟨rfl, rfl, Nat.le_refl _, fun _ _ _ _ => rfl, fun _ _ => rfl, fun _ _ => rfl,
    fun _ _ _ => Iff.rfl, fun _ _ _ h => .inl h, fun i j h hj => ?_⟩
  rcases h with h | h
  · exact .inl (h.child hj)
  · exact absurd hj (hwf.no_child h)

theorem Works.below (h : Works d N fs fs') (hi : fs'.Below d N i) :
    fs.Below d N i ∨ fs.next ≤ i := by
  obtain ⟨n, c, hn, hc, hin⟩ := hi
  induction hin with
  | refl =>
      rcases h.named n c hn hc with hc | hc
      · exact .inl ⟨n, c, hn, hc, .refl⟩
      · exact .inr hc
  | tail _ hj ih => exact h.closed _ _ ih hj

theorem Works.trans (hwf : fs.Wf) (hd : fs.isDir d = true) (h : Works d N fs fs')
    (h' : Works d N fs' fs'') : Works d N fs fs'' := by
  have hnext := h.next
  have hnext' := h'.next
  have hold : ∀ i < fs.next, ¬ fs.Below d N i → ¬ fs'.Below d N i := by
    intro i hi hnot hbelow
    rcases h.below hbelow with hbelow | hge
    · exact hnot hbelow
    · exact absurd hi (Nat.not_lt.mpr hge)
  refine ⟨h'.root.trans h.root, h'.cwd.trans h.cwd, Nat.le_trans hnext hnext', ?_, ?_, ?_,
    ?_, ?_, ?_⟩
  · intro i hi hne hnot
    rw [h'.node i (by omega) hne (hold i hi hnot), h.node i hi hne hnot]
  · intro i hi
    rw [h'.isDir i (by omega), h.isDir i hi]
  · intro i hi
    rw [h'.link i (by omega), h.link i hi]
  · intro m j hm
    rw [h'.other m j hm, h.other m j hm]
  · intro m j hm hj
    rcases h'.named m j hm hj with hj | hj
    · exact h.named m j hm hj
    · exact .inr (by omega)
  · intro i j hi hj
    by_cases hnow : fs'.Below d N i ∨ fs'.next ≤ i
    · rcases h'.closed i j hnow hj with hj | hj
      · exact h.below hj
      · exact .inr (by omega)
    · obtain ⟨hnot, hlt⟩ := not_or.mp hnow
      have hne : i ≠ d := by
        rcases hi with hi | hi
        · exact hwf.ne_of_below hi
        · have hdlt := hwf.lt_of_isDir hd
          omega
      obtain ⟨m, hm⟩ := hj
      rw [entries_congr (h'.node i (by omega) hne hnot)] at hm
      exact h.closed i j hi ⟨m, hm⟩

theorem Works.mono (hwf : fs.Wf) (h : Works d N fs fs') (hsub : ∀ n, N n → M n) :
    Works d M fs fs' := by
  have hbelow : ∀ {i}, fs.Below d N i → fs.Below d M i := by
    rintro i ⟨n, c, hn, hc, hi⟩
    exact ⟨n, c, hsub n hn, hc, hi⟩
  refine ⟨h.root, h.cwd, h.next, ?_, h.isDir, h.link, ?_, ?_, ?_⟩
  · exact fun i hi hne hnot => h.node i hi hne fun hb => hnot (hbelow hb)
  · exact fun m j hm => h.other m j fun hn => hm (hsub m hn)
  · intro m j _ hj
    by_cases hm : N m
    · exact h.named m j hm hj
    · exact .inl ((h.other m j hm).mp hj)
  · intro i j hi hj
    by_cases hold : fs.Below d N i ∨ fs.next ≤ i
    · exact (h.closed i j hold hj).imp hbelow id
    · -- inside another of the names, where nothing has changed
      obtain ⟨hnot, hlt⟩ := not_or.mp hold
      rcases hi with hi | hi
      · obtain ⟨m, hm⟩ := hj
        rw [entries_congr (h.node i (by omega) (hwf.ne_of_below hi) hnot)] at hm
        exact .inl (hi.child ⟨m, hm⟩)
      · exact absurd hi hlt

/-- Nothing changes outside the directory. -/
theorem Works.outside (h : Works d N fs fs') (hi : i < fs.next) (hnot : ¬ fs.Inside d i) :
    fs'.node i = fs.node i := by
  refine h.node i hi (fun heq => hnot ?_) fun hb => hnot hb.inside
  rw [heq]
  exact .refl

theorem Works.inside (h : Works d N fs fs') (hall : ∀ n, N n) (hi : fs'.Inside d i) :
    fs.Inside d i ∨ fs.next ≤ i := by
  rcases Relation.ReflTransGen.cases_head hi with heq | ⟨c, ⟨n, hc⟩, hi⟩
  · rw [heq]
    exact .inl .refl
  · exact (h.below ⟨n, c, hall n, hc, hi⟩).imp Below.inside id

/-- Work in a directory is work under its name. -/
theorem Works.nest (hwf : fs.Wf) (hc : (n, c) ∈ fs.entries d) (h : Works c N fs fs')
    (hall : ∀ n, N n) : Works d (· = n) fs fs' := by
  have hd : fs.isDir d = true := Child.isDir ⟨n, hc⟩
  have hdlt := hwf.lt_of_isDir hd
  have hsame : fs'.entries d = fs.entries d :=
    entries_congr (h.outside hdlt (hwf.not_inside_child ⟨n, hc⟩))
  refine ⟨h.root, h.cwd, h.next, ?_, h.isDir, h.link, ?_, ?_, ?_⟩
  · exact fun i hi _ hnot => h.outside hi fun hin => hnot ⟨n, c, rfl, hc, hin⟩
  · intro m j _
    rw [hsame]
  · intro m j _ hj
    rw [hsame] at hj
    exact .inl hj
  · intro i j hi hj
    have hin : fs.Inside c i ∨ fs.next ≤ i := by
      rcases hi with ⟨m, c', hm, hc', hi⟩ | hi
      · rw [hm] at hc'
        rw [mem_keys_inj (hwf.nodup d) hc' hc] at hi
        exact .inl hi
      · exact .inr hi
    have hin' : fs.Inside c j ∨ fs.next ≤ j := by
      by_cases heq : i = c
      · obtain ⟨m, hm⟩ := hj
        rw [heq] at hm
        rcases h.named m j (hall m) hm with hm | hm
        · exact .inl (.single ⟨m, hm⟩)
        · exact .inr hm
      · have hbelow : fs.Below c N i ∨ fs.next ≤ i := by
          rcases hin with hin | hin
          · rcases Relation.ReflTransGen.cases_head hin with heq' | ⟨y, ⟨m, hm⟩, hy⟩
            · exact absurd heq'.symm heq
            · exact .inl ⟨m, y, hall m, hm, hy⟩
          · exact .inr hin
        exact (h.closed i j hbelow hj).imp Below.inside id
    exact hin'.imp (fun hin => ⟨n, c, rfl, hc, hin⟩) id

/-- Work in a directory, seen from a directory that it lies inside of. -/
theorem Works.up (hwf : fs.Wf) (hin : fs.Inside e d) (h : Works d (fun _ => True) fs fs') :
    Works e (fun _ => True) fs fs' := by
  induction hin using Relation.ReflTransGen.head_induction_on with
  | refl => exact h
  | head hc _ ih =>
      obtain ⟨n, hn⟩ := hc
      exact (ih.nest hwf hn fun _ => trivial).mono hwf fun _ _ => trivial

/-- The directory stays where it was. -/
theorem Works.stays (hwf : fs.Wf) (h : Works d N fs fs') (hin : fs.Inside e d) :
    fs'.Inside e d := by
  induction hin using Relation.ReflTransGen.head_induction_on with
  | refl => exact .refl
  | @head x y hc hy ih =>
      have hnot : ¬ fs.Inside d x := fun hx => hwf.not_inside_child hc (hy.trans hx)
      have hsame := entries_congr (h.outside (hwf.lt_of_isDir hc.isDir) hnot)
      obtain ⟨n, hn⟩ := hc
      rw [← hsame] at hn
      exact Relation.ReflTransGen.head ⟨n, hn⟩ ih

/-- What lies inside an entry with another name has not changed. -/
theorem Works.sibling (hwf : fs.Wf) (h : Works d N fs fs') (hm : ¬ N m)
    (hc : (m, c) ∈ fs.entries d) (hi : fs'.Inside c i) : fs.Inside c i := by
  induction hi with
  | refl => exact .refl
  | @tail x y _ hxy ih =>
      have hxlt : x < fs.next := hwf.lt_of_inside (hwf.there d m c hc) ih
      obtain ⟨k, hk⟩ := hxy
      have hx : fs.isDir x = true := by
        rw [← h.isDir x hxlt]
        exact Child.isDir ⟨k, hk⟩
      have hnot : ¬ fs.Below d N x := by
        rintro ⟨n, c', hn, hc', hin⟩
        exact hwf.apart hc hc' (fun heq => hm (heq ▸ hn)) hx ih hin
      have hne : x ≠ d := by
        intro heq
        rw [heq] at ih
        exact hwf.not_inside_child ⟨m, hc⟩ ih
      rw [entries_congr (h.node x hxlt hne hnot)] at hk
      exact ih.tail ⟨k, hk⟩

theorem Edit.works (hwf : fs.Wf) (hd : fs.isDir d = true) (h : Edit d n fs fs') :
    Works d (· = n) fs fs' := by
  refine ⟨h.root, h.cwd, h.next, ?_, h.isDir, h.link, h.other, ?_, ?_⟩
  · exact fun i hi hne hnot => h.node i hi hne fun hmem => hnot ⟨n, i, rfl, hmem, .refl⟩
  · intro m j hm hj
    rw [hm] at hj ⊢
    exact h.named j hj
  · rintro i j hi ⟨m, hm⟩
    have hne : i ≠ d := by
      rcases hi with hi | hi
      · exact hwf.ne_of_below hi
      · have hdlt := hwf.lt_of_isDir hd
        omega
    rw [h.entries i hne] at hm
    rcases hi with hi | hi
    · exact .inl (hi.child ⟨m, hm⟩)
    · exact absurd ⟨m, hm⟩ (hwf.no_child hi)

end Works

/-! ## Places -/

/-- A directory, and a path that leads there by way of these. -/
structure Place where
  path : GoString
  dir : ℕ
  links : ℕ
  way : List ℕ

/-- The path leads to the directory, which lies inside `top`, and nothing on the way lies
inside the directory: so it goes on leading there, whatever becomes of what is inside. -/
structure Place.At (p : Place) (top : ℕ) (fs : Fs) : Prop where
  spelled : Spelled p.path
  isDir : fs.isDir p.dir = true
  inside : fs.Inside top p.dir
  way : ∀ v ∈ p.way, fs.isDir v = true ∧ ¬ fs.Inside p.dir v
  leads : ∀ fs', Agree p.way fs fs' → fs'.Leads p.path p.dir p.links

def Place.child (p : Place) (name : GoString) (c : ℕ) : Place where
  path := p.path ++ 47 :: name
  dir := c
  links := p.links
  way := p.dir :: p.way

section Place

variable {fs fs' fs'' : Fs} {p : Place} {top c : ℕ} {n : GoString} {N : GoString → Prop}
  {V : List ℕ}

theorem Place.At.here (h : p.At top fs) : fs.Leads p.path p.dir p.links :=
  h.leads fs (Agree.refl _ fs)

theorem isDir_congr {i : ℕ} (h : fs'.node i = fs.node i) : fs'.isDir i = fs.isDir i := by
  rw [Fs.isDir, Fs.isDir, h]

theorem Agree.trans (hnext : fs.next ≤ fs'.next) (h : Agree V fs fs') (h' : Agree V fs' fs'') :
    Agree V fs fs'' := by
  refine ⟨h'.root.trans h.root, h'.cwd.trans h.cwd, ?_, ?_⟩
  · intro v hv hd
    have hsame := h.node v hv hd
    rw [h'.node v hv ((isDir_congr hsame).trans hd), hsame]
  · intro i hi
    rw [h'.link i (by omega), h.link i hi]

theorem Works.agree {d : ℕ} (hwf : fs.Wf) (h : Works d N fs fs')
    (hway : ∀ v ∈ V, ¬ fs.Inside d v) : Agree V fs fs' :=
  ⟨h.root, h.cwd, fun v hv hd => h.outside (hwf.lt_of_isDir hd) (hway v hv), h.link⟩

/-- Work in the directory leaves the place where it is. -/
theorem Place.At.works (hwf : fs.Wf) (h : p.At top fs) (hw : Works p.dir N fs fs') :
    p.At top fs' := by
  have hway : ∀ v ∈ p.way, ¬ fs.Inside p.dir v := fun v hv => (h.way v hv).2
  have hlt : ∀ v ∈ p.way, v < fs.next := fun v hv => hwf.lt_of_isDir (h.way v hv).1
  refine ⟨h.spelled, ?_, hw.stays hwf h.inside, ?_, ?_⟩
  · rw [hw.isDir _ (hwf.lt_of_isDir h.isDir)]
    exact h.isDir
  · intro v hv
    constructor
    · rw [hw.isDir v (hlt v hv)]
      exact (h.way v hv).1
    · intro hin
      rcases (hw.mono hwf (M := fun _ => True) fun _ _ => trivial).inside (fun _ => trivial)
        hin with hin | hge
      · exact hway v hv hin
      · exact absurd (hlt v hv) (Nat.not_lt.mpr hge)
  · intro fs'' hag
    exact h.leads fs'' ((hw.agree hwf hway).trans hw.next hag)

theorem link_of_isDir (h : fs.isDir c = true) : fs.link c = none := by
  obtain ⟨o, m, q, es, hnode⟩ := node_of_isDir h
  rw [link, hnode]

theorem child_congr {d : ℕ} (h : fs'.node d = fs.node d) : fs'.child d n = fs.child d n := by
  rw [Fs.child, Fs.child, entries_congr h]

/-- A directory in the place is a place. -/
theorem Place.At.child (hwf : fs.Wf) (h : p.At top fs) (hc : (n, c) ∈ fs.entries p.dir)
    (hd : fs.isDir c = true) : (p.child n c).At top fs := by
  have hn := hwf.names _ _ _ hc
  have hstep : fs.Child p.dir c := ⟨n, hc⟩
  refine ⟨h.spelled.child hn, hd, h.inside.tail hstep, ?_, ?_⟩
  · intro v hv
    rcases List.mem_cons.mp hv with hv | hv
    · rw [hv]
      exact ⟨h.isDir, hwf.not_inside_child hstep⟩
    · refine ⟨(h.way v hv).1, fun hin => (h.way v hv).2 ?_⟩
      exact Relation.ReflTransGen.head hstep hin
  · intro fs' hag
    have hleads := h.leads fs' (hag.mono fun v hv => List.mem_cons_of_mem _ hv)
    have hsame := hag.node p.dir List.mem_cons_self h.isDir
    refine hleads.child hn ?_ ?_
    · rw [child_congr hsame]
      exact hwf.child_iff.mpr hc
    · show fs'.link c = none
      rw [hag.link c (hwf.lt_of_isDir hd)]
      exact link_of_isDir hd

end Place

/-! ## The depth of a directory -/

/-- How many objects lie inside. -/
noncomputable def size (fs : Fs) (d : ℕ) : ℕ := { i | fs.Inside d i }.ncard

theorem Wf.finite_inside {fs : Fs} (hwf : fs.Wf) {d : ℕ} (hd : d < fs.next) :
    { i | fs.Inside d i }.Finite :=
  (Set.finite_lt_nat fs.next).subset fun _ hi => hwf.lt_of_inside hd hi

theorem Wf.size_le {fs : Fs} (hwf : fs.Wf) {d : ℕ} (hd : d < fs.next) : fs.size d ≤ fs.next := by
  have hsub : { i | fs.Inside d i } ⊆ Finset.range fs.next := by
    intro i hi
    rw [Finset.coe_range]
    exact hwf.lt_of_inside hd hi
  have hle := Set.ncard_le_ncard hsub (Finset.finite_toSet _)
  rwa [Set.ncard_coe_finset, Finset.card_range] at hle

theorem Wf.size_child {fs : Fs} (hwf : fs.Wf) {d c : ℕ} (hc : fs.Child d c) :
    fs.size c < fs.size d := by
  refine Set.ncard_lt_ncard ⟨?_, ?_⟩ (hwf.finite_inside (hwf.lt_of_isDir hc.isDir))
  · exact fun i hi => Relation.ReflTransGen.head hc hi
  · intro hsub
    exact hwf.not_inside_child hc (hsub (Relation.ReflTransGen.refl : fs.Inside d d))

theorem Wf.size_pos {fs : Fs} (hwf : fs.Wf) {d : ℕ} (hd : d < fs.next) : 0 < fs.size d :=
  (Set.ncard_pos (hwf.finite_inside hd)).mpr ⟨d, Relation.ReflTransGen.refl⟩

end Fs

end Posix
