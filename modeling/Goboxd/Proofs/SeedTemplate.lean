import Goboxd.Runner.Sandbox
import Mathlib.Data.BitVec

/-!
# When seeding reproduces the template

A parallel test runs in a copy of the build's app dir. The copy is made into a
directory that is not empty: `newJail` has written the source file there, and the
copy counts on the template having an entry of that name to put in its place. What
a build did to the source file decides what comes of this. A file or a symlink
takes the place of the one written before. A directory cannot, and the copy stops.
Where there is nothing of that name, or only a FIFO or the like, the file stays, in
a copy of a directory that has no such file.

The other thing that gets in the way is the umask, which takes its bits from the
modes of the directories and, because they are restored, not from those of the
files.
-/

namespace Goboxd.Runner

open Go

/-- What a copy shows at the path of an entry. -/
def FoundKind.copied (umask : Mode) : FoundKind → Option FoundKind
  | .file perm data => some (.file perm data)
  | .symlink target => some (.symlink target)
  | .special => none
  | .dir perm => some (.dir (perm &&& ~~~umask))

/-- What it should show: the entry, unless that is special. -/
def FoundKind.wanted : FoundKind → Option FoundKind
  | .special => none
  | k => some k

/-- The directory is the template without its special files, and everything in it
belongs to the uid. -/
def Reproduces (uid : Int) (src dst : Entries) : Prop :=
  ∀ path, dst.find path = (src.find path).bind fun f => f.kind.wanted.map (Found.mk uid)

/-- A file or a symlink, at the root of the template. -/
def SourceThere (srcName : GoString) (src : Entries) : Prop :=
  ∃ owner k, src.find [srcName] = some ⟨owner, k⟩ ∧
    ((∃ perm data, k = .file perm data) ∨ ∃ target, k = .symlink target)

/-- No directory has a permission that the umask takes. -/
def DirsKept (umask : Mode) (src : Entries) : Prop :=
  ∀ path owner perm, src.find path = some ⟨owner, .dir perm⟩ → perm &&& umask = 0

variable {umask : Mode} {uid : Int}

@[simp] theorem Perm_Perm (m : Mode) : m.Perm.Perm = m.Perm := by
  rw [Mode.Perm, Mode.Perm, BitVec.and_assoc, BitVec.and_self]

theorem Perm_and (m : Mode) : (m.Perm &&& umask).Perm = m.Perm &&& umask := by
  rw [Mode.Perm, Mode.Perm, BitVec.and_assoc, BitVec.and_comm umask, ← BitVec.and_assoc,
    BitVec.and_assoc m, BitVec.and_self]

theorem and_not_eq_self {m : Mode} : m &&& ~~~umask = m ↔ m &&& umask = 0 := by
  constructor
  · intro h
    rw [← h, BitVec.and_assoc, BitVec.and_comm (~~~umask), BitVec.and_not_self]
    exact BitVec.and_zero
  · intro h
    calc m &&& ~~~umask = (m &&& ~~~umask) ||| (m &&& umask) := by
          rw [h]
          exact (BitVec.or_zero).symm
      _ = m := by
          ext i hi
          simp only [BitVec.getElem_or, BitVec.getElem_and, BitVec.getElem_not]
          cases m[i] <;> cases umask[i] <;> rfl

namespace Entries

/-- What is found in a copy, at every path. -/
theorem find_seeded {es : Entries} : ∀ {path : List GoString}, es.Wf →
    (es.seeded umask uid).find path =
      (es.find path).bind fun f => (f.kind.copied umask).map (Found.mk uid) := by
  induction es with
  | nil => intro path _; rfl
  | leaf n owner node rest ih =>
      intro path hw
      cases path with
      | nil =>
          have hrest := @ih [] hw.2
          cases node with
          | file mode data => rfl
          | symlink target => rfl
          | special =>
              rw [seeded, hrest, find]
              cases rest <;> rfl
      | cons name path =>
          have hrest := @ih (name :: path) hw.2
          by_cases heq : n = name
          · subst heq
            cases node with
            | file mode data =>
                rw [seeded, find, find, if_pos rfl, if_pos rfl]
                split
                · rw [FileNode.kind, Perm_Perm]
                  rfl
                · rfl
            | symlink target =>
                rw [seeded, find, find, if_pos rfl, if_pos rfl]
                split
                · rfl
                · rfl
            | special =>
                rw [seeded, hrest, find_of_notMem hw.1, find, if_pos rfl]
                split
                · rfl
                · rfl
          · rw [find, if_neg heq, ← hrest]
            cases node with
            | file mode data => rw [seeded, find, if_neg heq]
            | symlink target => rw [seeded, find, if_neg heq]
            | special => rw [seeded]
  | dir n owner mode sub rest ihsub ih =>
      intro path hw
      obtain ⟨hfresh, hsub, hwrest⟩ := hw
      cases path with
      | nil => rfl
      | cons name path =>
          rw [seeded, find, find]
          by_cases heq : n = name
          · rw [if_pos heq, if_pos heq]
            split
            · rw [Perm_and]
              rfl
            · exact ihsub hsub
          · rw [if_neg heq, if_neg heq]
            exact ih hwrest

/-- A copy is what it should be exactly when the umask takes nothing. -/
theorem seeded_reproduces_iff {es : Entries} (hw : es.Wf) :
    Reproduces uid es (es.seeded umask uid) ↔ DirsKept umask es := by
  constructor
  · intro h path owner perm hfind
    have hpath := h path
    rw [find_seeded hw, hfind] at hpath
    have hperm : perm &&& ~~~umask = perm := by
      injection hpath with hpath
      injection hpath with _ hkind
      injection hkind
    exact and_not_eq_self.mp hperm
  · intro h path
    rw [find_seeded hw]
    cases hfind : es.find path with
    | none => rfl
    | some f =>
        obtain ⟨owner, kind⟩ := f
        cases kind with
        | file perm data => rfl
        | symlink target => rfl
        | special => rfl
        | dir perm =>
            show some (Found.mk uid (.dir (perm &&& ~~~umask))) = some ⟨uid, .dir perm⟩
            rw [and_not_eq_self.mpr (h path owner perm hfind)]

end Entries

open Entries

/-- Seeding succeeds, and what it makes is the template. -/
def SeedsTemplate (umask : Mode) (uid : Int) (srcName source : GoString)
    (src : Entries) : Prop :=
  ∃ dst, copyTree umask uid src (sourceDir umask uid srcName source) = .ok dst ∧
    Reproduces uid src dst

/-- Exactly which templates are reproduced. -/
theorem seeds_template_iff {src : Entries} (hw : src.Wf) (srcName source : GoString) :
    SeedsTemplate umask uid srcName source src ↔
      SourceThere srcName src ∧ DirsKept umask src := by
  have hcopy := @copyTree_over umask uid src srcName uid (.file (0o644 &&& ~~~umask) source)
    .nil hw (fun _ _ => List.not_mem_nil) List.not_mem_nil
  unfold SeedsTemplate sourceDir
  rw [hcopy]
  -- the file that `newJail` wrote is still there
  have hleft : src.find [srcName] = none ∨ (∃ owner, src.find [srcName] =
      some ⟨owner, .special⟩) → ¬ Reproduces uid src (.leaf srcName uid
        (.file (0o644 &&& ~~~umask) source) (Entries.nil.append (src.seeded umask uid))) := by
    intro hsrc h
    have hpath := h [srcName]
    rw [find, if_pos rfl, if_pos rfl] at hpath
    rcases hsrc with hnone | ⟨owner, hspecial⟩
    · rw [hnone] at hpath
      cases hpath
    · rw [hspecial] at hpath
      cases hpath
  cases hfind : src.find [srcName] with
  | none =>
      constructor
      · intro h
        obtain ⟨dst, hdst, hrep⟩ := h
        cases hdst
        exact absurd hrep (hleft (.inl hfind))
      · intro h
        obtain ⟨⟨_, _, hsome, _⟩, _⟩ := h
        rw [hfind] at hsome
        cases hsome
  | some f =>
      obtain ⟨owner, kind⟩ := f
      have hthere : SourceThere srcName src ↔
          (∃ perm data, kind = .file perm data) ∨ ∃ target, kind = .symlink target := by
        constructor
        · intro h
          obtain ⟨_, k, hk, hkind⟩ := h
          rw [hfind] at hk
          cases hk
          exact hkind
        · intro h
          exact ⟨owner, kind, hfind, h⟩
      have hmade : (∃ dst, (Except.ok (Entries.nil.append (src.seeded umask uid)) :
          Except GoString Entries) = .ok dst ∧ Reproduces uid src dst) ↔
            DirsKept umask src := by
        constructor
        · intro h
          obtain ⟨dst, hdst, hrep⟩ := h
          cases hdst
          exact (seeded_reproduces_iff hw).mp hrep
        · intro h
          exact ⟨_, rfl, (seeded_reproduces_iff hw).mpr h⟩
      cases kind with
      | file perm data =>
          rw [hthere, and_iff_right (.inl ⟨perm, data, rfl⟩)]
          exact hmade
      | symlink target =>
          rw [hthere, and_iff_right (.inr ⟨target, rfl⟩)]
          exact hmade
      | special =>
          constructor
          · intro h
            obtain ⟨dst, hdst, hrep⟩ := h
            cases hdst
            exact absurd hrep (hleft (.inr ⟨owner, hfind⟩))
          · intro h
            rcases hthere.mp h.1 with ⟨_, _, hk⟩ | ⟨_, hk⟩ <;> cases hk
      | dir perm =>
          constructor
          · intro h
            obtain ⟨dst, hdst, _⟩ := h
            cases hdst
          · intro h
            rcases hthere.mp h.1 with ⟨_, _, hk⟩ | ⟨_, hk⟩ <;> cases hk

/-- A source file and a binary in a directory. -/
def haskellTree (mode : Mode) : Entries :=
  .leaf (str "main.hs") 10000 (.file 0o644 (str "main"))
    (.dir (str "out") 10000 mode (.leaf (str "main") 10000 (.file 0o755 [0x7f]) .nil) .nil)

theorem haskellTree_wf (mode : Mode) : (haskellTree mode).Wf := by
  simp only [haskellTree, Wf, names]
  decide

theorem seeds_template_iff_built :
    SeedsTemplate 0o022 10001 (str "main.hs") (str "main") (haskellTree 0o755) := by
  refine (seeds_template_iff (haskellTree_wf 0o755) _ _).mpr ⟨?_, ?_⟩
  · exact ⟨10000, .file 0o644 (str "main"), by decide, .inl ⟨_, _, rfl⟩⟩
  · intro path owner perm hfind
    have hone : path = [str "out"] ∧ perm = 0o755 := by
      cases path with
      | nil => cases hfind
      | cons name path =>
          simp only [haskellTree, find] at hfind
          split at hfind
          · split at hfind <;> cases hfind
          · split at hfind
            · next hout =>
                split at hfind
                · next hnil =>
                    cases hfind
                    exact ⟨by rw [← hout, hnil], by decide⟩
                · cases path with
                  | nil => cases hfind
                  | cons name path =>
                      simp only [find] at hfind
                      split at hfind
                      · split at hfind <;> cases hfind
                      · cases hfind
            · cases hfind
    rw [hone.2]
    decide

/-- The build made a directory that is open to all. -/
theorem open_dir_is_closed :
    ¬ ∀ (umask : Mode) (uid : Int) (srcName source : GoString) (src : Entries), src.Wf →
      SeedsTemplate umask uid srcName source src := by
  intro h
  obtain ⟨dst, hdst, hrep⟩ := h 0o022 10001 (str "main.hs") (str "main") (haskellTree 0o777)
    (haskellTree_wf 0o777)
  have hcopy : copyTree 0o022 10001 (haskellTree 0o777)
      (sourceDir 0o022 10001 (str "main.hs") (str "main")) =
        .ok (.leaf (str "main.hs") 10001 (.file 0o644 (str "main"))
          (.dir (str "out") 10001 0o755
            (.leaf (str "main") 10001 (.file 0o755 [0x7f]) .nil) .nil)) := by
    decide
  rw [hcopy] at hdst
  cases hdst
  exact absurd (hrep [str "out"]) (by decide)

end Goboxd.Runner
