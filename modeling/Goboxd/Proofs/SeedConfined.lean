import Goboxd.Proofs.SeedTurns

/-!
# Seeding stays inside the new jail's app directory

The copy runs as root and makes links whose targets the build chose. What keeps it
inside is that no path it uses goes through anything it has made except directories:
a turn of the loop changes one entry of the destination directory and what is inside
it, so the way to that directory stays what it was, and so do the entries that later
turns will find there. Below those there was no link when the copy began and there is
none when their turn comes.

The template's side is easier, for nothing there changes: its directories are not among
those the copy writes, and a file that both have, by a hard link, is not written
through the name in the destination but taken away from it.
-/

namespace Goboxd.Runner.Seed

open Go Posix Posix.Fs Outcome

/-! ## The template -/

/-- A directory of the template, and how its path leads there all the while. -/
structure Source (fs₀ : Fs) (T D : ℕ) (path : GoString) (t : ℕ) : Prop where
  spelled : Spelled path
  inside : fs₀.Inside T t
  leads : ∃ k, ∀ fs', Works D (fun _ => True) fs₀ fs' → fs'.Leads path t k

section Source

variable {fs₀ : Fs} {T D : ℕ} {path n : GoString} {t c : ℕ} {s : Sys} {fs' : Fs}

/-- A directory of the template has the entries it had. -/
theorem Source.entries (h₀ : Ready fs₀ T D) (h : Source fs₀ T D path t)
    (hw : Works D (fun _ => True) fs₀ fs') (hd : fs₀.isDir t = true) :
    fs'.node t = fs₀.node t := by
  refine hw.outside (h₀.wf.lt_of_isDir hd) fun hin => ?_
  rw [h₀.apart t h.inside hin] at hd
  cases hd

theorem Source.found (h₀ : Ready fs₀ T D) (h : Source fs₀ T D path t)
    (hc : (n, c) ∈ fs₀.entries t) (hlink : fs₀.link c = none)
    (hw : Works D (fun _ => True) fs₀ fs') :
    ∃ k, fs'.Leads path t k ∧ fs'.child t n = some c ∧ fs'.link c = none := by
  obtain ⟨k, hk⟩ := h.leads
  refine ⟨k, hk fs' hw, ?_, ?_⟩
  · rw [child_congr (h.entries h₀ hw (Child.isDir ⟨n, hc⟩))]
    exact h₀.wf.child_iff.mpr hc
  · rw [hw.link c (h₀.wf.there t n c hc)]
    exact hlink

theorem Source.child (h₀ : Ready fs₀ T D) (h : Source fs₀ T D path t)
    (hc : (n, c) ∈ fs₀.entries t) (hd : fs₀.isDir c = true) :
    Source fs₀ T D (path ++ 47 :: n) c := by
  have hn := h₀.wf.names t n c hc
  obtain ⟨k, hk⟩ := h.leads
  refine ⟨h.spelled.child hn, h.inside.tail ⟨n, hc⟩, k, fun fs' hw => ?_⟩
  obtain ⟨-, -, hchild, hlink⟩ := h.found h₀ hc (link_of_isDir hd) hw
  exact (hk fs' hw).child hn hchild hlink

theorem Source.resolve (h₀ : Ready fs₀ T D) (h : Source fs₀ T D path t)
    (hc : (n, c) ∈ fs₀.entries t) (hlink : fs₀.link c = none) (hI : Inv fs₀ T D s) :
    s.fs.resolve true (path ++ 47 :: n) = .ok c := by
  obtain ⟨k, hleads, hchild, hlink'⟩ := h.found h₀ hc hlink hI.works
  exact hleads.resolve_some (h₀.wf.names t n c hc) hchild hlink' true

/-- What is listed is what the template has, whenever it is listed. -/
theorem Inv.kind (hI : Inv fs₀ T D s) (hc : c < fs₀.next) :
    s.fs.kind c = fs₀.kind c := by
  cases hd : fs₀.isDir c with
  | true =>
      have hd' : s.fs.isDir c = true := by
        rw [hI.works.isDir c hc]
        exact hd
      obtain ⟨_, _, _, _, hnode⟩ := node_of_isDir hd
      obtain ⟨_, _, _, _, hnode'⟩ := node_of_isDir hd'
      rw [Fs.kind, Fs.kind, hnode, hnode']
      rfl
  | false => rw [Fs.kind, Fs.kind, hI.leaf c hc hd]

theorem Source.lt (h₀ : Ready fs₀ T D) (h : Source fs₀ T D path t) : t < fs₀.next :=
  h₀.wf.lt_of_inside (h₀.wf.lt_of_isDir h₀.source) h.inside

/-- The directory is listed, name by name, with the kinds it had. -/
theorem ends_readDir (w : World) (h₀ : Ready fs₀ T D) (h : Source fs₀ T D path t)
    (hI : Inv fs₀ T D s) :
    Ends (readDir w path) s
      (fun es u => Quiet s u ∧ (es.map Prod.fst).Nodup ∧
        ∀ e ∈ es, ∃ c, (e.1, c) ∈ fs₀.entries t ∧ e.2 = fs₀.kind c)
      fun e u => Quiet s u ∧ e ≠ .depth := by
  rw [Seed.readDir]
  refine (ends_look w _ s).bind fun es u ⟨hu, hlist⟩ => ends_pure ⟨hu, ?_⟩
  obtain ⟨k, hk⟩ := h.leads
  rw [Fs.readDir, (hk s.fs hI.works).resolve] at hlist
  simp only at hlist
  split at hlist
  · next hd =>
      cases hlist
      rw [hI.works.isDir t (h.lt h₀)] at hd
      rw [entries_congr (h.entries h₀ hI.works hd)]
      have hperm := List.perm_insertionSort (fun a b => nameLe a.1 b.1 = true)
        ((fs₀.entries t).map fun e => (e.1, s.fs.kind e.2))
      constructor
      · rw [(hperm.map Prod.fst).nodup_iff, List.map_map]
        exact h₀.wf.nodup t
      · intro e he
        obtain ⟨⟨m, c⟩, hmem, heq⟩ := List.mem_map.mp (hperm.mem_iff.mp he)
        rw [← heq]
        exact ⟨c, hmem, hI.kind (h₀.wf.there t m c hmem)⟩
  · cases hlist

end Source

/-! ## The run -/

section Run

variable {fs₀ : Fs} {T D : ℕ} {p : Place} {B : Prop} {s : Sys} {path : GoString} {d c : ℕ}
  {copySub : GoString → GoString → SysM Unit}

/-- One turn of the loop. -/
theorem does_copyEntry (w : World) (uid : Int) (h₀ : Ready fs₀ T D) (hI : Inv fs₀ T D s)
    (hp : p.At D s.fs) (hsrc : Source fs₀ T D path d) {e : GoString × Kind}
    (hc : (e.1, c) ∈ fs₀.entries d) (hkind : e.2 = fs₀.kind c)
    (hwait : Waiting fs₀ D p (· = e.1) s.fs)
    (hsub : ∀ (q : Place) (u : Sys), Source fs₀ T D (path ++ 47 :: e.1) c → Inv fs₀ T D u →
      q.At D u.fs → Waiting fs₀ D q (fun _ => True) u.fs →
        Does fs₀ T D q (fun _ => True) B (copySub (path ++ 47 :: e.1) q.path) u
          fun _ _ => True) :
    Does fs₀ T D p (· = e.1) B (copyEntry w uid copySub path p.path e) s fun _ _ => True := by
  have hn := h₀.wf.names d e.1 c hc
  rw [copyEntry]
  simp only []
  rw [hsrc.spelled.pathJoin hn, hp.spelled.pathJoin hn]
  cases hk : e.2 with
  | dir =>
      rw [hkind] at hk
      have hdc := isDir_of_kind hk
      refine (does_look hI _).bind hI hp fun st t ht hpt hq => ?_
      obtain ⟨k, mode⟩ := st
      refine (turns_mkdirAll h₀ ht.inv hpt hn (hq.1.fs ▸ hwait) (perm mode)).bind ht.inv hpt
        fun _ u hu hpu hmade => ?_
      obtain ⟨c', hc'⟩ := hmade
      refine (does_change h₀ hu.inv hpu hn hc'.mine (fun _ => link_of_isDir hc'.isDir)
        (shape_setOwner uid)).bind hu.inv hpu fun _ v hv hpv hm => ?_
      obtain ⟨hmine, -, hentries⟩ := hm
      have hentry := hv.inv.wf.child_iff.mp hmine.child
      have hd' : v.fs.isDir c' = true := by
        rw [hv.works.isDir c' (hu.inv.wf.lt_of_isDir hc'.isDir)]
        exact hc'.isDir
      have hwait' : Waiting fs₀ D (p.child e.1 c') (fun _ => True) v.fs := by
        intro m x _ hx y hy
        rw [hentries] at hx
        exact hc'.old m x hx y (hy.of_entries hentries)
      have hnest : ∀ x, Done fs₀ T D (p.child e.1 c') (fun _ => True) v x →
          Done fs₀ T D p (· = e.1) v x :=
        fun x hx => ⟨hx.inv, hx.works.nest hv.inv.wf hentry fun _ => trivial⟩
      refine (hsub (p.child e.1 c') v (hsrc.child h₀ hc hdc) hv.inv
        (hpv.child hv.inv.wf hentry hd') hwait').mono ?_ ?_
      · exact fun _ x hx => ⟨hnest x hx.1, trivial⟩
      · exact fun _ x hx => ⟨hnest x hx.1, hx.2⟩
  | file =>
      rw [hkind] at hk
      obtain ⟨o, m, data, hnode⟩ := file_of_kind hk
      have hlink : fs₀.link c = none := by rw [Fs.link, hnode]
      exact turns_copyRegular h₀ hI hp hn ⟨hsrc.inside.tail ⟨e.1, hc⟩, hk⟩
        fun t ht => hsrc.resolve h₀ hc hlink ht
  | symlink => exact turns_copySymlink h₀ hI hp hn _
  | special => exact does_pure hI trivial

/-- The loop. -/
theorem does_entries (w : World) (uid : Int) (h₀ : Ready fs₀ T D)
    (hsrc : Source fs₀ T D path d)
    (hsub : ∀ n c, (n, c) ∈ fs₀.entries d → ∀ (q : Place) (u : Sys),
      Source fs₀ T D (path ++ 47 :: n) c → Inv fs₀ T D u → q.At D u.fs →
        Waiting fs₀ D q (fun _ => True) u.fs →
          Does fs₀ T D q (fun _ => True) B (copySub (path ++ 47 :: n) q.path) u
            fun _ _ => True) :
    ∀ (es : List (GoString × Kind)) (s : Sys), (es.map Prod.fst).Nodup →
      (∀ e ∈ es, ∃ c, (e.1, c) ∈ fs₀.entries d ∧ e.2 = fs₀.kind c) →
        Inv fs₀ T D s → p.At D s.fs → Waiting fs₀ D p (· ∈ es.map Prod.fst) s.fs →
          Does fs₀ T D p (fun _ => True) B
            (es.forM fun e => copyEntry w uid copySub path p.path e) s fun _ _ => True := by
  intro es
  induction es with
  | nil => exact fun s _ _ hI _ _ => does_pure hI trivial
  | cons e es ih =>
      intro s hnd hes hI hp hwait
      obtain ⟨hnot, hnd⟩ := List.nodup_cons.mp (List.map_cons ▸ hnd)
      obtain ⟨c, hc, hkind⟩ := hes e List.mem_cons_self
      have hhere : Waiting fs₀ D p (· = e.1) s.fs := by
        intro m x hm hx
        exact hwait m x (hm ▸ List.mem_cons_self) hx
      have hlater : Waiting fs₀ D p (· ∈ es.map Prod.fst) s.fs :=
        fun m x hm hx => hwait m x (List.mem_cons_of_mem _ hm) hx
      have hturn := does_copyEntry (B := B) w uid h₀ hI hp hsrc hc hkind hhere (hsub e.1 c hc)
      refine hturn.first (fun _ _ => trivial) hI hp fun _ t ht hpt _ => ?_
      refine ih t hnd (fun e' he' => hes e' (List.mem_cons_of_mem _ he')) ht.inv hpt ?_
      exact hlater.done hI ht fun m hm heq => hnot (heq ▸ hm)

/-- The copy, of a directory of the template into a place where nothing is new. It runs out
of depth only if the template is deeper than that. -/
theorem does_copyTree (w : World) (uid : Int) (h₀ : Ready fs₀ T D) : ∀ (fuel : ℕ)
    (path : GoString) (d : ℕ) (p : Place) (s : Sys), Source fs₀ T D path d →
      Inv fs₀ T D s → p.At D s.fs → Waiting fs₀ D p (fun _ => True) s.fs →
        Does fs₀ T D p (fun _ => True) (fuel < fs₀.size d) (copyTree w uid fuel path p.path) s
          fun _ _ => True := by
  intro fuel
  induction fuel with
  | zero =>
      intro path d p s hsrc hI _ _
      exact does_throw hI fun _ => h₀.wf.size_pos (hsrc.lt h₀)
  | succ fuel ih =>
      intro path d p s hsrc hI hp hwait
      rw [copyTree]
      have hlist := (ends_readDir w h₀ hsrc hI).mono
        (fun es t h => And.intro (Done.of_quiet (p := p) (N := fun _ => True) hI h.1) h)
        fun _ _ h => h
      refine (Does.of_ends hI hlist).bind hI hp fun es t ht hpt h => ?_
      obtain ⟨hq, hnd, hes⟩ := h
      refine does_entries w uid h₀ hsrc ?_ es t hnd hes ht.inv hpt ?_
      · intro n c hc q u hsub hu hq hw
        refine (ih _ c q u hsub hu hq hw).mono (fun _ _ h => h) fun e v hv => ⟨hv.1, ?_⟩
        intro he
        have hlt := h₀.wf.size_child ⟨n, hc⟩
        have := hv.2 he
        omega
      · intro n c _ hc
        rw [hq.fs] at hc ⊢
        exact hwait n c trivial hc

end Run

/-- A jail at `dir` that is to be seeded from the template at `t`: their app directories are
`D` and `T`, and the way to neither goes through the one that is written. -/
structure Seedable (fs : Fs) (dir t : GoString) (T D : ℕ) : Prop extends Ready fs T D where
  template : fs.resolve true (appDir t) = .ok T
  jail : fs.resolve true (appDir dir) = .ok D
  way : ∀ v ∈ fs.dirsOn (appDir t) ++ fs.dirsOn (appDir dir), ¬ fs.Inside D v

def Sys.init (fs : Fs) : Sys := { fs, clock := 0, touched := [], reads := [] }

theorem isName_app : Walk.IsName (str "app") :=
  ⟨by decide, by decide, by decide, by decide⟩

section Seedable

variable {fs : Fs} {dir t : GoString} {T D : ℕ}

theorem Ready.inv (h : Ready fs T D) : Inv fs T D (Sys.init fs) := by
  refine ⟨h.wf, Works.refl h.wf D fun _ => True, fun _ _ _ => rfl, List.forall_mem_nil _, ?_,
    List.forall_mem_nil _⟩
  intro i hi hlt
  exact absurd hlt (Nat.not_lt.mpr hi)

theorem Seedable.from_template (h : Seedable fs dir t T D) : Source fs T D (appDir t) T := by
  obtain ⟨k, hk⟩ := leads_of_resolve h.wf.there h.template
  refine ⟨spelled_pathJoin t isName_app, .refl, k, fun fs' hw => hk fs' (hw.agree h.wf ?_)⟩
  exact fun v hv => h.way v (List.mem_append_left _ hv)

theorem Seedable.place (h : Seedable fs dir t T D) :
    ∃ p : Place, p.path = appDir dir ∧ p.dir = D ∧ p.At D fs := by
  obtain ⟨k, hk⟩ := leads_of_resolve h.wf.there h.jail
  refine ⟨⟨appDir dir, D, k, (fs.dirsOn (appDir dir)).filter fs.isDir⟩, rfl, rfl,
    spelled_pathJoin dir isName_app, h.isDir, .refl, ?_, fun fs' hag => hk fs' hag.of_filter⟩
  intro v hv
  obtain ⟨hv, hd⟩ := List.mem_filter.mp hv
  exact ⟨hd, h.way v (List.mem_append_right _ hv)⟩

/-- Whatever the template holds and whichever calls fail, all that the copy makes or changes
is inside the jail's app directory when it does, all that it reads bytes from are regular
files of the template, and of what was there before only directories inside the app
directory are different afterwards. -/
theorem seeding_confined (h : Seedable fs dir t T D) (w : World) (fuel : ℕ) (uid : Int) :
    (∀ e ∈ ((seedFrom w fuel uid dir t).run (Sys.init fs)).2.touched,
        e.fs.Inside D e.object) ∧
      (∀ i ∈ ((seedFrom w fuel uid dir t).run (Sys.init fs)).2.reads,
        fs.Inside T i ∧ fs.kind i = .file) ∧
      (∀ i < fs.next, ¬ (fs.Inside D i ∧ fs.isDir i = true) →
        ((seedFrom w fuel uid dir t).run (Sys.init fs)).2.fs.node i = fs.node i) ∧
      (∀ i, fs.next ≤ i →
        ((seedFrom w fuel uid dir t).run (Sys.init fs)).2.fs.node i ≠ none →
          ∃ e ∈ ((seedFrom w fuel uid dir t).run (Sys.init fs)).2.touched, e.object = i) ∧
      (fs.next ≤ fuel →
        ((seedFrom w fuel uid dir t).run (Sys.init fs)).1 ≠ .error .depth) := by
  obtain ⟨p, hpath, hdir, hp⟩ := h.place
  have hwait : Waiting fs D p (fun _ => True) fs := by
    intro n c _ hc x hx
    rw [hdir] at hc
    exact ⟨h.wf.lt_of_inside (h.wf.there D n c hc) hx, Relation.ReflTransGen.head ⟨n, hc⟩ hx⟩
  have hrun := does_copyTree w uid h.toReady fuel (appDir t) T p
    (Sys.init fs) h.from_template h.toReady.inv hp hwait
  rw [hpath] at hrun
  obtain ⟨hdone, hdepth⟩ := Ends.state (hrun.mono (fun _ _ h => h.1) fun _ _ h => h)
  have hinv := hdone.inv
  refine ⟨hinv.touched, hinv.reads, ?_, ?_, ?_⟩
  · intro i hi hnot
    cases hd : fs.isDir i with
    | true => exact hinv.works.outside hi fun hin => hnot ⟨hin, hd⟩
    | false => exact hinv.leaf i hi hd
  · intro i hi hnode
    refine hinv.made i hi (Nat.lt_of_not_le fun hge => hnode ?_)
    exact hinv.wf.unused i hge
  · intro hfuel herr
    have hlt := hdepth _ herr rfl
    have hle := h.wf.size_le (h.wf.lt_of_isDir h.toReady.source)
    omega

end Seedable

/-! ## Two jails -/

/-- The template has a link to its own jail where the other has nothing, and a program
where the other has a source file. -/
def twoJails : Fs where
  node
    | 0 => some (.dir 0 0o755 0 [(str "a", 1), (str "b", 2)])
    | 1 => some (.dir 0 0o755 0 [(str "app", 3)])
    | 2 => some (.dir 0 0o755 0 [(str "app", 4)])
    | 3 => some (.dir 7 0o755 1 [(str "d", 5), (str "x", 6)])
    | 4 => some (.dir 8 0o755 2 [(str "x", 7)])
    | 5 => some (.symlink 7 (str "/a"))
    | 6 => some (.file 7 0o755 [1])
    | 7 => some (.file 8 0o644 [2])
    | _ => none
  root := 0
  cwd := 0
  next := 8

def calm : World := { euid := 0, umask := 0o022, fault := fun _ => none, written := fun _ => 0 }

example : ((seedFrom calm 8 9 (str "/b") (str "/a")).run (Sys.init twoJails)).2.fs.node 8 =
    some (.symlink 9 (str "/a")) := by
  decide +kernel

def twoJailsEntries : List (ℕ × GoString × ℕ) :=
  [(0, str "a", 1), (0, str "b", 2), (1, str "app", 3), (2, str "app", 4), (3, str "d", 5),
    (3, str "x", 6), (4, str "x", 7)]

theorem mem_twoJails {i j : ℕ} {n : GoString} (h : (n, j) ∈ twoJails.entries i) :
    (i, n, j) ∈ twoJailsEntries := by
  match i, h with
  | 0, h | 3, h =>
      simp only [Fs.entries, twoJails, List.mem_cons, List.not_mem_nil, or_false] at h
      rcases h with h | h <;> cases h <;> decide
  | 1, h | 2, h | 4, h =>
      simp only [Fs.entries, twoJails, List.mem_cons, List.not_mem_nil, or_false] at h
      cases h
      decide
  | 5, h | 6, h | 7, h | _ + 8, h => cases h

theorem twoJails_inside {d i : ℕ} {l : List ℕ} (hd : d ∈ l)
    (hl : ∀ e ∈ twoJailsEntries, e.1 ∈ l → e.2.2 ∈ l) (h : twoJails.Inside d i) : i ∈ l := by
  induction h with
  | refl => exact hd
  | tail _ hc ih =>
      obtain ⟨n, hn⟩ := hc
      exact hl _ (mem_twoJails hn) ih

theorem twoJails_wf : twoJails.Wf := by
  refine ⟨?_, ?_, ?_, ?_, ?_, id, ?_⟩
  · intro i hi
    match i, hi with
    | _ + 8, _ => rfl
  · intro i n j h
    have hall : ∀ e ∈ twoJailsEntries, e.2.2 < 8 := by decide
    exact hall _ (mem_twoJails h)
  · intro i n j h
    have hall : ∀ e ∈ twoJailsEntries, e.2.1 ≠ [] ∧ e.2.1 ≠ str "." ∧ e.2.1 ≠ str ".." ∧
        47 ∉ e.2.1 := by decide
    obtain ⟨h1, h2, h3, h4⟩ := hall _ (mem_twoJails h)
    exact ⟨h1, h2, h3, h4⟩
  · intro i
    match i with
    | 0 | 1 | 2 | 3 | 4 => decide
    | 5 | 6 | 7 | _ + 8 => exact List.nodup_nil
  · intro i i' n n' j h h' _
    have hall : ∀ e ∈ twoJailsEntries, ∀ e' ∈ twoJailsEntries, e.2.2 = e'.2.2 →
        e.1 = e'.1 ∧ e.2.1 = e'.2.1 := by decide
    exact hall _ (mem_twoJails h) _ (mem_twoJails h') rfl
  · rintro i j ⟨n, h⟩
    have hall : ∀ e ∈ twoJailsEntries, e.1 < e.2.2 := by decide
    exact hall _ (mem_twoJails h)

theorem twoJails_seedable : Seedable twoJails (str "/b") (str "/a") 3 4 := by
  have hD : ∀ i, twoJails.Inside 4 i → i ∈ [4, 7] := fun i h =>
    twoJails_inside (by decide) (by decide) h
  have hT : ∀ i, twoJails.Inside 3 i → i ∈ [3, 5, 6] := fun i h =>
    twoJails_inside (by decide) (by decide) h
  refine ⟨⟨twoJails_wf, rfl, rfl, ?_, ?_⟩, ?_, ?_, ?_⟩
  · intro i hi
    have hall : ∀ i ∈ [4, 7], twoJails.link i = none := by decide
    exact hall i (hD i hi)
  · intro i hi hi'
    have hall : ∀ i ∈ [3, 5, 6], i ∉ [4, 7] := by decide
    exact absurd (hD i hi') (hall i (hT i hi))
  · decide +kernel
  · decide +kernel
  · intro v hv hin
    have hall : ∀ v ∈ twoJails.dirsOn (appDir (str "/a")) ++ twoJails.dirsOn (appDir (str "/b")),
        v ∉ [4, 7] := by decide +kernel
    exact hall v hv (hD v hin)

theorem twoJails_confined :
    (∀ e ∈ ((seedFrom calm 8 9 (str "/b") (str "/a")).run (Sys.init twoJails)).2.touched,
        e.fs.Inside 4 e.object) ∧
      ((seedFrom calm 8 9 (str "/b") (str "/a")).run (Sys.init twoJails)).1 ≠ .error .depth :=
  have h := seeding_confined twoJails_seedable calm 8 9
  ⟨h.1, h.2.2.2.2 (Nat.le_refl 8)⟩

end Goboxd.Runner.Seed
