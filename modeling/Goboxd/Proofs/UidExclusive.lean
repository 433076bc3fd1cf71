import Goboxd.Proofs.PoolRuns
import Goboxd.Runner.Jail

/-!
# When a uid is handed out under a jail that is still being removed

`teardown` releases the uid first and removes the cgroup directory and the
jail directory afterwards, and so does the error exit of the first `Chown`.
Between the two the uid is free in the pool while a directory of its previous
jail still exists, owned by it. The round robin of the pool puts the uids that
are free ahead of it in between, and each `Alloc` takes one of them. So it is a
matter of time: when as many calls of `Alloc` come in between as there are such
uids, the next one gets the uid, and then two jails own files under it.

Nothing else goes wrong. Beside the machine somebody keeps count, for each jail
that has released its uid, of the free uids ahead of it. As long as no `Alloc` is
made when one of the counts is used up, any two jails that hold a uid or own a
directory have different ones; and the first `Alloc` made against that condition
breaks exclusiveness on the spot.
-/

namespace Goboxd.Runner

open RoundRobin Uidpool

/-- The jail holds its uid, or owns a directory under it. -/
def Jail.occupies (j : Jail) : Prop := j.holds = true ∨ j.owns = true

/-- No jail's directory or cgroup directory is under a uid that another jail
holds or owns something under. -/
def UidsExclusive (s : Family.St Pool Jail) : Prop :=
  ∀ (p q : ℕ) (l m : Jail), p ≠ q → s.procs[p]? = some l →
    s.procs[q]? = some m → l.owns = true → m.occupies → l.uid ≠ m.uid

/-! ## The count -/

/-- A release of `uid` adds one for a jail whose own uid the search comes to later. -/
def gain (s : Family.St Pool Jail) (uid : Int) (q : ℕ) : ℤ :=
  match s.procs[q]? with
  | some m => (decide (uid ∈ passed s.shared.slots m.uid)).toNat
  | none => 0

/-- The count that is kept for each jail. At its release it is the number of free uids
that the search comes to before its own. Each call of `Alloc` takes one off, whoever makes
it, and a later release of a uid further ahead adds one. -/
def noteSpares (left : ℕ → ℤ) (s : Family.St Pool Jail) :
    Family.Act (Option GoString) JailEvent → ℕ → ℤ
  | .own p _ =>
      match s.procs[p]? with
      | some j =>
          if j.pc = .alloc then fun q => left q - 1
          else if j.releases then fun q =>
            if q = p then (spare s.shared.slots s.shared.inUse j.uid : ℤ)
            else left q + gain s j.uid q
          else left
      | none => left
  | .env _ => left

section

variable {s : Family.St Pool Jail} {left : ℕ → ℤ} {p : ℕ} {e : Option GoString} {j : Jail}

theorem noteSpares_alloc (hj : s.procs[p]? = some j) (hpc : j.pc = .alloc) :
    noteSpares left s (.own p e) = fun q => left q - 1 := by
  simp [noteSpares, hj, hpc]

theorem noteSpares_release (hj : s.procs[p]? = some j) (hpc : j.releases = true) (q : ℕ) :
    noteSpares left s (.own p e) q =
      if q = p then (spare s.shared.slots s.shared.inUse j.uid : ℤ)
      else left q + gain s j.uid q := by
  have hnot : j.pc ≠ .alloc := by
    intro halloc
    simp [Jail.releases, halloc] at hpc
  simp [noteSpares, hj, hnot, hpc]

theorem noteSpares_keep (hj : s.procs[p]? = some j) (hpc : j.pc ≠ .alloc)
    (hrel : j.releases = false) : noteSpares left s (.own p e) = left := by
  simp [noteSpares, hj, hpc, hrel]

end

/-- The jails with the count. -/
def timedJails (cgActive : Bool) (minUid n : Int) :
    Machine (Family.St Pool Jail × (ℕ → ℤ)) (Family.Act (Option GoString) JailEvent) :=
  (jails cgActive minUid n).machine.observed noteSpares fun _ => 0

/-- `Alloc` is called only while, for each jail whose removal is unfinished, the count is
not used up. In a pool whose sums can overflow it is not called beside such a jail at all. -/
def Timely (x : Family.St Pool Jail × (ℕ → ℤ))
    (a : Family.Act (Option GoString) JailEvent) : Prop :=
  ∀ (p : ℕ) e j, a = .own p e → x.1.procs[p]? = some j → j.pc = .alloc →
    ∀ (q : ℕ) m, x.1.procs[q]? = some m → m.cleaning = true →
      x.1.shared.Plain ∧ 0 < x.2 q

/-! ## The first free uid

What has to be shown of each `Alloc` is that the uid it comes to first is not that of a
jail which is being removed. -/

def AllocClear (s : Family.St Pool Jail)
    (a : Family.Act (Option GoString) JailEvent) : Prop :=
  ∀ (p : ℕ) e j, a = .own p e → s.procs[p]? = some j → j.pc = .alloc →
    ∀ (q : ℕ) m, s.procs[q]? = some m → m.cleaning = true →
      ¬ s.shared.FirstFree m.uid

theorem occupies_cases {j : Jail} (h : j.occupies) :
    j.holds = true ∨ j.cleaning = true := by
  cases hh : j.holds with
  | true => exact .inl rfl
  | false =>
      refine .inr ?_
      rcases h with h | h
      · rw [hh] at h; cases h
      · rw [Jail.cleaning, hh, h]; rfl

section

variable {cgActive : Bool} {minUid n : Int} {s : Family.St Pool Jail}

/-- The count goes along with every run of the jails, and rules none of them out. -/
theorem timed_of_reachable (h : (jails cgActive minUid n).machine.Reachable s) :
    ∃ left, (timedJails cgActive minUid n).Reachable (s, left) :=
  h.observed noteSpares fun _ => 0

/-- Under the guard, held uids are marked in the pool and no two jails occupy
one uid. The two need each other: a release may only take the mark of the uid
it releases off, and a fresh uid is fresh because all held ones are marked. -/
theorem held_and_distinct
    (h : (jails cgActive minUid n).machine.Reach AllocClear s) :
    Family.Each (fun pool _ j => j.holds = true → j.uid ∈ pool.inUse) s ∧
      Family.Pairs (fun l m => l.occupies → m.occupies → l.uid ≠ m.uid) s := by
  refine Family.eachPairs ?_ ?_ ?_ ?_ ?_ ?_ h
  · exact fun l m hlm hm hl => (hlm hl hm).symm
  · intro s p a l r hL _ _ hl hr hh
    cases jailStep_effect hr with
    | alloc _ ha huid _ =>
        rw [huid, (Pool.alloc_ok ha).2.2]
        exact List.mem_cons_self
    | release _ _ hrel _ => rw [hrel] at hh; cases hh
    | keep huid hholds _ _ _ => rw [huid]; exact hL p l hl (hholds ▸ hh)
  · intro s p a l r q m hL hR _ hl hr hq hm hh
    have hmem := hL q m hm hh
    cases jailStep_effect hr with
    | alloc _ ha _ _ =>
        rw [(Pool.alloc_ok ha).2.2]
        exact List.mem_cons_of_mem _ hmem
    | release _ hholds _ _ =>
        exact Pool.mem_release_of_ne
          (hR q p m l hq hm hl (.inl hh) (.inl hholds)) hmem
    | keep _ _ _ _ _ => exact hmem
  · intro s p a l r q m hL hR hG hl hr hq hm hor hom
    cases jailStep_effect hr with
    | alloc hpc ha huid _ =>
        obtain ⟨hfirst, hfree, -⟩ := Pool.alloc_ok ha
        rw [huid]
        rcases occupies_cases hom with hh | hc
        · exact fun heq => hfree (heq ▸ hL q m hm hh)
        · exact fun heq => hG p a l rfl hl hpc q m hm hc (heq ▸ hfirst)
    | release _ hholds _ huid =>
        rw [huid]
        exact hR p q l m (Ne.symm hq) hl hm (.inl hholds) hom
    | keep huid hholds howns _ _ =>
        rw [huid]
        refine hR p q l m (Ne.symm hq) hl hm ?_ hom
        exact hor.elim (fun hh => .inl (hholds ▸ hh)) howns
  · intro s e r q m hL hr hm hh
    cases e
    cases hr
    exact hL q m hm hh
  · intro s e r k m hr hm
    cases e
    cases hr
    cases k with
    | zero =>
        cases hm
        have hocc : ¬ Jail.fresh.occupies := by
          rintro (ho | ho) <;> cases ho
        exact ⟨fun _ hh => absurd (.inl hh) hocc, fun l ho => absurd ho hocc⟩
    | succ k => cases hm

theorem fresh_owns_nothing (h : (jails cgActive minUid n).machine.Reachable s) :
    Family.Each (fun _ _ j => j.pc = .alloc → j.owns = false) s := by
  refine Family.each ?_ ?_ ?_ ?_ h
  · intro s p a l r _ _ _ _ hr hpc
    exact absurd hpc (jailStep_pc hr)
  · exact fun s p a l r q m _ ih _ _ _ _ hm => ih q m hm
  · exact fun s e r q m _ ih _ _ hm => ih q m hm
  · intro s e r k m _ _ hr hm _
    cases e
    cases hr
    cases k with
    | zero => cases hm; rfl
    | succ k => cases hm

/-- An `Alloc` that is not clear breaks exclusiveness at once. -/
theorem alloc_clear_of_exclusive {t : Family.St Pool Jail}
    {a : Family.Act (Option GoString) JailEvent}
    (h : (jails cgActive minUid n).machine.Reachable s)
    (hs : (jails cgActive minUid n).machine.step s a = some t)
    (ht : UidsExclusive t) : AllocClear s a := by
  intro p e j ha hj hpc q m hm hc hfirst
  subst ha
  obtain ⟨pool', ha⟩ := hfirst.alloc
  obtain ⟨j', r, hj', hr, rfl⟩ := Family.step_own.mp hs
  rw [hj] at hj'
  cases hj'
  have hrun : jailStep cgActive s.shared j e =
      some (pool', { j with pc := .mkdirTemp, uid := m.uid }) := by
    simp only [jailStep, hpc, ha]
  rw [show (jails cgActive minUid n).own p s.shared j e =
    jailStep cgActive s.shared j e from rfl, hrun] at hr
  cases hr
  have howns : m.owns = true := by
    rw [Jail.cleaning, Bool.and_eq_true] at hc
    exact hc.2
  -- the cleaning jail is another one: the allocating jail owns nothing yet
  have hqp : q ≠ p := by
    intro heq
    rw [heq, hj] at hm
    cases hm
    rw [fresh_owns_nothing h p j hj hpc] at howns
    cases howns
  have hm' : (s.procs.set p
      { j with pc := .mkdirTemp, uid := m.uid })[q]? = some m := by
    rw [List.getElem?_set_ne (Ne.symm hqp)]
    exact hm
  exact ht q p m _ hqp hm' (Family.getElem?_set_self hj) howns (.inl rfl) rfl

/-! ## The count is right

It is the number of free uids that the search comes to before the jail's own, as long as
that one is free itself. -/

/-- What the count is for one jail. -/
structure Counted (pool : Pool) (left : ℤ) (j : Jail) : Prop where
  held : j.holds = true → j.uid ∈ pool.slots
  range : j.cleaning = true → j.uid ∈ pool.slots
  free : j.cleaning = true → j.uid ∉ pool.inUse
  count : j.cleaning = true → left = spare pool.slots pool.inUse j.uid

/-- What it is for all of them. -/
structure Kept (x : Family.St Pool Jail × (ℕ → ℤ)) : Prop where
  ranged : x.1.shared.Ranged
  size : x.1.shared.size ≤ 4611686018427387904
  counted : ∀ (q : ℕ) m, x.1.procs[q]? = some m → Counted x.1.shared (x.2 q) m

variable {x y : Family.St Pool Jail × (ℕ → ℤ)}

theorem Kept.plain (h : Kept x) : x.1.shared.Plain :=
  ⟨h.ranged.min, h.ranged.top, h.size⟩

theorem Kept.nodup (h : Kept x) : x.1.shared.slots.Nodup :=
  Pool.slots_nodup h.ranged (Pool.sum_le h.ranged h.size)

/-- When the count is right, an `Alloc` takes the uid of a jail that is being removed
exactly when that jail's count is used up. -/
theorem Kept.timely_iff {a : Family.Act (Option GoString) JailEvent} (h : Kept x) :
    Timely x a ↔ AllocClear x.1 a := by
  constructor
  · intro ht p e j ha hj hpc q m hm hc hfirst
    obtain ⟨-, hpos⟩ := ht p e j ha hj hpc q m hm hc
    obtain ⟨pool', hok⟩ := hfirst.alloc
    have hturn := Pool.alloc_turn h.ranged h.size hok
    have hcount := (h.counted q m hm).count hc
    rw [hturn.spare_self] at hcount
    omega
  · intro hclear p e j ha hj hpc q m hm hc
    refine ⟨h.plain, ?_⟩
    obtain ⟨-, hrange, hfree, hcount⟩ := h.counted q m hm
    by_cases hzero : spare x.1.shared.slots x.1.shared.inUse m.uid = 0
    · -- nothing free is ahead of the jail's own uid, so that is the first
      cases hok : x.1.shared.alloc with
      | error msg => exact absurd (Pool.slots_held_of_error hok (hrange hc)) (hfree hc)
      | ok r =>
          have hturn := Pool.alloc_turn h.ranged h.size hok
          have heq := (hturn.eq_iff h.nodup (hrange hc) (hfree hc)).mpr hzero
          have hfirst := (Pool.alloc_ok hok).1
          rw [← heq] at hfirst
          exact absurd hfirst (hclear p e j ha hj hpc q m hm hc)
    · rw [hcount hc]
      omega

/-! ### Every step keeps it right -/

theorem Counted.other_alloc {pool pool' : Pool} {left : ℤ} {uid : Int} {m : Jail}
    (h : Counted pool left m) (hnodup : pool.slots.Nodup)
    (hturn : Turn pool.slots pool.inUse uid pool'.slots) (huse : pool'.inUse = uid :: pool.inUse)
    (hne : m.cleaning = true → m.uid ≠ uid) : Counted pool' (left - 1) m := by
  refine ⟨fun hh => hturn.mem_iff.mpr (h.held hh), fun hc => hturn.mem_iff.mpr (h.range hc),
    fun hc => ?_, fun hc => ?_⟩
  · rw [huse]
    exact fun hmem => (List.mem_cons.mp hmem).elim (hne hc) (h.free hc)
  · have hless := hturn.spare_other hnodup (h.range hc) (h.free hc) (hne hc)
    rw [huse, h.count hc, hless]
    omega

theorem Counted.other_release {pool pool' : Pool} {left : ℤ} {uid : Int} {m : Jail}
    (h : Counted pool left m) (hnodup : pool.slots.Nodup) (hheld : uid ∈ pool.inUse)
    (hslots : pool'.slots = pool.slots)
    (huse : pool'.inUse = pool.inUse.filter fun u => u ≠ uid) :
    Counted pool' (left + (decide (uid ∈ passed pool.slots m.uid)).toNat) m := by
  refine ⟨fun hh => hslots ▸ h.held hh, fun hc => hslots ▸ h.range hc, fun hc => ?_,
    fun hc => ?_⟩
  · rw [huse]
    exact fun hmem => h.free hc (List.mem_of_mem_filter hmem)
  · rw [hslots, huse, h.count hc, spare_give hnodup hheld]
    omega

/-- The jail that releases its uid has it counted afresh. -/
theorem Counted.self_release {pool pool' : Pool} {left : ℤ} {j j' : Jail}
    (h : Counted pool left j) (hholds : j.holds = true) (hrel : j'.holds = false)
    (huid : j'.uid = j.uid) (hslots : pool'.slots = pool.slots)
    (huse : pool'.inUse = pool.inUse.filter fun u => u ≠ j.uid) :
    Counted pool' (spare pool.slots pool.inUse j.uid) j' := by
  refine ⟨fun hh => ?_, fun _ => ?_, fun _ => ?_, fun _ => ?_⟩
  · rw [hrel] at hh
    cases hh
  · rw [huid, hslots]
    exact h.held hholds
  · rw [huid, huse]
    simp
  · rw [huid, hslots, huse, spare_give_self]

theorem release_slots (pool : Pool) (uid : Int) : (pool.release uid).slots = pool.slots := by
  obtain ⟨hmin, hsize, hnext⟩ := pool.release_min_size uid
  simp only [Pool.slots, Pool.slot, hmin, hsize, hnext]

theorem cleaning_iff {j : Jail} : j.cleaning = true ↔ j.holds = false ∧ j.owns = true := by
  simp [Jail.cleaning]

/-- The step lemma: what a clear step of a jail makes of the count. -/
theorem Kept.own {p : ℕ} {e : Option GoString} {j : Jail} {r : Pool × Jail} (h : Kept x)
    (hreach : (jails cgActive minUid n).machine.Reach AllocClear x.1)
    (hclear : AllocClear x.1 (.own p e)) (hj : x.1.procs[p]? = some j)
    (hr : jailStep cgActive x.1.shared j e = some r) :
    Kept (⟨r.1, x.1.procs.set p r.2⟩, noteSpares x.2 x.1 (.own p e)) := by
  have hnodup := h.nodup
  cases jailStep_effect hr with
  | @alloc uid pool' j' hpc hok huid hholds =>
      have hturn := Pool.alloc_turn h.ranged h.size hok
      have huse := (Pool.alloc_ok hok).2.2
      refine ⟨(Pool.alloc_ranged h.ranged (Pool.clear_of_le h.ranged h.size) hok).2,
        (Pool.alloc_min_size hok).2.1 ▸ h.size, fun q m hm => ?_⟩
      rw [noteSpares_alloc hj hpc]
      rcases Family.getElem?_set_cases hm with ⟨-, rfl⟩ | ⟨-, hm⟩
      · have hmem : uid ∈ pool'.slots := by
          obtain ⟨front, back, -, -, -, hring⟩ := hturn
          rw [hring]
          simp
        have hnot : m.cleaning = false := by simp [Jail.cleaning, hholds]
        refine ⟨fun _ => huid ▸ hmem, fun hc => ?_, fun hc => ?_, fun hc => ?_⟩ <;>
          · rw [hnot] at hc
            cases hc
      · refine (h.counted q m hm).other_alloc hnodup hturn huse fun hc heq => ?_
        exact hclear p e j rfl hj hpc q m hm hc (heq ▸ (Pool.alloc_ok hok).1)
  | @release j' hpc hholds hrel huid =>
      have hheld := (held_and_distinct hreach).1 p j hj hholds
      have hin := (Pool.mem_slots h.ranged h.size).mp ((h.counted p j hj).held hholds)
      have huse := Pool.release_inUse h.ranged hin.1 hin.2
      refine ⟨h.ranged.release j.uid, (x.1.shared.release_min_size j.uid).2.1 ▸ h.size,
        fun q m hm => ?_⟩
      show Counted _ (noteSpares x.2 x.1 (.own p e) q) m
      rw [noteSpares_release hj hpc]
      rcases Family.getElem?_set_cases hm with ⟨rfl, rfl⟩ | ⟨hq, hm⟩
      · rw [if_pos rfl]
        exact (h.counted q j hj).self_release hholds hrel huid (release_slots _ _) huse
      · rw [if_neg hq]
        have hgain : gain x.1 j.uid q =
            (decide (j.uid ∈ passed x.1.shared.slots m.uid)).toNat := by
          simp only [gain, hm]
        rw [hgain]
        exact (h.counted q m hm).other_release hnodup hheld (release_slots _ _) huse
  | @keep j' huid hholds howns hfail hpc =>
      -- a jail that gets no uid finds all of them in use, and then none is being removed
      have hnone : j.pc = .alloc → ∀ (q : ℕ) m, x.1.procs[q]? = some m → m.cleaning = false := by
        intro halloc q m hm
        obtain ⟨msg, hmsg⟩ := hfail halloc
        by_cases hc : m.cleaning = true
        · obtain ⟨-, hrange, hfree, -⟩ := h.counted q m hm
          exact absurd (Pool.slots_held_of_error hmsg (hrange hc)) (hfree hc)
        · simpa using hc
      have hself : j'.cleaning = true → j.cleaning = true := by
        intro hc
        obtain ⟨hh, ho⟩ := cleaning_iff.mp hc
        rw [hholds] at hh
        refine cleaning_iff.mpr ⟨hh, (howns ho).resolve_left fun hheld => ?_⟩
        rw [hh] at hheld
        cases hheld
      refine ⟨h.ranged, h.size, fun q m hm => ?_⟩
      by_cases halloc : j.pc = .alloc
      · have hidle : m.cleaning = false ∧ (m.holds = true → m.uid ∈ x.1.shared.slots) := by
          rcases Family.getElem?_set_cases hm with ⟨rfl, rfl⟩ | ⟨-, hm⟩
          · refine ⟨?_, fun hh => huid ▸ (h.counted q j hj).held (hholds ▸ hh)⟩
            by_cases hc : m.cleaning = true
            · have := hnone halloc q j hj
              rw [hself hc] at this
              cases this
            · simpa using hc
          · exact ⟨hnone halloc q m hm, (h.counted q m hm).held⟩
        refine ⟨hidle.2, fun hc => ?_, fun hc => ?_, fun hc => ?_⟩ <;>
          · rw [hidle.1] at hc
            cases hc
      · rw [noteSpares_keep hj halloc hpc]
        rcases Family.getElem?_set_cases hm with ⟨rfl, rfl⟩ | ⟨-, hm⟩
        · obtain ⟨hheld, hrange, hfree, hcount⟩ := h.counted q j hj
          exact ⟨fun hh => huid ▸ hheld (hholds ▸ hh), fun hc => huid ▸ hrange (hself hc),
            fun hc => huid ▸ hfree (hself hc), fun hc => huid ▸ hcount (hself hc)⟩
        · exact h.counted q m hm

theorem Kept.start (hplain : (New minUid n).Plain) :
    Kept (⟨New minUid n, []⟩, fun _ => 0) := by
  obtain ⟨hmin, htop, hsize⟩ := hplain
  refine ⟨⟨hmin, htop, Int.le_refl 0, ?_⟩, hsize, fun q m hm => by cases hm⟩
  show 0 < if n < 1 then 1 else n
  split <;> omega

theorem Kept.newJail (h : Kept x) : Kept (⟨x.1.shared, x.1.procs ++ [Jail.fresh]⟩, x.2) := by
  refine ⟨h.ranged, h.size, fun q m hm => ?_⟩
  rcases Family.getElem?_append_cases hm with hm | ⟨k, -, hm⟩
  · exact h.counted q m hm
  · rw [List.mem_singleton.mp (List.mem_of_getElem? hm)]
    exact ⟨fun hh => (by cases hh), fun hc => (by cases hc), fun hc => (by cases hc),
      fun hc => (by cases hc)⟩

/-- The run lemma: in every timely run each `Alloc` is clear, and in a pool without
overflows the count is right. -/
theorem timed_run (h : (timedJails cgActive minUid n).Reach Timely x) :
    (jails cgActive minUid n).machine.Reach AllocClear x.1 ∧
      (x.1.shared.Plain ↔ (New minUid n).Plain) ∧ ((New minUid n).Plain → Kept x) := by
  induction h with
  | @start x hinit =>
      obtain ⟨⟨hpool, hnil⟩, hblank⟩ := hinit
      obtain ⟨⟨shared, procs⟩, left⟩ := x
      cases hpool
      cases hnil
      cases hblank
      exact ⟨.start ⟨rfl, rfl⟩, Iff.rfl, Kept.start⟩
  | @next x y a _ htimely hs ih =>
      obtain ⟨hreach, hplain, hkept⟩ := ih
      obtain ⟨hs, hnote⟩ := Machine.step_observed.mp hs
      have hclear : AllocClear x.1 a := by
        by_cases hp : (New minUid n).Plain
        · exact (hkept hp).timely_iff.mp htimely
        · intro p e j ha hj hpc q m hm hc
          exact absurd (hplain.mp (htimely p e j ha hj hpc q m hm hc).1) hp
      refine ⟨.next hreach hclear hs, ?_⟩
      cases a with
      | own p e =>
          obtain ⟨j, r, hj, hr, ht⟩ := Family.step_own.mp hs
          have hsame : r.1.Plain ↔ x.1.shared.Plain := by
            have hms := jailStep_pool hr
            rw [Pool.Plain, Pool.Plain, hms.1, hms.2]
          obtain ⟨t, left⟩ := y
          cases hnote
          cases ht
          exact ⟨hsame.trans hplain, fun hp => (hkept hp).own hreach hclear hj hr⟩
      | env e =>
          obtain ⟨r, hr, ht⟩ := Family.step_env.mp hs
          obtain ⟨t, left⟩ := y
          cases e
          cases hr
          cases hnote
          cases ht
          exact ⟨hplain, fun hp => (hkept hp).newJail⟩

/-- Exclusiveness of uids, and the condition it rests on. In every run that is timely no
uid is handed out, or owned twice, under a jail that has not finished removing; and in a
pool whose sums do not overflow the first step that is not timely breaks that. -/
theorem uids_exclusive (h : (timedJails cgActive minUid n).Reach Timely x) :
    UidsExclusive x.1 ∧
      ((New minUid n).Plain → ∀ a y, (timedJails cgActive minUid n).step x a = some y →
        UidsExclusive y.1 → Timely x a) := by
  obtain ⟨hreach, -, hkept⟩ := timed_run h
  refine ⟨?_, fun hp a y hs hy => ?_⟩
  · intro p q l m hpq hl hm hol hom
    exact (held_and_distinct hreach).2 p q l m hpq hl hm (.inr hol) hom
  · have hclear := alloc_clear_of_exclusive hreach.reachable (Machine.step_observed.mp hs).1 hy
    exact (hkept hp).timely_iff.mpr hclear

end

/-! ## A run that reuses a uid

One slot and two CPUs give a pool of three uids. A request with `max_parallel`
two holds one for its template jail and runs its tests two at a time. -/

def succeed (p k : ℕ) : List (Family.Act (Option GoString) JailEvent) :=
  List.replicate k (.own p none)

def newJailCall : Family.Act (Option GoString) JailEvent := .env .newJail

/-- The template and two test jails are made, the second test jail is removed
completely, and the first is as far as the release of its uid. -/
def cleanupRun : List (Family.Act (Option GoString) JailEvent) :=
  newJailCall :: succeed 0 9 ++ newJailCall :: succeed 1 9 ++
    newJailCall :: succeed 2 13 ++ succeed 1 2

/-- The third test then gets the uid of the first and makes its directory. -/
def reuseRun : List (Family.Act (Option GoString) JailEvent) :=
  cleanupRun ++ newJailCall :: succeed 3 2

/-- Whether a step is timely. -/
def timelyCheck (x : Family.St Pool Jail × (ℕ → ℤ)) :
    Family.Act (Option GoString) JailEvent → Bool
  | .own p _ =>
      match x.1.procs[p]? with
      | some j =>
          j.pc ≠ .alloc ||
            (List.range x.1.procs.length).all fun q =>
              match x.1.procs[q]? with
              | some m => !m.cleaning || (x.1.shared.Plain && 0 < x.2 q)
              | none => true
      | none => true
  | .env _ => true

theorem timelyCheck_sound (x : Family.St Pool Jail × (ℕ → ℤ))
    (a : Family.Act (Option GoString) JailEvent) (h : timelyCheck x a = true) :
    Timely x a := by
  intro p e j ha hj hpc q m hm hc
  subst ha
  simp only [timelyCheck, hj, hpc, ne_eq, not_true_eq_false, decide_false,
    Bool.false_or, List.all_eq_true] at h
  obtain ⟨hq, -⟩ := List.getElem?_eq_some_iff.mp hm
  have hok := h q (List.mem_range.mpr hq)
  simpa [hm, hc] using hok

/-- With a pool of six the third test gets the uid 10003 in the same schedule, while the
jail of the first is still being removed. -/
theorem uids_exclusive_cleanup :
    ∃ x, (timedJails true 10000 6).exec (⟨New 10000 6, []⟩, fun _ => 0) reuseRun = some x ∧
      UidsExclusive x.1 ∧ x.1.procs.map Jail.uid = [10000, 10001, 10002, 10003] ∧
      x.1.procs.map Jail.cleaning = [false, true, false, false] := by
  have hinit : (timedJails true 10000 6).init (⟨New 10000 6, []⟩, fun _ => 0) :=
    ⟨⟨rfl, rfl⟩, rfl⟩
  have hr := Machine.reach_of_execIf timelyCheck_sound reuseRun (.start hinit) rfl
  exact ⟨_, rfl, (uids_exclusive hr).1, rfl, rfl⟩

theorem uid_reused_before_removal :
    ¬ ∀ s, (jails true 10000 3).machine.Reachable s → UidsExclusive s := by
  intro h
  have hinit : (jails true 10000 3).machine.init ⟨New 10000 3, []⟩ := ⟨rfl, rfl⟩
  have hr := Machine.reachable_of_exec reuseRun hinit rfl
  exact h _ hr 1 3 _ _ (by decide) rfl rfl rfl (.inr rfl) rfl

end Goboxd.Runner
