import Goboxd.Lib.Ledger
import Goboxd.Proofs.OomDetection
import Goboxd.Runner.JailOom

/-!
# Which exec a memory kill is charged to

The baseline is one number, a sum over leaves that come and go. It serves as
long as no kill is counted because of what cannot happen in the meantime: a leaf
that has counted a kill was there when the baseline was taken, with the same
count, and so is in that sum. A later scan reads each leaf once and finds such
leaves only, fewer of them perhaps. So its sum is not above the baseline.

Two things break this. When the directory cannot be listed for the baseline,
whatever the reason, the sum is zero and the next scan sees the old kills. And
the sum is a `uint64`: a baseline that wrapped around is below the sum of the
leaves that stay when others go.
-/

namespace Goboxd.Runner

open Go Cgroupv2

/-- The baseline reads the leaves: the directory is listed, or no leaf in it has
counted a kill, and what was read adds up to a `uint64`. -/
def BaselineRead (s : JailOom) (a : JailOomAct) : Prop :=
  (a = .scan .listFails → ∀ scan, s.stage = .baseline scan →
    ∀ l ∈ s.leaves, l.2.oomKill = 0) ∧
  (a = .start → ∀ scan, s.stage = .baseline scan → leftover scan.got < 2 ^ 64)

/-- An exec that is said to have been killed for its memory had a kill since its
baseline. -/
def Attributed (s : JailOom) : Prop :=
  ∀ oomKilled killed, s.stage = .done oomKilled killed → oomKilled = true →
    killed = true

/-- What the step that ends an exec leaves for `execJail` to work with: the flag
as it is read, and the directory as the check after `Wait` found it. -/
def Ends (files : Dir) (s : JailOom) (a : JailOomAct) (r : ExecRun) : Prop :=
  match a, s.stage with
  | .readFlag, .waited => r.isOOMKill = s.flag
  | .finalCheck, .checking scan => r.isOOMKill = false ∧ r.dirAfter = scan.dir files
  | _, _ => False

/-- The outcome of `execJail` has the answer of the exec that the step ends. -/
def JailOutcomeAgrees (cg : Cgroupv2.Jail) (files : Dir) (s : JailOom)
    (a : JailOomAct) (t : JailOom) : Prop :=
  ∀ oomKilled killed w j outputCap r, t.stage = .done oomKilled killed →
    j.cg = some cg → w.dirBefore = s.base.dir files → Ends files s a r →
      (execFinish w j outputCap r).oomKilled = oomKilled

/-! ## What a scan adds up to -/

theorem OOMKills_scan (files : Dir) (scan : Scan) :
    OOMKills (scan.dir files) = .ok (leftover scan.got % 2 ^ 64) := by
  have hgot : ∀ got : List (GoString × Option MemoryEvents),
      killsOfEntries (got.map fun o => (o.1, o.2.map shownEvents)) =
        .ok (leftover got) := by
    intro got
    simpa [killsOfEntries, Except.map] using killsOfEntries_others [] got
  cases scan with
  | opened => rfl
  | missing => rfl
  | reading todo got =>
      show (killsOfEntries (got.map fun o => (o.1, o.2.map shownEvents))).map _ = _
      rw [hgot]
      rfl

theorem oomBase_scan {cg : Cgroupv2.Jail} {files : Dir} (s : JailOom) :
    s.oomBase cg files = leftover s.base.got % 2 ^ 64 := by
  rw [JailOom.oomBase, oomBaseline, OOMKills_scan]

theorem since_scan {cg : Cgroupv2.Jail} {files : Dir} {s : JailOom} {scan : Scan} :
    s.since cg files scan = true ↔
      leftover s.base.got % 2 ^ 64 < leftover scan.got % 2 ^ 64 := by
  rw [JailOom.since, oomSince, OOMKillsSince, OOMKills_scan, oomBase_scan]
  simp [Except.map]

/-- What an entry adds to the sum. -/
def killsRead (o : GoString × Option MemoryEvents) : Nat :=
  if hasPrefix o.1 (str "NSJAIL.") then o.2.elim 0 fun e => e.oomKill % 2 ^ 64
  else 0

theorem leftover_eq_sum (got : List (GoString × Option MemoryEvents)) :
    leftover got = (got.map killsRead).sum := by
  induction got with
  | nil => rfl
  | cons o got ih =>
      obtain ⟨name, events⟩ := o
      rw [leftover, List.map_cons, List.sum_cons, ih, killsRead]

/-- A sum over different keys, each of whose positive entries is in another list,
is not above that list's sum. -/
theorem sum_le_of_matched {κ : Type} : ∀ {l b : List (κ × Nat)},
    (l.map Prod.fst).Nodup → (∀ o ∈ l, 0 < o.2 → o ∈ b) →
    (l.map Prod.snd).sum ≤ (b.map Prod.snd).sum := by
  intro l
  induction l with
  | nil => intro b _ _; exact Nat.zero_le _
  | cons o l ih =>
      intro b hnodup h
      rw [List.map_cons, List.nodup_cons] at hnodup
      have hrest := fun o' ho' => h o' (List.mem_cons_of_mem o ho')
      rw [List.map_cons, List.sum_cons]
      by_cases hpos : 0 < o.2
      · -- the entry is taken out of the other list: no later key is its key
        obtain ⟨b₁, b₂, rfl⟩ := List.append_of_mem (h o List.mem_cons_self hpos)
        have hle := ih (b := b₁ ++ b₂) hnodup.2 fun o' ho' hpos' => by
          have hne : o' ≠ o := fun heq =>
            hnodup.1 (heq ▸ List.mem_map_of_mem ho')
          have hmem := hrest o' ho' hpos'
          simp only [List.mem_append, List.mem_cons, hne, false_or] at hmem ⊢
          exact hmem
        simp only [List.map_append, List.sum_append, List.map_cons, List.sum_cons] at hle ⊢
        omega
      · have := ih hnodup.2 hrest
        omega

/-! ## Scans and the leaves they read -/

/-- The scan read this kill count in this leaf. -/
def Scan.Saw (scan : Scan) (name : GoString) (kills : Nat) : Prop :=
  ∃ e, (name, some e) ∈ scan.got ∧ e.oomKill = kills

/-- Every leaf with a kill is read, or still will be. -/
def Covers (leaves : Leaves) (scan : Scan) : Prop :=
  ∀ l ∈ leaves, 0 < l.2.oomKill →
    match scan with
    | .opened => True
    | .reading todo _ => l.1 ∈ todo ∨ scan.Saw l.1 l.2.oomKill
    | .missing => False

def Scan.names : Scan → List GoString
  | .reading todo got => got.map Prod.fst ++ todo
  | _ => []

/-- The scan reads different leaves, and every kill it has seen so far is one
that the baseline saw. -/
structure Scan.Old (base scan : Scan) : Prop where
  nodup : scan.names.Nodup
  saw : ∀ name e, (name, some e) ∈ scan.got → 0 < e.oomKill →
    base.Saw name e.oomKill

/-- The names are those of nsjail's leaves. -/
def NsjailNames (names : List GoString) : Prop :=
  ∀ name ∈ names, hasPrefix name (str "NSJAIL.") = true

theorem leftover_le_of_old {base scan : Scan} (hbase : NsjailNames base.names)
    (h : Scan.Old base scan) : leftover scan.got ≤ leftover base.got := by
  have hpairs : ∀ got : List (GoString × Option MemoryEvents),
      leftover got = ((got.map fun o => (o.1, killsRead o)).map Prod.snd).sum := by
    intro got
    rw [leftover_eq_sum, List.map_map]
    rfl
  have hnames : ∀ {s : Scan} {o : GoString × Option MemoryEvents}, o ∈ s.got →
      o.1 ∈ s.names := by
    intro s o ho
    cases s with
    | opened => cases ho
    | missing => cases ho
    | reading todo got =>
        exact List.mem_append_left _ (List.mem_map_of_mem ho)
  have hkeys : ((scan.got.map fun o => (o.1, killsRead o)).map Prod.fst).Nodup := by
    rw [List.map_map]
    have hn := h.nodup
    cases scan with
    | opened => exact List.nodup_nil
    | missing => exact List.nodup_nil
    | reading todo got => exact (List.nodup_append.mp hn).1
  rw [hpairs, hpairs]
  refine sum_le_of_matched hkeys fun o' ho' hpos => ?_
  obtain ⟨⟨name, events⟩, ho, rfl⟩ := List.mem_map.mp ho'
  unfold killsRead at hpos ⊢
  split at hpos
  · cases events with
    | none => exact absurd hpos (Nat.lt_irrefl 0)
    | some e =>
        have hkill : 0 < e.oomKill := by
          have := Nat.mod_le e.oomKill (2 ^ 64)
          have hpos : 0 < e.oomKill % 2 ^ 64 := hpos
          omega
        obtain ⟨e₀, hmem, heq⟩ := h.saw name e ho hkill
        refine List.mem_map.mpr ⟨(name, some e₀), hmem, ?_⟩
        have hp := hbase name (hnames hmem)
        simp only [hp, if_true, Option.elim_some, heq]
  · exact absurd hpos (Nat.lt_irrefl 0)

/-- A scan that saw no other kills finds none since the baseline. -/
theorem since_false {cg : Cgroupv2.Jail} {files : Dir} {s : JailOom} {scan : Scan}
    (hbase : NsjailNames s.base.names) (hsum : leftover s.base.got < 2 ^ 64)
    (h : Scan.Old s.base scan) : s.since cg files scan = false := by
  rw [← Bool.not_eq_true, since_scan, Nat.mod_eq_of_lt hsum]
  have hle := leftover_le_of_old hbase h
  have hmod := Nat.mod_le (leftover scan.got) (2 ^ 64)
  omega

/-! ## The leaves between two scans -/

/-- Every leaf that has counted a kill was there before, with that count. -/
def NoNewKills (before after : Leaves) : Prop :=
  ∀ l ∈ after, 0 < l.2.oomKill →
    ∃ l₀ ∈ before, l₀.1 = l.1 ∧ l₀.2.oomKill = l.2.oomKill

theorem lookup_of_mem {name : GoString} {e : MemoryEvents} : ∀ {leaves : Leaves},
    (leaves.map Prod.fst).Nodup → (name, e) ∈ leaves →
    leaves.lookup name = some e := by
  intro leaves
  induction leaves with
  | nil => intro _ h; cases h
  | cons l leaves ih =>
      intro hnodup h
      rw [List.map_cons, List.nodup_cons] at hnodup
      rcases List.mem_cons.mp h with rfl | h
      · exact List.lookup_cons_self
      · have hne : name ≠ l.1 := fun heq =>
          hnodup.1 (heq ▸ List.mem_map_of_mem (f := Prod.fst) h)
        rw [List.lookup_cons, beq_false_of_ne hne]
        exact ih hnodup.2 h

theorem keys_setEvents (leaves : Leaves) (name : GoString) (events : MemoryEvents) :
    (setEvents leaves name events).map Prod.fst = leaves.map Prod.fst := by
  rw [setEvents, List.map_map]
  refine List.map_congr_left fun l _ => ?_
  show (if l.1 = name then (name, events) else l).1 = l.1
  split
  · next h => exact h.symm
  · rfl

theorem mem_setEvents {leaves : Leaves} {name : GoString} {events : MemoryEvents}
    {l : GoString × MemoryEvents} (h : l ∈ setEvents leaves name events) :
    l = (name, events) ∨ l ∈ leaves := by
  obtain ⟨l₀, hl₀, heq⟩ := List.mem_map.mp h
  split at heq
  · exact .inl heq.symm
  · exact .inr (heq ▸ hl₀)

theorem noNewKills_create (leaves : Leaves) (name : GoString) :
    NoNewKills leaves ((name, noEvents) :: leaves) := by
  intro l hl hpos
  rcases List.mem_cons.mp hl with rfl | hl
  · exact absurd hpos (Nat.lt_irrefl 0)
  · exact ⟨l, hl, rfl, rfl⟩

theorem noNewKills_count {leaves : Leaves} {name : GoString}
    {old events : MemoryEvents} (hold : leaves.lookup name = some old)
    (heq : old.oomKill = events.oomKill) :
    NoNewKills leaves (setEvents leaves name events) := by
  intro l hl _
  rcases mem_setEvents hl with rfl | hl
  · exact ⟨(name, old), mem_of_lookup hold, rfl, heq⟩
  · exact ⟨l, hl, rfl, rfl⟩

theorem noNewKills_remove (leaves : Leaves) (name : GoString) :
    NoNewKills leaves (removeLeaf leaves name) := by
  intro l hl _
  exact ⟨l, List.mem_of_mem_filter hl, rfl, rfl⟩

theorem Covers.mono {before after : Leaves} {scan : Scan} (h : Covers before scan)
    (hk : NoNewKills before after) : Covers after scan := by
  intro l hl hpos
  obtain ⟨l₀, hl₀, hname, hkills⟩ := hk l hl hpos
  have := h l₀ hl₀ (by omega)
  rw [hname, hkills] at this
  exact this

/-- A step of the baseline's scan keeps every leaf with a kill in view. -/
theorem Covers.step {leaves : Leaves} {scan scan' : Scan} {a : ScanAct}
    (hkeys : (leaves.map Prod.fst).Nodup) (hs : scanStep leaves scan a = some scan')
    (hfails : a = .listFails → ∀ l ∈ leaves, l.2.oomKill = 0)
    (h : Covers leaves scan) : Covers leaves scan' := by
  intro l hl hpos
  cases scan with
  | opened =>
      cases a with
      | list =>
          cases hs
          exact .inl (List.mem_map_of_mem hl)
      | listFails => exact absurd (hfails rfl l hl) (by omega)
      | read => cases hs
  | missing => cases a <;> cases hs
  | reading todo got =>
      cases todo with
      | nil => cases a <;> cases hs
      | cons name todo =>
          cases a with
          | list => cases hs
          | listFails => cases hs
          | read =>
              cases hs
              rcases h l hl hpos with hmem | ⟨e, hmem, heq⟩
              · rcases List.mem_cons.mp hmem with hname | hmem
                · refine .inr ⟨l.2, List.mem_append_right _ ?_, rfl⟩
                  rw [← hname, lookup_of_mem hkeys hl]
                  exact List.mem_singleton.mpr rfl
                · exact .inl hmem
              · exact .inr ⟨e, List.mem_append_left _ hmem, heq⟩

theorem Covers.saw {leaves : Leaves} {scan : Scan} (h : Covers leaves scan)
    (hfin : scan.finished = true) {l : GoString × MemoryEvents} (hl : l ∈ leaves)
    (hpos : 0 < l.2.oomKill) : scan.Saw l.1 l.2.oomKill := by
  have hl := h l hl hpos
  cases scan with
  | opened => cases hfin
  | missing => exact hl.elim
  | reading todo got =>
      have htodo : todo = [] := of_decide_eq_true hfin
      rcases hl with hmem | hsaw
      · rw [htodo] at hmem
        cases hmem
      · exact hsaw

/-- A step of a later scan sees no other kills, as long as the leaves have none
that the baseline did not see. -/
theorem Scan.Old.step {base scan scan' : Scan} {leaves : Leaves} {a : ScanAct}
    (hkeys : (leaves.map Prod.fst).Nodup) (hs : scanStep leaves scan a = some scan')
    (hsaw : ∀ l ∈ leaves, 0 < l.2.oomKill → base.Saw l.1 l.2.oomKill)
    (h : Scan.Old base scan) : Scan.Old base scan' := by
  cases scan with
  | opened =>
      cases a with
      | list =>
          cases hs
          exact ⟨hkeys, fun _ _ hmem => absurd hmem List.not_mem_nil⟩
      | listFails =>
          cases hs
          exact ⟨List.nodup_nil, fun _ _ hmem => absurd hmem List.not_mem_nil⟩
      | read => cases hs
  | missing => cases a <;> cases hs
  | reading todo got =>
      cases todo with
      | nil => cases a <;> cases hs
      | cons name todo =>
          cases a with
          | list => cases hs
          | listFails => cases hs
          | read =>
              cases hs
              refine ⟨?_, fun n e hmem hpos => ?_⟩
              · have hn := h.nodup
                simp only [Scan.names, List.map_append, List.map_cons, List.map_nil,
                  List.append_assoc, List.singleton_append] at hn ⊢
                exact hn
              · rcases List.mem_append.mp hmem with hmem | hmem
                · exact h.saw n e hmem hpos
                · have heq := List.mem_singleton.mp hmem
                  rw [Prod.mk.injEq] at heq
                  obtain ⟨rfl, hlookup⟩ := heq
                  exact hsaw _ (mem_of_lookup hlookup.symm) hpos

theorem old_opened (base : Scan) : Scan.Old base .opened :=
  ⟨List.nodup_nil, fun _ _ hmem => absurd hmem List.not_mem_nil⟩

theorem nsjailNames_step {leaves : Leaves} {scan scan' : Scan} {a : ScanAct}
    (hleaves : NsjailNames (leaves.map Prod.fst))
    (hs : scanStep leaves scan a = some scan') (h : NsjailNames scan.names) :
    NsjailNames scan'.names := by
  cases scan with
  | opened =>
      cases a with
      | list => cases hs; exact hleaves
      | listFails => cases hs; exact fun _ hmem => absurd hmem List.not_mem_nil
      | read => cases hs
  | missing => cases a <;> cases hs
  | reading todo got =>
      cases todo with
      | nil => cases a <;> cases hs
      | cons name todo =>
          cases a with
          | list => cases hs
          | listFails => cases hs
          | read =>
              cases hs
              simp only [Scan.names, List.map_append, List.map_cons, List.map_nil,
                List.append_assoc, List.singleton_append] at h ⊢
              exact h

/-! ## The invariant -/

/-- What holds of a jail whose baselines read the leaves. As long as no kill is
counted since the baseline, the leaves with a kill are those the baseline saw, and
no scan has found another. -/
structure OomInv (s : JailOom) : Prop where
  keys : (s.leaves.map Prod.fst).Nodup
  leafNames : NsjailNames (s.leaves.map Prod.fst)
  scanNames : ∀ scan, s.stage = .baseline scan → NsjailNames scan.names
  baseNames : NsjailNames s.base.names
  baseSum : leftover s.base.got < 2 ^ 64
  covers : ∀ scan, s.stage = .baseline scan → s.killed = false → Covers s.leaves scan
  saw : s.stage.polled = true → s.killed = false →
    ∀ l ∈ s.leaves, 0 < l.2.oomKill → s.base.Saw l.1 l.2.oomKill
  flag : s.stage.polled = true → s.killed = false → s.flag = false
  pollerOn : s.poller ≠ none → s.stage.polled = true
  poller : ∀ scan, s.poller = some scan → s.killed = false → Scan.Old s.base scan
  checking : ∀ scan, s.stage = .checking scan → s.killed = false →
    Scan.Old s.base scan
  attributed : Attributed s

/-- The kernel and nsjail work on the leaves. -/
theorem OomInv.leaves {s : JailOom} (hi : OomInv s) {leaves : Leaves} {killed : Bool}
    (hkeys : (leaves.map Prod.fst).Nodup) (hnames : NsjailNames (leaves.map Prod.fst))
    (hkilled : killed = false → s.killed = false ∧ NoNewKills s.leaves leaves) :
    OomInv { s with leaves := leaves, killed := killed } where
  keys := hkeys
  leafNames := hnames
  scanNames := hi.scanNames
  baseNames := hi.baseNames
  baseSum := hi.baseSum
  covers := by
    intro scan hs hk
    obtain ⟨hk', hnew⟩ := hkilled hk
    exact (hi.covers scan hs hk').mono hnew
  saw := by
    intro hp hk l hl hpos
    obtain ⟨hk', hnew⟩ := hkilled hk
    obtain ⟨l₀, hl₀, hname, hkills⟩ := hnew l hl hpos
    have hsaw := hi.saw hp hk' l₀ hl₀ (by omega)
    rw [hname, hkills] at hsaw
    exact hsaw
  flag := fun hp hk => hi.flag hp (hkilled hk).1
  pollerOn := hi.pollerOn
  poller := fun scan hs hk => hi.poller scan hs (hkilled hk).1
  checking := fun scan hs hk => hi.checking scan hs (hkilled hk).1
  attributed := hi.attributed

theorem OomInv.poller_none {s : JailOom} (hi : OomInv s)
    (h : s.stage.polled = false) : s.poller = none := by
  by_contra hne
  rw [hi.pollerOn hne] at h
  cases h

/-- Before its poller is started, an exec has nothing but its baseline's scan. -/
theorem oomInv_unpolled {t : JailOom} (hpolled : t.stage.polled = false)
    (hpoller : t.poller = none) (hkeys : (t.leaves.map Prod.fst).Nodup)
    (hnames : NsjailNames (t.leaves.map Prod.fst)) (hbase : NsjailNames t.base.names)
    (hsum : leftover t.base.got < 2 ^ 64)
    (hscan : ∀ scan, t.stage = .baseline scan →
      NsjailNames scan.names ∧ (t.killed = false → Covers t.leaves scan)) : OomInv t where
  keys := hkeys
  leafNames := hnames
  scanNames := fun scan hs => (hscan scan hs).1
  baseNames := hbase
  baseSum := hsum
  covers := fun scan hs => (hscan scan hs).2
  saw := by
    intro hp
    rw [hpolled] at hp
    cases hp
  flag := by
    intro hp
    rw [hpolled] at hp
    cases hp
  pollerOn := fun hne => absurd hpoller hne
  poller := by
    intro scan hs
    rw [hpoller] at hs
    cases hs
  checking := by
    intro scan hs
    rw [hs] at hpolled
    cases hpolled
  attributed := by
    intro o k hs
    rw [hs] at hpolled
    cases hpolled

/-- A step of the exec once its poller was started. -/
theorem OomInv.stage {s : JailOom} (hi : OomInv s) (stage : ExecStage)
    (hpolled : s.stage.polled = true) (hpolled' : stage.polled = true)
    (hcheck : ∀ scan, stage = .checking scan → s.killed = false →
      Scan.Old s.base scan)
    (hdone : Attributed (s.setStage stage)) : OomInv (s.setStage stage) where
  keys := hi.keys
  leafNames := hi.leafNames
  scanNames := by
    intro scan hs
    rw [show stage = .baseline scan from hs] at hpolled'
    cases hpolled'
  baseNames := hi.baseNames
  baseSum := hi.baseSum
  covers := by
    intro scan hs
    rw [show stage = .baseline scan from hs] at hpolled'
    cases hpolled'
  saw := fun _ => hi.saw hpolled
  flag := fun _ => hi.flag hpolled
  pollerOn := fun _ => hpolled'
  poller := hi.poller
  checking := hcheck
  attributed := hdone

/-- A step of the poller. -/
theorem OomInv.polling {s : JailOom} (hi : OomInv s) (poller : Option Scan) (flag : Bool)
    (hon : poller ≠ none → s.stage.polled = true)
    (hold : ∀ scan, poller = some scan → s.killed = false → Scan.Old s.base scan)
    (hflag : s.killed = false → flag = false) :
    OomInv { s with flag := flag, poller := poller } where
  keys := hi.keys
  leafNames := hi.leafNames
  scanNames := hi.scanNames
  baseNames := hi.baseNames
  baseSum := hi.baseSum
  covers := hi.covers
  saw := hi.saw
  flag := fun _ => hflag
  pollerOn := hon
  poller := hold
  checking := hi.checking
  attributed := hi.attributed

theorem oomInv_step {cg : Cgroupv2.Jail} {files : Dir} {s t : JailOom}
    {a : JailOomAct} (h : JailOomMove cg files s a t) (hread : BaselineRead s a)
    (hi : OomInv s) : OomInv t := by
  cases h with
  | create hname hnew =>
      refine hi.leaves ?_ ?_ fun hk => ⟨hk, noNewKills_create _ _⟩
      · rw [List.map_cons, List.nodup_cons]
        exact ⟨hnew, hi.keys⟩
      · intro n hn
        rw [List.map_cons] at hn
        rcases List.mem_cons.mp hn with rfl | hn
        · exact hname
        · exact hi.leafNames n hn
  | @count name old events hold hle hlt =>
      refine hi.leaves ?_ ?_ fun hk => ?_
      · rw [keys_setEvents]
        exact hi.keys
      · rw [keys_setEvents]
        exact hi.leafNames
      · rw [Bool.or_eq_false_iff, decide_eq_false_iff_not] at hk
        exact ⟨hk.1, noNewKills_count hold (by omega)⟩
  | remove =>
      refine hi.leaves ?_ ?_ fun hk => ⟨hk, noNewKills_remove _ _⟩
      · exact hi.keys.sublist (List.filter_sublist.map _)
      · intro n hn
        obtain ⟨l, hl, rfl⟩ := List.mem_map.mp hn
        exact hi.leafNames _ (List.mem_map_of_mem (List.mem_of_mem_filter hl))
  | begin hfree hpoller =>
      refine oomInv_unpolled rfl hpoller hi.keys hi.leafNames hi.baseNames hi.baseSum ?_
      intro scan hs
      cases hs
      exact ⟨fun _ hmem => absurd hmem List.not_mem_nil, fun _ _ _ _ => trivial⟩
  | @baseScan a scan scan' hs hscan =>
      have hunpolled : s.stage.polled = false := by rw [hs]; rfl
      refine oomInv_unpolled rfl (hi.poller_none hunpolled) hi.keys hi.leafNames
        hi.baseNames hi.baseSum ?_
      intro scan₁ hs₁
      cases hs₁
      refine ⟨nsjailNames_step hi.leafNames hscan (hi.scanNames scan hs), fun hk => ?_⟩
      refine (hi.covers scan hs hk).step hi.keys hscan fun ha => ?_
      rw [ha] at hread
      exact hread.1 rfl scan hs
  | @checkScan a scan scan' hs hscan =>
      have hpolled : s.stage.polled = true := by rw [hs]; rfl
      refine hi.stage (.checking scan') hpolled rfl ?_ ?_
      · intro scan₁ hs₁ hk
        cases hs₁
        exact (hi.checking scan hs hk).step hi.keys hscan (hi.saw hpolled hk)
      · intro o k hs₁
        cases hs₁
  | @start scan hs hfin =>
      have hunpolled : s.stage.polled = false := by rw [hs]; rfl
      have hpoller : s.poller = none := hi.poller_none hunpolled
      refine ⟨hi.keys, hi.leafNames, ?_, hi.scanNames scan hs, hread.2 rfl scan hs, ?_, ?_,
        ?_, ?_, ?_, ?_, ?_⟩
      · intro scan₁ hs₁
        cases hs₁
      · intro scan₁ hs₁
        cases hs₁
      · intro _ hk l hl hpos
        exact (hi.covers scan hs hk).saw hfin hl hpos
      · intro _ _
        rfl
      · intro _
        rfl
      · intro scan₁ hs₁
        rw [hpoller] at hs₁
        cases hs₁
      · intro scan₁ hs₁
        cases hs₁
      · intro o k hs₁
        cases hs₁
  | startFails hs hfin =>
      have hunpolled : s.stage.polled = false := by rw [hs]; rfl
      refine oomInv_unpolled rfl (hi.poller_none hunpolled) hi.keys hi.leafNames
        hi.baseNames hi.baseSum ?_
      intro scan hs₁
      cases hs₁
  | tick hs hpoller =>
      refine hi.polling (some .opened) s.flag (fun _ => hs) ?_ (hi.flag hs)
      intro scan hscan _
      cases hscan
      exact old_opened s.base
  | @pollScan a scan scan' hpoller hscan =>
      have hpolled : s.stage.polled = true :=
        hi.pollerOn (by rw [hpoller]; exact Option.some_ne_none scan)
      refine hi.polling (some scan') s.flag (fun _ => hpolled) ?_ (hi.flag hpolled)
      intro scan₁ hs₁ hk
      cases hs₁
      exact (hi.poller scan hpoller hk).step hi.keys hscan (hi.saw hpolled hk)
  | @store scan hpoller hfin =>
      have hpolled : s.stage.polled = true :=
        hi.pollerOn (by rw [hpoller]; exact Option.some_ne_none scan)
      refine hi.polling none (s.flag || s.since cg files scan)
        (fun hne => absurd rfl hne) ?_ ?_
      · intro scan₁ hs₁
        cases hs₁
      · intro hk
        rw [hi.flag hpolled hk, Bool.false_or]
        exact since_false hi.baseNames hi.baseSum (hi.poller scan hpoller hk)
  | wait hs =>
      have hpolled : s.stage.polled = true := by rw [hs]; rfl
      refine hi.stage .waited hpolled rfl ?_ ?_
      · intro scan hs₁
        cases hs₁
      · intro o k hs₁
        cases hs₁
  | flagSet hs hf =>
      have hpolled : s.stage.polled = true := by rw [hs]; rfl
      refine hi.stage (.done true s.killed) hpolled rfl ?_ ?_
      · intro scan hs₁
        cases hs₁
      · intro o k hs₁ _
        cases hs₁
        by_contra hk
        rw [Bool.not_eq_true] at hk
        rw [hi.flag hpolled hk] at hf
        cases hf
  | flagUnset hs hf =>
      have hpolled : s.stage.polled = true := by rw [hs]; rfl
      refine hi.stage (.checking .opened) hpolled rfl ?_ ?_
      · intro scan hs₁ _
        cases hs₁
        exact old_opened s.base
      · intro o k hs₁
        cases hs₁
  | @finalCheck scan hs hfin =>
      have hpolled : s.stage.polled = true := by rw [hs]; rfl
      refine hi.stage (.done (s.since cg files scan) s.killed) hpolled rfl ?_ ?_
      · intro scan₁ hs₁
        cases hs₁
      · intro o k hs₁ ho
        cases hs₁
        by_contra hk
        rw [Bool.not_eq_true] at hk
        have hold : s.since cg files scan = false :=
          since_false hi.baseNames hi.baseSum (hi.checking scan hs hk)
        rw [hold] at ho
        cases ho

theorem oomInv_of_read {cg : Cgroupv2.Jail} {files : Dir} {s : JailOom}
    (h : (jailOom cg files).Reach BaselineRead s) : OomInv s := by
  refine h.invariant ?_ fun s a t _ hi hread hs => oomInv_step (jailOom_move hs) hread hi
  intro s hs
  rw [show s = newJailOom from hs]
  have hnone : NsjailNames [] := fun _ hmem => absurd hmem List.not_mem_nil
  refine oomInv_unpolled rfl rfl List.nodup_nil hnone hnone ?_ ?_
  · show 0 < 2 ^ 64
    omega
  · intro scan hs
    cases hs

/-! ## The answer is the outcome's -/

theorem execFinish_oomKilled {cg : Cgroupv2.Jail} {files : Dir} {s : JailOom}
    {w : ExecWorld} {j : JailFields} {outputCap : Int} {r : ExecRun}
    (hcg : j.cg = some cg) (hd : w.dirBefore = s.base.dir files) :
    (execFinish w j outputCap r).oomKilled =
      (r.isOOMKill || oomSince r.dirAfter (s.oomBase cg files)) := by
  simp only [execFinish, hcg, hd, JailOom.oomBase, Option.isSome_some, Bool.true_and]

theorem jailOutcomeAgrees {cg : Cgroupv2.Jail} {files : Dir} {s t : JailOom}
    {a : JailOomAct} (h : JailOomMove cg files s a t) :
    JailOutcomeAgrees cg files s a t := by
  intro oomKilled killed w j outputCap r hdone hcg hd hends
  rw [execFinish_oomKilled hcg hd]
  cases h with
  | flagSet hs hf =>
      simp only [Ends, hs] at hends
      cases hdone
      rw [hends, hf, Bool.true_or]
  | flagUnset hs hf => cases hdone
  | @finalCheck scan hs hfin =>
      simp only [Ends, hs] at hends
      obtain ⟨hflag, hafter⟩ := hends
      cases hdone
      rw [hflag, hafter, Bool.false_or, JailOom.since]
  | create | count | remove | begin | baseScan | checkScan | start | startFails | tick
  | pollScan | store | wait => exact hends.elim

/-- Which exec a kill is charged to. In every sequence of execs in a jail with a
cgroup, and for every order of the steps of the execs, their pollers and the
kernel, an exec that is said to have been killed for its memory had a kill since
its baseline, as long as every baseline reads the leaves. -/
theorem oom_attributed_when_read {cg : Cgroupv2.Jail} {files : Dir} {s : JailOom} :
    (∀ a t, (jailOom cg files).step s a = some t → JailOutcomeAgrees cg files s a t) ∧
    ((jailOom cg files).Reach BaselineRead s → Attributed s) :=
  ⟨fun _ _ hs => jailOutcomeAgrees (jailOom_move hs),
    fun hr => (oomInv_of_read hr).attributed⟩

/-! ## A leaf that is left behind -/

def sharedJail : Cgroupv2.Jail := ⟨str "/sys/fs/cgroup/goboxd/goboxd-jail-3", true⟩

def sharedFiles : Dir := ⟨none, .ok [], none⟩

/-- A first exec with one kill in its leaf, which stays. -/
def killedExec : List JailOomAct :=
  [.begin, .scan .list, .start, .create (leafName 4012),
    .count (leafName 4012) ⟨0, 0, 9, 1, 1, 0⟩, .wait, .readFlag, .scan .list,
    .scan .read, .finalCheck]

/-- A second one whose baseline reads that leaf, with a kill in its own. -/
def countedExec : List JailOomAct :=
  [.begin, .scan .list, .scan .read, .start, .create (leafName 4711), .tick,
    .pollScan .list, .count (leafName 4711) ⟨0, 0, 9, 1, 1, 0⟩, .pollScan .read,
    .pollScan .read, .store, .wait, .readFlag]

/-- One whose baseline could not list the directory, with no kill at all. -/
def unlistedExec : List JailOomAct :=
  [.begin, .scan .listFails, .start, .wait, .readFlag, .scan .list, .scan .read,
    .finalCheck]

/-- A simple way for a step to keep to the condition. -/
def baselineCheck (s : JailOom) : JailOomAct → Bool
  | .scan a => a ≠ .listFails
  | .start =>
      match s.stage with
      | .baseline scan => leftover scan.got < 2 ^ 64
      | _ => false
  | _ => true

theorem baselineCheck_sound (s : JailOom) (a : JailOomAct)
    (h : baselineCheck s a = true) : BaselineRead s a := by
  refine ⟨fun ha => ?_, fun ha scan hs => ?_⟩
  · rw [ha] at h
    cases h
  · rw [ha, baselineCheck, hs] at h
    exact of_decide_eq_true h

theorem oom_attributed_when_read_counted :
    ∃ s, (jailOom sharedJail sharedFiles).exec newJailOom (killedExec ++ countedExec) =
      some s ∧ Attributed s ∧ s.stage = .done true true := by
  have hread := Machine.reach_of_execIf baselineCheck_sound (killedExec ++ countedExec)
    (.start (M := jailOom sharedJail sharedFiles) rfl) rfl
  exact ⟨_, rfl, oom_attributed_when_read.2 hread, rfl⟩

theorem kill_of_earlier_exec_charged :
    ¬ ∀ s, (jailOom sharedJail sharedFiles).Reachable s → Attributed s := by
  intro h
  have hr := Machine.reachable_of_exec (M := jailOom sharedJail sharedFiles)
    (killedExec ++ unlistedExec) rfl rfl
  exact absurd (h _ hr true false rfl rfl) (by decide)

end Goboxd.Runner
