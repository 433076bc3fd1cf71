import Goboxd.Lib.Calls
import Goboxd.Lib.Family

/-!
# Caches whose entries grow old

Values are kept under keys for a while. Whoever asks for one takes the lock, is given the value
that is there if it is young enough, and otherwise computes it, with the lock held, and puts it
there with the time of day. Between two steps of a program time passes, and the world that the
computations look at changes.

Two things hold of every run. A program is never told anything that was not so at some time
since shortly before it came: what it looked at itself was so after it came, and what it was
told by the cache was computed by a computation that ended after that time less the lifetime
of an entry. And computations are rare: there is one at a time, and those for one key start no
sooner than a lifetime after the one before has ended.

The lock carries the second fact. While it is held nobody else puts an entry anywhere, so what
was found to be too old is still too old when the new value is put in its place.
-/

namespace TtlCache

section

variable (Q K C : Type) (A : C → Type) (P β σ : Type)

/-- What a program asks for: a value of the cache, or something of the world. -/
inductive Ask where
  | get (q : Q)
  | look (c : C)

variable {Q C} in
def Answer (P : Type) : Ask Q C → Type
  | .get _ => P
  | .look c => A c

abbrev Program : Type := Calls (Ask Q C) (Answer A P) β

/-- Where a program is: about to ask, at the entry with the lock held, or computing. -/
inductive Pc where
  | out (p : Program Q C A P β)
  | holding (q : Q) (next : P → Program Q C A P β)
  | computing (q : Q) (since : ℤ) (left : Calls C A P) (next : P → Program Q C A P β)

structure Asker where
  program : Program Q C A P β
  arrived : ℤ
  pc : Pc Q C A P β

structure Computation where
  query : Q
  started : ℤ
  stored : ℤ
  value : P

/-- `past` has every moment so far, the present one included, and `computed` what was computed,
the last first. -/
structure St where
  now : ℤ
  world : σ
  past : List (ℤ × σ)
  entries : K → Option (ℤ × P)
  holder : Option ℕ
  computed : List (Computation Q P)
  askers : List (Asker Q C A P β)

structure System where
  ttl : ℤ
  key : Q → K
  body : Q → Calls C A P
  look : (c : C) → σ → A c → Prop
  env : σ → σ → Prop

end

variable {Q K C : Type} {A : C → Type} {P β σ : Type} [DecidableEq K]

def St.goTo (s : St Q K C A P β σ) (i : ℕ) (u : Asker Q C A P β) (pc : Pc Q C A P β) :
    St Q K C A P β σ :=
  { s with askers := s.askers.set i { u with pc := pc } }

def St.hold (s : St Q K C A P β σ) (holder : Option ℕ) : St Q K C A P β σ :=
  { s with holder := holder }

/-- A value is put under its key. -/
def St.store (Y : System Q K C A P σ) (s : St Q K C A P β σ) (q : Q) (since : ℤ) (p : P) :
    St Q K C A P β σ :=
  { s with
    entries := Function.update s.entries (Y.key q) (some (s.now, p))
    computed := ⟨q, since, s.now, p⟩ :: s.computed }

theorem St.entries_store_self (Y : System Q K C A P σ) (s : St Q K C A P β σ) (q : Q)
    (since : ℤ) (p : P) : (s.store Y q since p).entries (Y.key q) = some (s.now, p) :=
  Function.update_self ..

theorem St.entries_store_ne (Y : System Q K C A P σ) (s : St Q K C A P β σ) {q : Q} {k : K}
    (since : ℤ) (p : P) (h : k ≠ Y.key q) : (s.store Y q since p).entries k = s.entries k :=
  Function.update_of_ne h ..

/-- The entry is there and young enough. -/
def St.Warm (Y : System Q K C A P σ) (s : St Q K C A P β σ) (q : Q) (p : P) : Prop :=
  ∃ at_, s.entries (Y.key q) = some (at_, p) ∧ s.now - at_ < Y.ttl

omit [DecidableEq K] in
theorem St.not_warm {Y : System Q K C A P σ} {s : St Q K C A P β σ} {q : Q}
    (h : s.entries (Y.key q) = none) (p : P) : ¬ s.Warm Y q p := by
  rintro ⟨at_, hat, -⟩
  rw [h] at hat
  cases hat

/-- A step of program `i`. -/
inductive Move (Y : System Q K C A P σ) (i : ℕ) :
    St Q K C A P β σ → St Q K C A P β σ → Prop
  | look {s : St Q K C A P β σ} {u : Asker Q C A P β} {c : C}
      {next : A c → Program Q C A P β} {x : A c} (hu : s.askers[i]? = some u)
      (hpc : u.pc = .out (.call (.look c) next)) (hlook : Y.look c s.world x) :
      Move Y i s (s.goTo i u (.out (next x)))
  | lock {s : St Q K C A P β σ} {u : Asker Q C A P β} {q : Q}
      {next : P → Program Q C A P β} (hu : s.askers[i]? = some u)
      (hpc : u.pc = .out (.call (.get q) next)) (hfree : s.holder = none) :
      Move Y i s ((s.goTo i u (.holding q next)).hold (some i))
  | hit {s : St Q K C A P β σ} {u : Asker Q C A P β} {q : Q}
      {next : P → Program Q C A P β} {p : P} (hu : s.askers[i]? = some u)
      (hpc : u.pc = .holding q next) (hwarm : s.Warm Y q p) :
      Move Y i s ((s.goTo i u (.out (next p))).hold none)
  | miss {s : St Q K C A P β σ} {u : Asker Q C A P β} {q : Q}
      {next : P → Program Q C A P β} (hu : s.askers[i]? = some u)
      (hpc : u.pc = .holding q next) (hcold : ∀ p, ¬ s.Warm Y q p) :
      Move Y i s (s.goTo i u (.computing q s.now (Y.body q) next))
  | act {s : St Q K C A P β σ} {u : Asker Q C A P β} {q : Q} {since : ℤ} {c : C}
      {after : A c → Calls C A P} {next : P → Program Q C A P β} {x : A c}
      (hu : s.askers[i]? = some u) (hpc : u.pc = .computing q since (.call c after) next)
      (hlook : Y.look c s.world x) :
      Move Y i s (s.goTo i u (.computing q since (after x) next))
  | store {s : St Q K C A P β σ} {u : Asker Q C A P β} {q : Q} {since : ℤ} {p : P}
      {next : P → Program Q C A P β} (hu : s.askers[i]? = some u)
      (hpc : u.pc = .computing q since (.done p) next) :
      Move Y i s (((s.goTo i u (.out (next p))).store Y q since p).hold none)

/-- The world in its present state, and what it was before. -/
def St.at (s : St Q K C A P β σ) (now : ℤ) (world : σ) : St Q K C A P β σ :=
  { s with now := now, world := world, past := (now, world) :: s.past }

/-- One step of anybody. -/
inductive Step (Y : System Q K C A P σ) (s : St Q K C A P β σ) :
    St Q K C A P β σ → Prop
  | tick {now : ℤ} (h : s.now ≤ now) : Step Y s (s.at now s.world)
  | env {w : σ} (h : Y.env s.world w) : Step Y s (s.at s.now w)
  | arrive (p : Program Q C A P β) :
      Step Y s { s with askers := s.askers ++ [⟨p, s.now, .out p⟩] }
  | move (i : ℕ) {t : St Q K C A P β σ} (h : Move Y i s t) : Step Y s t

/-- The states of the runs that start with an empty cache. -/
inductive Reached (Y : System Q K C A P σ) : St Q K C A P β σ → Prop
  | start (now : ℤ) (w : σ) :
      Reached Y ⟨now, w, [(now, w)], fun _ => none, none, [], []⟩
  | next {s t : St Q K C A P β σ} (h : Reached Y s) (hstep : Step Y s t) : Reached Y t

/-! ## What holds in every state -/

/-- What the world answered at some time from `a` to `b`. -/
def Seen (Y : System Q K C A P σ) (s : St Q K C A P β σ) (a b : ℤ) (c : C) (x : A c) : Prop :=
  ∃ t v, (t, v) ∈ s.past ∧ a ≤ t ∧ t ≤ b ∧ Y.look c v x

/-- What a program that came at `a` may have been told. -/
def Told (Y : System Q K C A P σ) (s : St Q K C A P β σ) (a : ℤ) :
    (k : Ask Q C) → Answer A P k → Prop
  | .get q, p => ∃ c ∈ s.computed, Y.key c.query = Y.key q ∧ c.value = p ∧
      (a ≤ c.stored ∨ a - Y.ttl < c.stored)
  | .look c, x => ∃ b, Seen Y s a b c x

/-- A program comes to nothing that it could not come to from its start, on answers that have
all that was seen among them. -/
def Covers {C : Type} {A : C → Type} {α : Type} (seen : (c : C) → A c → Prop)
    (p q : Calls C A α) : Prop :=
  ∀ ok : (c : C) → A c → Prop, (∀ c x, seen c x → ok c x) → ∀ a, q.ComesTo ok a → p.ComesTo ok a

/-- What is left of a program. -/
def Pc.rest : Pc Q C A P β → Program Q C A P β
  | .out p => p
  | .holding q next => .call (.get q) next
  | .computing q _ _ next => .call (.get q) next

def PcOk (Y : System Q K C A P σ) (s : St Q K C A P β σ) (i : ℕ) (a : ℤ) :
    Pc Q C A P β → Prop
  | .out _ => s.holder ≠ some i
  | .holding _ _ => s.holder = some i
  | .computing q since left _ => s.holder = some i ∧ a ≤ since ∧ since ≤ s.now ∧
      Covers (fun c x => ∃ b, Seen Y s since b c x) (Y.body q) left ∧
      ∀ c ∈ s.computed, Y.key c.query = Y.key q → c.stored + Y.ttl ≤ since

structure AskerOk (Y : System Q K C A P σ) (s : St Q K C A P β σ) (i : ℕ)
    (u : Asker Q C A P β) : Prop where
  arrived : u.arrived ≤ s.now
  covers : Covers (Told Y s u.arrived) u.program u.pc.rest
  pc : PcOk Y s i u.arrived u.pc

/-- What is known of a computation. -/
structure ComputationOk (Y : System Q K C A P σ) (s : St Q K C A P β σ)
    (c : Computation Q P) : Prop where
  ended : c.started ≤ c.stored
  past : c.stored ≤ s.now
  comesTo : (Y.body c.query).ComesTo (Seen Y s c.started c.stored) c.value

/-- What is known of the cache. -/
structure CacheOk (Y : System Q K C A P σ) (s : St Q K C A P β σ) : Prop where
  present : (s.now, s.world) ∈ s.past
  past : ∀ m ∈ s.past, m.1 ≤ s.now
  entries : ∀ k at_ p, s.entries k = some (at_, p) → at_ ≤ s.now ∧
    ∃ c ∈ s.computed, Y.key c.query = k ∧ c.stored = at_ ∧ c.value = p
  latest : ∀ c ∈ s.computed, ∃ at_ p, s.entries (Y.key c.query) = some (at_, p) ∧ c.stored ≤ at_
  computed : ∀ c ∈ s.computed, ComputationOk Y s c
  apart : s.computed.Pairwise fun later earlier =>
    Y.key later.query = Y.key earlier.query → earlier.stored + Y.ttl ≤ later.started

structure Inv (Y : System Q K C A P σ) (s : St Q K C A P β σ) : Prop where
  cache : CacheOk Y s
  askers : ∀ i u, s.askers[i]? = some u → AskerOk Y s i u
  holder : ∀ i, s.holder = some i → ∃ u, s.askers[i]? = some u

/-- Nothing that was is forgotten. -/
structure Grows (s t : St Q K C A P β σ) : Prop where
  now : s.now ≤ t.now
  past : ∀ m ∈ s.past, m ∈ t.past
  computed : ∀ c ∈ s.computed, c ∈ t.computed

variable {Y : System Q K C A P σ} {s t : St Q K C A P β σ}

section

omit [DecidableEq K]

theorem Seen.mono {a a' b b' : ℤ} {c : C} {x : A c} (h : Seen Y s a b c x) (hg : Grows s t)
    (ha : a' ≤ a) (hb : b ≤ b') : Seen Y t a' b' c x := by
  obtain ⟨m, v, hm, ham, hmb, hlook⟩ := h
  exact ⟨m, v, hg.past _ hm, Int.le_trans ha ham, Int.le_trans hmb hb, hlook⟩

theorem Told.mono {a : ℤ} {k : Ask Q C} {x : Answer A P k} (h : Told Y s a k x)
    (hg : Grows s t) : Told Y t a k x := by
  cases k with
  | get q =>
      obtain ⟨c, hc, hrest⟩ := h
      exact ⟨c, hg.computed c hc, hrest⟩
  | look c =>
      obtain ⟨b, hb⟩ := h
      exact ⟨b, hb.mono hg (Int.le_refl _) (Int.le_refl _)⟩

theorem Covers.mono {C : Type} {A : C → Type} {α : Type} {seen seen' : (c : C) → A c → Prop}
    {p q : Calls C A α} (h : Covers seen p q) (himp : ∀ c x, seen c x → seen' c x) :
    Covers seen' p q :=
  fun ok hok => h ok fun c x hx => hok c x (himp c x hx)

/-- An answer among those that were seen. -/
theorem Covers.next {C : Type} {A : C → Type} {α : Type} {seen : (c : C) → A c → Prop}
    {p : Calls C A α} {c : C} {next : A c → Calls C A α} (h : Covers seen p (.call c next))
    {x : A c} (hx : seen c x) : Covers seen p (next x) :=
  fun ok hok a ha => h ok hok a ⟨x, hok c x hx, ha⟩

theorem ComputationOk.mono {c : Computation Q P} (h : ComputationOk Y s c) (hg : Grows s t) :
    ComputationOk Y t c :=
  ⟨h.ended, Int.le_trans h.past hg.now,
    h.comesTo.mono fun _ _ hx => hx.mono hg (Int.le_refl _) (Int.le_refl _)⟩

/-- A program that does not go on itself, while another one has the lock or nobody. -/
theorem AskerOk.other {i : ℕ} {u : Asker Q C A P β} (h : AskerOk Y s i u) (hg : Grows s t)
    (hholder : t.holder = some i ↔ s.holder = some i)
    (hcomputed : s.holder = some i → t.computed = s.computed) : AskerOk Y t i u := by
  refine ⟨Int.le_trans h.arrived hg.now, h.covers.mono fun _ _ hx => hx.mono hg, ?_⟩
  have hpc := h.pc
  cases hu : u.pc with
  | out p =>
      rw [hu] at hpc
      exact fun heq => hpc (hholder.mp heq)
  | holding q next =>
      rw [hu] at hpc
      exact hholder.mpr hpc
  | computing q since left next =>
      rw [hu] at hpc
      obtain ⟨hheld, ha, hnow, hcov, hrate⟩ := hpc
      refine ⟨hholder.mpr hheld, ha, Int.le_trans hnow hg.now, hcov.mono ?_, ?_⟩
      · rintro c x ⟨b, hb⟩
        exact ⟨b, hb.mono hg (Int.le_refl _) (Int.le_refl _)⟩
      · rw [hcomputed hheld]
        exact hrate

/-- Time passes, or the world changes. -/
theorem grows_at {now : ℤ} (h : s.now ≤ now) (w : σ) : Grows s (s.at now w) :=
  ⟨h, fun _ hm => List.mem_cons_of_mem _ hm, fun _ hc => hc⟩

theorem CacheOk.at (h : CacheOk Y s) {now : ℤ} (hnow : s.now ≤ now) (w : σ) :
    CacheOk Y (s.at now w) where
  present := List.mem_cons_self
  past := by
    intro m hm
    rcases List.mem_cons.mp hm with rfl | hm
    · exact Int.le_refl _
    · exact Int.le_trans (h.past m hm) hnow
  entries := fun k at_ p hk =>
    ⟨Int.le_trans (h.entries k at_ p hk).1 hnow, (h.entries k at_ p hk).2⟩
  latest := h.latest
  computed := fun c hc => (h.computed c hc).mono (grows_at hnow w)
  apart := h.apart

theorem Inv.at (h : Inv Y s) {now : ℤ} (hnow : s.now ≤ now) (w : σ) : Inv Y (s.at now w) where
  cache := h.cache.at hnow w
  askers := fun i u hu => (h.askers i u hu).other (grows_at hnow w) Iff.rfl fun _ => rfl
  holder := h.holder

theorem Inv.arrive (h : Inv Y s) (p : Program Q C A P β) :
    Inv Y { s with askers := s.askers ++ [⟨p, s.now, .out p⟩] } where
  cache := ⟨h.cache.present, h.cache.past, h.cache.entries, h.cache.latest,
    fun c hc => (h.cache.computed c hc).mono ⟨Int.le_refl _, fun _ hm => hm, fun _ hc => hc⟩,
    h.cache.apart⟩
  askers := by
    intro i u hu
    rcases Family.getElem?_append_cases hu with hold | ⟨k, rfl, hnew⟩
    · exact (h.askers i u hold).other ⟨Int.le_refl _, fun _ hm => hm, fun _ hc => hc⟩ Iff.rfl
        fun _ => rfl
    · have hfree : s.holder ≠ some (s.askers.length + k) := by
        intro hi
        obtain ⟨v, hv⟩ := h.holder _ hi
        have hlt := (List.getElem?_eq_some_iff.mp hv).1
        omega
      rw [List.getElem?_singleton] at hnew
      split at hnew
      · cases hnew
        exact ⟨Int.le_refl _, fun _ _ _ ha => ha, hfree⟩
      · cases hnew
  holder := by
    intro i hi
    obtain ⟨u, hu⟩ := h.holder i hi
    exact ⟨u, by rw [List.getElem?_append_left (List.getElem?_eq_some_iff.mp hu).1]; exact hu⟩

/-- What a move of program `i` leaves to show: the other programs see nothing of it but more
that was computed, and the lock is not taken from them. -/
theorem Inv.moved (h : Inv Y s) {i : ℕ} {u : Asker Q C A P β} {pc : Pc Q C A P β}
    (hu : s.askers[i]? = some u) (hcache : CacheOk Y t)
    (haskers : t.askers = s.askers.set i { u with pc := pc }) (hg : Grows s t)
    (hholder : ∀ j, j ≠ i → (t.holder = some j ↔ s.holder = some j))
    (hcomputed : ∀ j, j ≠ i → s.holder = some j → t.computed = s.computed)
    (hown : AskerOk Y t i { u with pc := pc }) : Inv Y t where
  cache := hcache
  askers := by
    intro j v hv
    rw [haskers] at hv
    rcases Family.getElem?_set_cases hv with ⟨rfl, rfl⟩ | ⟨hne, hv⟩
    · exact hown
    · exact (h.askers j v hv).other hg (hholder j hne) (hcomputed j hne)
  holder := by
    intro j hj
    rw [haskers]
    by_cases hji : j = i
    · rw [hji]
      exact ⟨_, Family.getElem?_set_self hu⟩
    · rw [List.getElem?_set_ne (Ne.symm hji)]
      exact h.holder j ((hholder j hji).mp hj)

theorem grows_same (hnow : t.now = s.now) (hpast : t.past = s.past)
    (hcomputed : t.computed = s.computed) : Grows s t :=
  ⟨Int.le_of_eq hnow.symm, fun _ hm => hpast ▸ hm, fun _ hc => hcomputed ▸ hc⟩

/-- The cache of a state that differs in the programs and in who has the lock. -/
theorem CacheOk.same (h : CacheOk Y s) (askers : List (Asker Q C A P β)) (holder : Option ℕ) :
    CacheOk Y { s with askers := askers, holder := holder } :=
  ⟨h.present, h.past, h.entries, h.latest,
    fun c hc => (h.computed c hc).mono (grows_same rfl rfl rfl), h.apart⟩

end

/-- A new value is put where the old one, if there was one, had grown old. -/
theorem CacheOk.store (h : CacheOk Y s) {q : Q} {since : ℤ} {p : P} (hsince : since ≤ s.now)
    (hcomesTo : (Y.body q).ComesTo (fun c x => ∃ b, Seen Y s since b c x) p)
    (hrate : ∀ c ∈ s.computed, Y.key c.query = Y.key q → c.stored + Y.ttl ≤ since) :
    CacheOk Y (s.store Y q since p) := by
  have hg : Grows s (s.store Y q since p) :=
    ⟨Int.le_refl _, fun _ hm => hm, fun _ hc => List.mem_cons_of_mem _ hc⟩
  refine ⟨h.present, h.past, fun k at_ v hk => ?_, fun c hc => ?_, fun c hc => ?_, ?_⟩
  · by_cases hkey : k = Y.key q
    · rw [hkey, St.entries_store_self] at hk
      cases hk
      exact ⟨Int.le_refl _, _, List.mem_cons_self, hkey.symm, rfl, rfl⟩
    · rw [St.entries_store_ne _ _ _ _ hkey] at hk
      obtain ⟨hle, c, hc, hrest⟩ := h.entries k at_ v hk
      exact ⟨hle, c, List.mem_cons_of_mem _ hc, hrest⟩
  · by_cases hkey : Y.key c.query = Y.key q
    · refine ⟨s.now, p, ?_, ?_⟩
      · rw [hkey, St.entries_store_self]
      · rcases List.mem_cons.mp hc with rfl | hc
        · exact Int.le_refl _
        · exact (h.computed c hc).past
    · rcases List.mem_cons.mp hc with rfl | hc
      · exact absurd rfl hkey
      · obtain ⟨at_, v, hat, hle⟩ := h.latest c hc
        exact ⟨at_, v, (St.entries_store_ne _ _ _ _ hkey).trans hat, hle⟩
  · rcases List.mem_cons.mp hc with rfl | hc
    · refine ⟨hsince, Int.le_refl _, hcomesTo.mono ?_⟩
      rintro c x ⟨b, m, v, hm, ham, -, hlook⟩
      exact ⟨m, v, hm, ham, h.past _ hm, hlook⟩
    · exact (h.computed c hc).mono hg
  · exact List.pairwise_cons.mpr ⟨fun c hc hkey => hrate c hc hkey.symm, h.apart⟩

omit [DecidableEq K] in
theorem ne_holder {i j : ℕ} (hi : s.holder = some i) (hne : j ≠ i) : s.holder ≠ some j :=
  fun hj => hne (Option.some.inj (hj.symm.trans hi))

theorem Inv.move (h : Inv Y s) {i : ℕ} (hmove : Move Y i s t) : Inv Y t := by
  cases hmove with
  | @look u c next x hu hpc hlook =>
      obtain ⟨ha, hcov, hpcok⟩ := h.askers i u hu
      rw [hpc] at hcov hpcok
      refine h.moved hu (h.cache.same _ _) rfl (grows_same rfl rfl rfl) (fun _ _ => Iff.rfl)
        (fun _ _ _ => rfl) ⟨ha, ?_, hpcok⟩
      exact hcov.next ⟨s.now, s.now, s.world, h.cache.present, ha, Int.le_refl _, hlook⟩
  | @lock u q next hu hpc hfree =>
      obtain ⟨ha, hcov, hpcok⟩ := h.askers i u hu
      rw [hpc] at hcov
      refine h.moved hu (h.cache.same _ _) rfl (grows_same rfl rfl rfl) (fun j hj => ?_)
        (fun _ _ _ => rfl) ⟨ha, hcov, rfl⟩
      rw [hfree]
      exact ⟨fun heq => absurd (Option.some.inj heq).symm hj, fun heq => by cases heq⟩
  | @hit u q next p hu hpc hwarm =>
      obtain ⟨ha, hcov, hpcok⟩ := h.askers i u hu
      rw [hpc] at hcov hpcok
      obtain ⟨at_, hat, hyoung⟩ := hwarm
      obtain ⟨-, c, hc, hkey, hstored, hvalue⟩ := h.cache.entries _ _ _ hat
      refine h.moved hu (h.cache.same _ _) rfl (grows_same rfl rfl rfl) (fun j hj => ?_)
        (fun _ _ _ => rfl) ⟨ha, ?_, fun heq => by cases heq⟩
      · exact ⟨fun heq => (by cases heq), fun heq => absurd heq (ne_holder hpcok hj)⟩
      · refine Covers.next (x := p) hcov ⟨c, hc, hkey, hvalue, .inr ?_⟩
        omega
  | @miss u q next hu hpc hcold =>
      obtain ⟨ha, hcov, hpcok⟩ := h.askers i u hu
      rw [hpc] at hcov hpcok
      refine h.moved hu (h.cache.same _ _) rfl (grows_same rfl rfl rfl) (fun _ _ => Iff.rfl)
        (fun _ _ _ => rfl) ⟨ha, hcov, hpcok, ha, Int.le_refl _, fun _ _ _ hleft => hleft, ?_⟩
      intro c hc hkey
      obtain ⟨at_, v, hat, hle⟩ := h.cache.latest c hc
      have hold : ¬ s.now - at_ < Y.ttl := fun hyoung =>
        hcold v ⟨at_, hkey ▸ hat, hyoung⟩
      omega
  | @act u q since c after next x hu hpc hlook =>
      obtain ⟨ha, hcov, hpcok⟩ := h.askers i u hu
      rw [hpc] at hcov hpcok
      obtain ⟨hheld, hsince, hnow, hbody, hrate⟩ := hpcok
      refine h.moved hu (h.cache.same _ _) rfl (grows_same rfl rfl rfl) (fun _ _ => Iff.rfl)
        (fun _ _ _ => rfl) ⟨ha, hcov, hheld, hsince, hnow, ?_, hrate⟩
      exact hbody.next ⟨s.now, s.now, s.world, h.cache.present, hnow, Int.le_refl _, hlook⟩
  | @store u q since p next hu hpc =>
      obtain ⟨ha, hcov, hpcok⟩ := h.askers i u hu
      rw [hpc] at hcov hpcok
      obtain ⟨hheld, hsince, hnow, hbody, hrate⟩ := hpcok
      have hcache := (h.cache.same (s.goTo i u (.out (next p))).askers s.holder).store hnow
        (hbody _ (fun _ _ hx => hx) p rfl) hrate
      have hg : Grows s (((s.goTo i u (.out (next p))).store Y q since p).hold none) :=
        ⟨Int.le_refl _, fun _ hm => hm, fun _ hc => List.mem_cons_of_mem _ hc⟩
      refine h.moved hu (hcache.same _ _) rfl hg (fun j hj => ?_)
        (fun j hj heq => absurd heq (ne_holder hheld hj)) ⟨ha, ?_, fun heq => by cases heq⟩
      · exact ⟨fun heq => (by cases heq), fun heq => absurd heq (ne_holder hheld hj)⟩
      · refine Covers.next (x := p) (hcov.mono fun _ _ hx => hx.mono hg) ?_
        exact ⟨_, List.mem_cons_self, rfl, rfl, .inl ha⟩

theorem Inv.step (h : Inv Y s) (hstep : Step Y s t) : Inv Y t := by
  cases hstep with
  | tick hnow => exact h.at hnow s.world
  | env hw => exact h.at (Int.le_refl _) _
  | arrive p => exact h.arrive p
  | move i hmove => exact h.move hmove

theorem Reached.inv (h : Reached Y s) : Inv Y s := by
  induction h with
  | start now w =>
      refine ⟨⟨List.mem_singleton_self _, fun m hm => ?_, fun _ _ _ hk => (by cases hk),
        fun _ hc => (by cases hc), fun _ hc => (by cases hc), List.Pairwise.nil⟩,
        fun i u hu => (by cases hu), fun i hi => (by cases hi)⟩
      obtain rfl := List.mem_singleton.mp hm
      exact Int.le_refl _
  | next _ hstep ih => exact ih.step hstep

/-! ## What programs are told -/

/-- A program that is done has come to what it may come to on answers that were so at some time
since it came, less the lifetime of an entry where the cache was asked. -/
theorem Reached.told (h : Reached Y s) {u : Asker Q C A P β}
    (hu : u ∈ s.askers) {b : β} (hpc : u.pc = .out (.done b)) :
    u.program.ComesTo (Told Y s u.arrived) b := by
  obtain ⟨i, hi⟩ := List.mem_iff_getElem?.mp hu
  have hcov := (h.inv.askers i u hi).covers
  rw [hpc] at hcov
  exact hcov _ (fun _ _ hx => hx) b rfl

/-! ## How often something is computed -/

/-- A program in a computation. -/
def Pc.Computing : Pc Q C A P β → Prop
  | .computing _ _ _ _ => True
  | _ => False

/-- Nobody computes while another one does. -/
theorem Reached.alone (h : Reached Y s) {i j : ℕ} {u v : Asker Q C A P β}
    (hu : s.askers[i]? = some u) (hv : s.askers[j]? = some v) (hcu : u.pc.Computing)
    (hcv : v.pc.Computing) : i = j := by
  have hholder : ∀ {k : ℕ} {w : Asker Q C A P β}, s.askers[k]? = some w → w.pc.Computing →
      s.holder = some k := by
    intro k w hw hc
    have hpc := (h.inv.askers k w hw).pc
    cases hp : w.pc with
    | computing q since left next => rw [hp] at hpc; exact hpc.1
    | out p => rw [hp] at hc; exact hc.elim
    | holding q next => rw [hp] at hc; exact hc.elim
  exact Option.some.inj ((hholder hu hcu).symm.trans (hholder hv hcv))

/-- A program in a computation for `k` that began from `a` to `b`. -/
def Pc.beganIn (Y : System Q K C A P σ) (k : K) (a b : ℤ) : Pc Q C A P β → Bool
  | .computing q since _ _ => Y.key q = k ∧ a ≤ since ∧ since ≤ b
  | _ => false

/-- How many computations for `k` began from `a` to `b`: those that are over, and the one
that goes on. -/
def St.began (Y : System Q K C A P σ) (s : St Q K C A P β σ) (k : K) (a b : ℤ) : ℕ :=
  (s.computed.countP fun c => Y.key c.query = k ∧ a ≤ c.started ∧ c.started ≤ b) +
    s.askers.countP fun u => u.pc.beganIn Y k a b

theorem Pc.beganIn_iff {k : K} {a b : ℤ} {pc : Pc Q C A P β} :
    pc.beganIn Y k a b = true ↔ ∃ q since left next, pc = .computing q since left next ∧
      Y.key q = k ∧ a ≤ since ∧ since ≤ b := by
  cases pc with
  | computing q since left next =>
      rw [Pc.beganIn, decide_eq_true_iff]
      exact ⟨fun h => ⟨q, since, left, next, rfl, h⟩, by
        intro h
        obtain ⟨q', since', left', next', heq, hin⟩ := h
        cases heq
        exact hin⟩
  | out p => simp [Pc.beganIn]
  | holding q next => simp [Pc.beganIn]

omit [DecidableEq K] in
theorem countP_le_one {α : Type} {p : α → Bool} : ∀ {l : List α},
    (∀ (i j : ℕ) (x y : α), l[i]? = some x → l[j]? = some y → p x = true → p y = true → i = j) →
    l.countP p ≤ 1 := by
  intro l
  induction l with
  | nil => intro _; simp
  | cons x xs ih =>
      intro hone
      cases hx : p x with
      | false =>
          rw [List.countP_cons_of_neg (by simp [hx])]
          refine ih fun i j y z hy hz hpy hpz => ?_
          have heq := hone (i + 1) (j + 1) y z hy hz hpy hpz
          omega
      | true =>
          -- a second one would stand at another place
          have hnone : xs.countP p = 0 := by
            refine List.countP_eq_zero.mpr fun y hy hpy => ?_
            obtain ⟨j, hj⟩ := List.mem_iff_getElem?.mp hy
            have heq := hone 0 (j + 1) x y rfl hj hx hpy
            omega
          rw [List.countP_cons_of_pos hx, hnone]

/-- Intervals that lie apart, the last first, fit into the time from `a` on. -/
theorem length_of_apart {ttl a : ℤ} : ∀ {ts : List (ℤ × ℤ)} {t : ℤ × ℤ},
    ((t :: ts).Pairwise fun later earlier => earlier.2 + ttl ≤ later.1) →
    (∀ d ∈ t :: ts, a ≤ d.1 ∧ d.1 ≤ d.2) → ts.length * ttl ≤ t.1 - a := by
  intro ts
  induction ts with
  | nil =>
      intro t _ hle
      have ht := (hle t List.mem_cons_self).1
      simp only [List.length_nil, Int.natCast_zero, Int.zero_mul]
      omega
  | cons d ds ih =>
      intro t hpair hle
      obtain ⟨ht, hds⟩ := List.pairwise_cons.mp hpair
      have hd := ht d List.mem_cons_self
      have hlater := ih hds fun e he => hle e (List.mem_cons_of_mem _ he)
      have hended := (hle d (List.mem_cons_of_mem _ List.mem_cons_self)).2
      rw [List.length_cons, Int.natCast_succ, Int.add_mul, Int.one_mul]
      omega

/-- So those that begin from `a` to `b` are few. -/
theorem length_of_window {ttl a b : ℤ} (httl : 0 < ttl) (hab : a ≤ b) {ts : List (ℤ × ℤ)}
    (hpair : ts.Pairwise fun later earlier => earlier.2 + ttl ≤ later.1)
    (hle : ∀ d ∈ ts, a ≤ d.1 ∧ d.1 ≤ b ∧ d.1 ≤ d.2) : ts.length * ttl ≤ (b - a) + ttl := by
  cases ts with
  | nil =>
      simp only [List.length_nil, Int.natCast_zero, Int.zero_mul]
      omega
  | cons t ts =>
      have hlen := length_of_apart hpair fun d hd => ⟨(hle d hd).1, (hle d hd).2.2⟩
      have ht := (hle t List.mem_cons_self).2.1
      rw [List.length_cons, Int.natCast_succ, Int.add_mul, Int.one_mul]
      omega

/-- The computations for `k` that are over and began from `a` to `b`, as intervals. -/
def St.over (Y : System Q K C A P σ) (s : St Q K C A P β σ) (k : K) (a b : ℤ) : List (ℤ × ℤ) :=
  (s.computed.filter fun c => Y.key c.query = k ∧ a ≤ c.started ∧ c.started ≤ b).map
    fun c => (c.started, c.stored)

theorem St.mem_over {k : K} {a b : ℤ} {d : ℤ × ℤ} : d ∈ s.over Y k a b ↔
    ∃ c ∈ s.computed, (Y.key c.query = k ∧ a ≤ c.started ∧ c.started ≤ b) ∧
      (c.started, c.stored) = d := by
  simp only [St.over, List.mem_map, List.mem_filter, decide_eq_true_eq, and_assoc]

theorem CacheOk.over_apart (h : CacheOk Y s) (k : K) (a b : ℤ) :
    (s.over Y k a b).Pairwise fun later earlier => earlier.2 + Y.ttl ≤ later.1 := by
  refine List.pairwise_map.mpr ((h.apart.filter _).imp_of_mem fun {c d} hc hd hcd => ?_)
  have hkc := (decide_eq_true_iff.mp (List.mem_filter.mp hc).2).1
  have hkd := (decide_eq_true_iff.mp (List.mem_filter.mp hd).2).1
  exact hcd (hkc.trans hkd.symm)

theorem CacheOk.over_le (h : CacheOk Y s) {k : K} {a b : ℤ} :
    ∀ d ∈ s.over Y k a b, a ≤ d.1 ∧ d.1 ≤ b ∧ d.1 ≤ d.2 := by
  intro d hd
  obtain ⟨c, hc, ⟨-, ha, hb⟩, rfl⟩ := St.mem_over.mp hd
  exact ⟨ha, hb, (h.computed c hc).ended⟩

/-- In any window, one computation for a key begins and one more for each lifetime that it
lasts. The one that goes on began a lifetime after the others were over. -/
theorem Reached.rate (httl : 0 < Y.ttl) (h : Reached Y s) (k : K) {a b : ℤ} (hab : a ≤ b) :
    s.began Y k a b * Y.ttl ≤ (b - a) + Y.ttl := by
  have hcache := h.inv.cache
  have hover : s.computed.countP (fun c => Y.key c.query = k ∧ a ≤ c.started ∧ c.started ≤ b) =
      (s.over Y k a b).length := by
    rw [List.countP_eq_length_filter, St.over, List.length_map]
  have hone : s.askers.countP (fun u => u.pc.beganIn Y k a b) ≤ 1 := by
    refine countP_le_one fun i j u v hu hv hbu hbv => ?_
    obtain ⟨_, _, _, _, hcu, -⟩ := Pc.beganIn_iff.mp hbu
    obtain ⟨_, _, _, _, hcv, -⟩ := Pc.beganIn_iff.mp hbv
    exact h.alone hu hv (by rw [hcu]; trivial) (by rw [hcv]; trivial)
  rw [St.began, hover]
  rcases Nat.le_one_iff_eq_zero_or_eq_one.mp hone with hnone | hsome
  · rw [hnone]
    exact length_of_window httl hab (hcache.over_apart k a b) hcache.over_le
  · obtain ⟨u, hu, hbegan⟩ := List.countP_pos_iff.mp (hsome ▸ Nat.one_pos)
    obtain ⟨i, hi⟩ := List.mem_iff_getElem?.mp hu
    obtain ⟨q, since, left, next, hpc, hkey, ha, hb⟩ := Pc.beganIn_iff.mp hbegan
    have hok := (h.inv.askers i u hi).pc
    rw [hpc] at hok
    obtain ⟨-, -, hnow, -, hrate⟩ := hok
    rw [hsome]
    suffices hlen : ((since, s.now) :: s.over Y k a b).length * Y.ttl ≤ (b - a) + Y.ttl from hlen
    refine length_of_window httl hab ?_ ?_
    · refine List.pairwise_cons.mpr ⟨fun d hd => ?_, hcache.over_apart k a b⟩
      obtain ⟨c, hc, ⟨hkc, -⟩, rfl⟩ := St.mem_over.mp hd
      exact hrate c hc (hkc.trans hkey.symm)
    · intro d hd
      rcases List.mem_cons.mp hd with rfl | hd
      · exact ⟨ha, hb, hnow⟩
      · exact hcache.over_le d hd

/-! ## Nobody waits in vain -/

/-- A program that has more to do. -/
def Pc.Going : Pc Q C A P β → Prop
  | .out (.call _ _) => True
  | .out _ => False
  | _ => True

def Pc.LeftEnds : Pc Q C A P β → Prop
  | .computing _ _ left _ => left.Ends
  | _ => True

/-- If the computations end from their start, they end from where they are. -/
theorem Reached.leftEnds (hbody : ∀ q, (Y.body q).Ends) (h : Reached Y s) :
    ∀ u ∈ s.askers, u.pc.LeftEnds := by
  induction h with
  | start now w => exact fun u hu => by cases hu
  | @next s t _ hstep ih =>
      have hmoved : ∀ {i : ℕ} {u : Asker Q C A P β} {pc : Pc Q C A P β}, pc.LeftEnds →
          ∀ v ∈ s.askers.set i { u with pc := pc }, v.pc.LeftEnds := by
        intro i u pc hpc v hv
        rcases List.mem_or_eq_of_mem_set hv with hmem | rfl
        · exact ih v hmem
        · exact hpc
      cases hstep with
      | tick _ => exact ih
      | env _ => exact ih
      | arrive p =>
          intro u hu
          rcases List.mem_append.mp hu with hmem | hmem
          · exact ih u hmem
          · rw [List.mem_singleton.mp hmem]
            trivial
      | move i hmove =>
          cases hmove with
          | look _ _ _ => exact hmoved trivial
          | lock _ _ _ => exact hmoved trivial
          | hit _ _ _ => exact hmoved trivial
          | @miss u q next _ _ _ => exact hmoved (hbody q)
          | @act u q since c after next x hu hpc _ =>
              have hold := ih u (List.mem_of_getElem? hu)
              rw [hpc] at hold
              exact hmoved (hold x)
          | store _ _ => exact hmoved trivial

/-- As long as a program has more to do, some program has a step to make. -/
theorem Reached.goes (hlook : ∀ c v, ∃ x, Y.look c v x)
    (hbody : ∀ q, (Y.body q).Ends) (h : Reached Y s) {i : ℕ} {u : Asker Q C A P β}
    (hu : s.askers[i]? = some u) (hgoing : u.pc.Going) : ∃ j t, Move Y j s t := by
  have hinv := h.inv
  have hheld : ∀ {j : ℕ} {v : Asker Q C A P β}, s.askers[j]? = some v →
      s.holder = some j → ∃ t, Move Y j s t := by
    intro j v hv hj
    have hpc := (hinv.askers j v hv).pc
    have hleft := h.leftEnds hbody v (List.mem_of_getElem? hv)
    cases hp : v.pc with
    | out p => rw [hp] at hpc; exact absurd hj hpc
    | holding q next =>
        by_cases hwarm : ∃ p, s.Warm Y q p
        · exact ⟨_, .hit hv hp hwarm.choose_spec⟩
        · exact ⟨_, .miss hv hp (not_exists.mp hwarm)⟩
    | computing q since left next =>
        rw [hp] at hleft
        cases left with
        | done p => exact ⟨_, .store hv hp⟩
        | call c after =>
            obtain ⟨x, hx⟩ := hlook c s.world
            exact ⟨_, .act hv hp hx⟩
        | endless => exact hleft.elim
  cases hholder : s.holder with
  | some j =>
      obtain ⟨v, hv⟩ := hinv.holder j hholder
      exact ⟨j, hheld hv hholder⟩
  | none =>
      have hpcok := (hinv.askers i u hu).pc
      cases hpc : u.pc with
      | out p =>
          cases p with
          | done b => rw [hpc] at hgoing; exact hgoing.elim
          | endless => rw [hpc] at hgoing; exact hgoing.elim
          | call k next =>
              cases k with
              | get q => exact ⟨i, _, .lock hu hpc hholder⟩
              | look c =>
                  obtain ⟨x, hx⟩ := hlook c s.world
                  exact ⟨i, _, .look hu hpc hx⟩
      | holding q next => rw [hpc, PcOk, hholder] at hpcok; cases hpcok
      | computing q since left next => rw [hpc, PcOk, hholder] at hpcok; cases hpcok.1

end TtlCache
