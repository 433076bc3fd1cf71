import Goboxd.Lib.Calls
import Goboxd.Lib.Family

/-!
# Values that are computed once

Programs that share values, each computed when somebody first asks for it. The first to ask
makes the calls of the computation itself, whoever asks meanwhile waits, and from then on the
value is there. Computations of different values may be under way at the same time, and their
calls fall between each other's and between those of the rest of the world.

Two facts make this as good as values that were there from the start. At most one program is
in the computation of a value, and it leaves it with the value only; so all that ask are told
the same, and a program comes to what it comes to when each value is looked up. And what every
run of a computation comes to is what it comes to here, if the computations leave each other
alone. That takes a guarantee for each of them about its own calls, which is among the things
that the computations of the other values put up with.
-/

namespace Once

/-- What has become of a shared value: program `i` may be computing it. -/
inductive Cell (α : Type) where
  | fresh
  | busy (i : ℕ)
  | done (a : α)

section

variable (K C : Type) (A : C → Type) (α β σ : Type)

/-- Where a program is: about to ask or at its end, or in the computation of a value that it
goes on with. -/
inductive Pc where
  | out (p : Calls K (fun _ => α) β)
  | inside (k : K) (q : Calls C A α) (next : α → Calls K (fun _ => α) β)

/-- A program that asks for values, from its start and as far as it has come. -/
structure Asker where
  program : Calls K (fun _ => α) β
  pc : Pc K C A α β

structure St where
  world : σ
  cell : K → Cell α
  askers : List (Asker K C A α β)

/-- How the values are computed, what the calls of a computation do, and what else happens. -/
structure System where
  body : K → Calls C A α
  act : (c : C) → σ → A c → σ → Prop
  env : σ → σ → Prop

end

variable {K C : Type} {A : C → Type} {α β σ : Type} [DecidableEq K]

def St.goTo (s : St K C A α β σ) (i : ℕ) (u : Asker K C A α β) (pc : Pc K C A α β) :
    St K C A α β σ :=
  { s with askers := s.askers.set i { u with pc := pc } }

def St.fill (s : St K C A α β σ) (k : K) (c : Cell α) : St K C A α β σ :=
  { s with cell := Function.update s.cell k c }

@[simp] theorem St.cell_fill_self (s : St K C A α β σ) (k : K) (c : Cell α) :
    (s.fill k c).cell k = c := Function.update_self ..

theorem St.cell_fill_ne (s : St K C A α β σ) {k l : K} (c : Cell α) (h : l ≠ k) :
    (s.fill k c).cell l = s.cell l := Function.update_of_ne h ..

/-- A step of program `i`. -/
inductive Move (Y : System K C A α σ) (i : ℕ) : St K C A α β σ → St K C A α β σ → Prop
  | first {s : St K C A α β σ} {u : Asker K C A α β} {k : K}
      {next : α → Calls K (fun _ => α) β} (hu : s.askers[i]? = some u)
      (hpc : u.pc = .out (.call k next)) (hk : s.cell k = .fresh) :
      Move Y i s ((s.goTo i u (.inside k (Y.body k) next)).fill k (.busy i))
  | act {s : St K C A α β σ} {u : Asker K C A α β} {k : K} {c : C}
      {after : A c → Calls C A α} {next : α → Calls K (fun _ => α) β} {x : A c} {w : σ}
      (hu : s.askers[i]? = some u) (hpc : u.pc = .inside k (.call c after) next)
      (hact : Y.act c s.world x w) :
      Move Y i s { s.goTo i u (.inside k (after x) next) with world := w }
  | leave {s : St K C A α β σ} {u : Asker K C A α β} {k : K} {a : α}
      {next : α → Calls K (fun _ => α) β} (hu : s.askers[i]? = some u)
      (hpc : u.pc = .inside k (.done a) next) :
      Move Y i s ((s.goTo i u (.out (next a))).fill k (.done a))
  | known {s : St K C A α β σ} {u : Asker K C A α β} {k : K} {a : α}
      {next : α → Calls K (fun _ => α) β} (hu : s.askers[i]? = some u)
      (hpc : u.pc = .out (.call k next)) (hk : s.cell k = .done a) :
      Move Y i s (s.goTo i u (.out (next a)))

/-- One step of anybody. -/
inductive Step (Y : System K C A α σ) (s : St K C A α β σ) : St K C A α β σ → Prop
  | env {w : σ} (h : Y.env s.world w) : Step Y s { s with world := w }
  | start (p : Calls K (fun _ => α) β) :
      Step Y s { s with askers := s.askers ++ [⟨p, .out p⟩] }
  | move (i : ℕ) {t : St K C A α β σ} (h : Move Y i s t) : Step Y s t

/-- The states of the runs that start in `w`, with no value asked for. -/
inductive Reached (Y : System K C A α σ) (w : σ) : St K C A α β σ → Prop
  | start : Reached Y w ⟨w, fun _ => .fresh, []⟩
  | next {s t : St K C A α β σ} (h : Reached Y w s) (hstep : Step Y s t) : Reached Y w t

/-- The computations leave each other alone: `others k` is what the computation of `k` puts
up with, before it starts as well, and `G k` is what it guarantees of its own calls. -/
structure Sound (Y : System K C A α σ) (others G : K → σ → σ → Prop) (I : K → σ → Prop)
    (Q : K → α → σ → Prop) : Prop where
  env : ∀ {k s t}, Y.env s t → others k s t
  apart : ∀ {k l s t}, k ≠ l → G k s t → others l s t
  idle : ∀ {k s t}, others k s t → I k s → I k t
  body : ∀ {k s}, I k s → (Y.body k).Guarantees ⟨others k, Y.act⟩ (G k) (Q k) s

/-! ## What holds in every state -/

/-- What is known of a value in each state of it. -/
def About (Y : System K C A α σ) (others G : K → σ → σ → Prop) (I : K → σ → Prop)
    (Q : K → α → σ → Prop) (s : St K C A α β σ) (k : K) : Cell α → Prop
  | .fresh => I k s.world
  | .busy i => ∃ u q next, s.askers[i]? = some u ∧ u.pc = .inside k q next ∧
      q.Guarantees ⟨others k, Y.act⟩ (G k) (Q k) s.world
  | .done a => (Calls.done a).Guarantees ⟨others k, Y.act⟩ (G k) (Q k) s.world

structure Inv (Y : System K C A α σ) (others G : K → σ → σ → Prop) (I : K → σ → Prop)
    (Q : K → α → σ → Prop) (s : St K C A α β σ) : Prop where
  about : ∀ k, About Y others G I Q s k (s.cell k)
  inside : ∀ {i : ℕ} {u : Asker K C A α β} {k q next}, s.askers[i]? = some u →
    u.pc = .inside k q next → s.cell k = .busy i

variable {Y : System K C A α σ} {others G : K → σ → σ → Prop} {I : K → σ → Prop}
  {Q : K → α → σ → Prop} {s t : St K C A α β σ} {w : σ}

omit [DecidableEq K] in
/-- A step of the world that a value puts up with, and that leaves the program that computes
it where it is. -/
theorem About.after (hY : Sound Y others G I Q) {k : K} {c : Cell α}
    (h : About Y others G I Q s k c)
    (hworld : t.world = s.world ∨ others k s.world t.world)
    (haskers : ∀ i u q next, c = .busy i → s.askers[i]? = some u → u.pc = .inside k q next →
      t.askers[i]? = some u) :
    About Y others G I Q t k c := by
  have hbetween : Calls.Setting.Between ⟨others k, Y.act⟩ s.world t.world := by
    rcases hworld with heq | hothers
    · rw [heq]
      exact .refl
    · exact .single hothers
  cases c with
  | fresh =>
      rcases hworld with heq | hothers
      · rw [About, heq]
        exact h
      · exact hY.idle hothers h
  | busy i =>
      obtain ⟨u, q, next, hu, hpc, hq⟩ := h
      exact ⟨u, q, next, haskers i u q next rfl hu hpc, hpc, hq.after hbetween⟩
  | done a => exact Calls.Guarantees.after h hbetween

omit [DecidableEq K] in
/-- Another program than the one that goes on. -/
theorem getElem?_goTo {i j : ℕ} {u v : Asker K C A α β} (pc : Pc K C A α β) (hne : j ≠ i)
    (hv : s.askers[j]? = some v) : (s.goTo i u pc).askers[j]? = some v := by
  rw [St.goTo, List.getElem?_set_ne hne.symm]
  exact hv

omit [DecidableEq K] in
theorem goTo_cases {i j : ℕ} {u v : Asker K C A α β} {pc : Pc K C A α β}
    (hv : (s.goTo i u pc).askers[j]? = some v) :
    (j = i ∧ v.pc = pc) ∨ (j ≠ i ∧ s.askers[j]? = some v) := by
  rcases Family.getElem?_set_cases hv with ⟨hj, rfl⟩ | h
  · exact .inl ⟨hj, rfl⟩
  · exact .inr h

omit [DecidableEq K] in
theorem ne_of_pc {i j : ℕ} {u v : Asker K C A α β} (hu : s.askers[i]? = some u)
    (hv : s.askers[j]? = some v) (hpc : v.pc ≠ u.pc) : j ≠ i := by
  rintro rfl
  exact hpc (congrArg Asker.pc (Option.some.inj (hv.symm.trans hu)))

omit [DecidableEq K] in
/-- What is known of the computation that a program is in. -/
theorem Inv.computing (h : Inv Y others G I Q s) {i : ℕ} {u : Asker K C A α β} {k : K}
    {q : Calls C A α} {next : α → Calls K (fun _ => α) β} (hu : s.askers[i]? = some u)
    (hpc : u.pc = .inside k q next) :
    q.Guarantees ⟨others k, Y.act⟩ (G k) (Q k) s.world := by
  have habout := h.about k
  rw [h.inside hu hpc] at habout
  obtain ⟨v, q', next', hv, hpc', hq⟩ := habout
  obtain rfl := Option.some.inj (hv.symm.trans hu)
  rw [hpc] at hpc'
  cases hpc'
  exact hq

theorem Inv.move (hY : Sound Y others G I Q) (h : Inv Y others G I Q s) {i : ℕ}
    (hmove : Move Y i s t) : Inv Y others G I Q t := by
  cases hmove with
  | @first u k next hu hpc hk =>
      refine ⟨fun l => ?_, fun {j v l q next'} hv hpcv => ?_⟩
      · by_cases hlk : l = k
        · subst hlk
          have hI := h.about l
          rw [hk] at hI
          rw [St.cell_fill_self]
          exact ⟨_, _, next, Family.getElem?_set_self hu, rfl, hY.body hI⟩
        · rw [St.cell_fill_ne _ _ hlk]
          refine (h.about l).after hY (.inl rfl) fun j v q next' _ hv hpcv => ?_
          exact getElem?_goTo _ (ne_of_pc hu hv (by simp [hpcv, hpc])) hv
      · rcases goTo_cases hv with ⟨rfl, heq⟩ | ⟨hne, hold⟩
        · rw [heq] at hpcv
          cases hpcv
          exact St.cell_fill_self ..
        · have hl := h.inside hold hpcv
          have hlk : l ≠ k := by
            rintro rfl
            rw [hk] at hl
            cases hl
          exact (St.cell_fill_ne _ _ hlk).trans hl
  | @act u k c after next x w hu hpc hact =>
      obtain ⟨hG, hq⟩ := h.computing hu hpc _ .refl x w hact
      refine ⟨fun l => ?_, fun {j v l q next'} hv hpcv => ?_⟩
      · by_cases hlk : l = k
        · subst hlk
          have hcell : s.cell l = .busy i := h.inside hu hpc
          show About Y others G I Q _ l (s.cell l)
          rw [hcell]
          exact ⟨_, _, next, Family.getElem?_set_self hu, rfl, hq⟩
        · refine (h.about l).after hY (.inr (hY.apart (Ne.symm hlk) hG))
            fun j v q next' _ hv hpcv => ?_
          refine getElem?_goTo _ (ne_of_pc hu hv fun heq => hlk ?_) hv
          rw [hpcv, hpc] at heq
          cases heq
          rfl
      · rcases goTo_cases (s := s) hv with ⟨rfl, heq⟩ | ⟨hne, hold⟩
        · rw [heq] at hpcv
          cases hpcv
          exact h.inside hu hpc
        · exact h.inside hold hpcv
  | @leave u k a next hu hpc =>
      refine ⟨fun l => ?_, fun {j v l q next'} hv hpcv => ?_⟩
      · by_cases hlk : l = k
        · subst hlk
          rw [St.cell_fill_self]
          exact h.computing hu hpc
        · rw [St.cell_fill_ne _ _ hlk]
          refine (h.about l).after hY (.inl rfl) fun j v q next' _ hv hpcv => ?_
          refine getElem?_goTo _ (ne_of_pc hu hv fun heq => hlk ?_) hv
          rw [hpcv, hpc] at heq
          cases heq
          rfl
      · rcases goTo_cases hv with ⟨rfl, heq⟩ | ⟨hne, hold⟩
        · rw [heq] at hpcv
          cases hpcv
        · have hl := h.inside hold hpcv
          have hlk : l ≠ k := by
            rintro rfl
            rw [h.inside hu hpc] at hl
            exact hne (Cell.busy.inj hl).symm
          exact (St.cell_fill_ne _ _ hlk).trans hl
  | @known u k a next hu hpc hk =>
      refine ⟨fun l => ?_, fun {j v l q next'} hv hpcv => ?_⟩
      · refine (h.about l).after hY (.inl rfl) fun j v q next' _ hv hpcv => ?_
        exact getElem?_goTo _ (ne_of_pc hu hv (by simp [hpcv, hpc])) hv
      · rcases goTo_cases hv with ⟨rfl, heq⟩ | ⟨hne, hold⟩
        · rw [heq] at hpcv
          cases hpcv
        · exact h.inside hold hpcv

theorem Inv.step (hY : Sound Y others G I Q) (h : Inv Y others G I Q s) (hstep : Step Y s t) :
    Inv Y others G I Q t := by
  cases hstep with
  | env henv =>
      refine ⟨fun k => ?_, fun hu hpc => h.inside hu hpc⟩
      exact (h.about k).after hY (.inr (hY.env henv)) fun _ _ _ _ _ hu _ => hu
  | start p =>
      refine ⟨fun k => ?_, fun hu hpc => ?_⟩
      · refine (h.about k).after hY (.inl rfl) fun i u q next _ hu _ => ?_
        rw [List.getElem?_append_left (List.getElem?_eq_some_iff.mp hu).1]
        exact hu
      · rcases Family.getElem?_append_cases hu with hold | ⟨j, -, hnew⟩
        · exact h.inside hold hpc
        · rw [List.getElem?_singleton] at hnew
          split at hnew
          · cases hnew
            cases hpc
          · cases hnew
  | move i hmove => exact h.move hY hmove

theorem Reached.inv (hY : Sound Y others G I Q) (hw : ∀ k, I k w) (h : Reached Y w s) :
    Inv Y others G I Q s := by
  induction h with
  | start => exact ⟨hw, fun hu => by cases hu⟩
  | next _ hstep ih => exact ih.step hY hstep

/-- A value that is there is what its computation comes to. -/
theorem Reached.done (hY : Sound Y others G I Q) (hw : ∀ k, I k w) (h : Reached Y w s) {k : K}
    {a : α} (hk : s.cell k = .done a) : Q k a s.world := by
  have habout := (h.inv hY hw).about k
  rw [hk] at habout
  exact habout s.world .refl

/-! ## As if the values had been there -/

/-- What a program comes to when each value is looked up in a table. -/
def lookup (f : K → α) (p : Calls K (fun _ => α) β) : Option β :=
  (p.run (fun k u => (f k, u)) ()).map Prod.fst

omit [DecidableEq K] in
@[simp] theorem lookup_call (f : K → α) (k : K) (next : α → Calls K (fun _ => α) β) :
    lookup f (.call k next) = lookup f (next (f k)) := rfl

/-- What is left of a program that has come this far. -/
def Pc.lookup (f : K → α) : Pc K C A α β → Option β
  | .out p => Once.lookup f p
  | .inside k _ next => Once.lookup f (next (f k))

/-- A table with the values that are there. -/
def Extends (f : K → α) (s : St K C A α β σ) : Prop := ∀ k a, s.cell k = .done a → f k = a

/-- No step takes a value away or changes it. -/
theorem Extends.before {f : K → α} (hi : Inv Y others G I Q s) (h : Extends f t)
    (hstep : Step Y s t) : Extends f s := by
  intro l b hl
  cases hstep with
  | env _ => exact h l b hl
  | start _ => exact h l b hl
  | move i hmove =>
      cases hmove with
      | @first u k next _ _ hk =>
          have hlk : l ≠ k := by
            rintro rfl
            rw [hk] at hl
            cases hl
          exact h l b ((St.cell_fill_ne _ _ hlk).trans hl)
      | act _ _ _ => exact h l b hl
      | @leave u k a next hu hpc =>
          have hlk : l ≠ k := by
            rintro rfl
            rw [hi.inside hu hpc] at hl
            cases hl
          exact h l b ((St.cell_fill_ne _ _ hlk).trans hl)
      | known _ _ _ => exact h l b hl

/-- However the programs fall between each other, each has come as far as it comes when the
values are looked up. -/
theorem Reached.lookup (hY : Sound Y others G I Q) (hw : ∀ k, I k w) (h : Reached Y w s)
    {f : K → α} (hf : Extends f s) :
    ∀ u ∈ s.askers, Once.lookup f u.program = u.pc.lookup f := by
  induction h with
  | start => exact fun u hu => by cases hu
  | @next s t hr hstep ih =>
      have hold := ih (hf.before (hr.inv hY hw) hstep)
      have hmoved : ∀ {i : ℕ} {u : Asker K C A α β} {pc : Pc K C A α β},
          s.askers[i]? = some u → u.pc.lookup f = pc.lookup f →
          ∀ v ∈ s.askers.set i { u with pc := pc },
            Once.lookup f v.program = v.pc.lookup f := by
        intro i u pc hu heq v hv
        rcases List.mem_or_eq_of_mem_set hv with hmem | rfl
        · exact hold v hmem
        · exact (hold u (List.mem_of_getElem? hu)).trans heq
      cases hstep with
      | env _ => exact hold
      | start p =>
          intro u hu
          rcases List.mem_append.mp hu with hmem | hmem
          · exact hold u hmem
          · rw [List.mem_singleton.mp hmem]
            rfl
      | move i hmove =>
          cases hmove with
          | first hu hpc _ => exact hmoved hu (by rw [hpc]; rfl)
          | act hu hpc _ => exact hmoved hu (by rw [hpc]; rfl)
          | @leave u k a next hu hpc =>
              refine hmoved hu ?_
              have hk : f k = a := hf k a (St.cell_fill_self ..)
              rw [hpc, ← hk]
              rfl
          | @known u k a next hu hpc hk =>
              refine hmoved hu ?_
              rw [hpc, Pc.lookup, lookup_call, hf k a hk]
              rfl

/-- The values that are there, and `a` for the others. -/
def table (s : St K C A α β σ) (a : α) (k : K) : α :=
  match s.cell k with
  | .done b => b
  | _ => a

omit [DecidableEq K] in
theorem extends_table (s : St K C A α β σ) (a : α) : Extends (table s a) s := by
  intro k b hk
  rw [table, hk]

/-! ## Nobody waits in vain -/

/-- A program that has more to do. -/
def Pc.Going : Pc K C A α β → Prop
  | .out (.call _ _) => True
  | .out _ => False
  | .inside _ _ _ => True

/-- As long as a program has more to do, some program has a step to make. -/
theorem Reached.goes (hY : Sound Y others G I Q) (hw : ∀ k, I k w)
    (hact : ∀ c v, ∃ x v', Y.act c v x v') (h : Reached Y w s) {i : ℕ}
    {u : Asker K C A α β} (hu : s.askers[i]? = some u) (hgoing : u.pc.Going) :
    ∃ j t, Move Y j s t := by
  have hinv := h.inv hY hw
  have hinside : ∀ {j : ℕ} {v : Asker K C A α β} {k q next}, s.askers[j]? = some v →
      v.pc = .inside k q next → ∃ t, Move Y j s t := by
    intro j v k q next hv hpc
    cases q with
    | done a => exact ⟨_, .leave hv hpc⟩
    | call c after =>
        obtain ⟨x, w', hx⟩ := hact c s.world
        exact ⟨_, .act hv hpc hx⟩
    | endless => exact (hinv.computing hv hpc).elim
  cases hpc : u.pc with
  | inside k q next => exact ⟨i, hinside hu hpc⟩
  | out p =>
      cases p with
      | done b => rw [hpc] at hgoing; exact hgoing.elim
      | endless => rw [hpc] at hgoing; exact hgoing.elim
      | call k next =>
          have habout := hinv.about k
          cases hk : s.cell k with
          | fresh => exact ⟨i, _, .first hu hpc hk⟩
          | done a => exact ⟨i, _, .known hu hpc hk⟩
          | busy j =>
              rw [hk] at habout
              obtain ⟨v, q, next', hv, hpcv, -⟩ := habout
              exact ⟨j, hinside hv hpcv⟩

end Once
