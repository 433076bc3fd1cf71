import Goboxd.Runner.Pipes

/-!
# When a child blocks on a pipe for good

A reader that has delivered its budget leaves its pipe alone, and nobody else
reads it: the parent waits for the process with both read ends open. What the
child can write to a stream is therefore the reader's budget and one pipe more.

The invariant is that no byte of a stream is lost: what was read, what is in
the pipe and what the child has still to write are the stream, in order. A
child that is stuck for good has used up budget and capacity, so it writes more
than that; and a script that writes more cannot be played to its end, whatever
the schedule, so the attempt ends in such a state.
-/

namespace Goboxd.Runner

open Go

def Blocked (capacity : Nat) (s : PipeState) (fd : Fd) : Prop :=
  ∃ b todo, s.child = .running ((fd, b) :: todo) ∧
    capacity ≤ (s.pipes fd).buf.length

def NeverRead (M : Machine PipeState PipeAct) (s : PipeState) (fd : Fd) : Prop :=
  ∀ as t, M.exec s as = some t → ∀ n, M.step t (.read fd n) = none

/-- The child blocks on a pipe that is never read again. -/
def Wedged (M : Machine PipeState PipeAct) (capacity : Nat) (s : PipeState) : Prop :=
  ∃ fd, Blocked capacity s fd ∧ NeverRead M s fd

/-- No stream is longer than its reader's budget and a pipe. -/
def OutputFits (capacity : Nat) (outputCap : Int) (script : List (Fd × UInt8)) :
    Prop :=
  ∀ fd, (written fd script).length ≤ readBudget outputCap + capacity

/-! ## Pipes -/

@[simp] theorem setPipe_child (s : PipeState) (fd : Fd) (p : Pipe) :
    (s.setPipe fd p).child = s.child := rfl

@[simp] theorem setPipe_parent (s : PipeState) (fd : Fd) (p : Pipe) :
    (s.setPipe fd p).parent = s.parent := rfl

@[simp] theorem setChild_child (s : PipeState) (c : Child) :
    (s.setChild c).child = c := rfl

@[simp] theorem setChild_pipes (s : PipeState) (c : Child) :
    (s.setChild c).pipes = s.pipes := rfl

@[simp] theorem setChild_parent (s : PipeState) (c : Child) :
    (s.setChild c).parent = s.parent := rfl

@[simp] theorem setParent_child (s : PipeState) (pc : ParentPc) :
    (s.setParent pc).child = s.child := rfl

@[simp] theorem setParent_pipes (s : PipeState) (pc : ParentPc) :
    (s.setParent pc).pipes = s.pipes := rfl

@[simp] theorem setParent_parent (s : PipeState) (pc : ParentPc) :
    (s.setParent pc).parent = pc := rfl

@[simp] theorem setPipe_self (s : PipeState) (fd : Fd) (p : Pipe) :
    (s.setPipe fd p).pipes fd = p := by
  simp [PipeState.setPipe]

theorem setPipe_ne (s : PipeState) {fd fd' : Fd} (p : Pipe) (h : fd' ≠ fd) :
    (s.setPipe fd p).pipes fd' = s.pipes fd' := by
  simp [PipeState.setPipe, h]

theorem written_cons_self (fd : Fd) (b : UInt8) (todo : List (Fd × UInt8)) :
    written fd ((fd, b) :: todo) = b :: written fd todo := by
  simp [written]

theorem written_cons_ne {fd fd' : Fd} (b : UInt8) (todo : List (Fd × UInt8))
    (h : fd' ≠ fd) : written fd' ((fd, b) :: todo) = written fd' todo := by
  simp [written, Ne.symm h]

/-! ## The invariant -/

/-- What holds of one stream: no byte is lost, the bounds of reader and pipe,
and why a reader stopped. -/
structure StreamWf (capacity budget : Nat) (script : List (Fd × UInt8))
    (s : PipeState) (fd : Fd) : Prop where
  kept : (s.pipes fd).got ++ (s.pipes fd).buf ++ written fd s.child.todo =
    written fd script
  got : (s.pipes fd).got.length ≤ budget
  buf : (s.pipes fd).buf.length ≤ capacity
  stopped : (s.pipes fd).stopped = true →
    (s.pipes fd).left budget = 0 ∨ ((s.pipes fd).buf = [] ∧ s.child.gone = true)

variable {capacity : Nat} {outputCap : Int} {script : List (Fd × UInt8)}
  {s t : PipeState} {a : PipeAct}

theorem StreamWf.frame {budget : Nat} {fd : Fd}
    (h : StreamWf capacity budget script s fd) (hp : t.pipes fd = s.pipes fd)
    (hw : written fd t.child.todo = written fd s.child.todo)
    (hg : s.child.gone = true → t.child.gone = true) :
    StreamWf capacity budget script t fd := by
  refine ⟨?_, ?_, ?_, ?_⟩ <;> rw [hp]
  · rw [hw]
    exact h.kept
  · exact h.got
  · exact h.buf
  · exact fun hs => (h.stopped hs).imp id fun he => ⟨he.1, hg he.2⟩

theorem streamWf_step {budget : Nat} (h : PipeMove capacity budget s a t) (fd : Fd)
    (hfd : StreamWf capacity budget script s fd) :
    StreamWf capacity budget script t fd := by
  cases h with
  | @write fd' b todo hc hroom =>
      have hrun : s.child.gone ≠ true := by rw [hc]; exact Bool.noConfusion
      have htodo : s.child.todo = (fd', b) :: todo := by rw [hc]; rfl
      by_cases heq : fd = fd'
      · subst heq
        have hkept := hfd.kept
        rw [htodo, written_cons_self] at hkept
        refine ⟨?_, ?_, ?_, ?_⟩ <;>
          simp only [setChild_pipes, setPipe_self, Pipe.push]
        · simpa [Child.todo] using hkept
        · exact hfd.got
        · rw [List.length_append, List.length_singleton]
          exact hroom
        · exact fun hs => .inl ((hfd.stopped hs).resolve_right fun h => hrun h.2)
      · refine hfd.frame (setPipe_ne s _ heq) ?_ fun hg => absurd hg hrun
        rw [htodo, written_cons_ne b todo heq]
        rfl
  | exit hc => exact hfd.frame rfl (by rw [hc]; rfl) fun _ => rfl
  | kill hc => exact hfd.frame rfl (by rw [hc]; rfl) fun _ => rfl
  | @read fd' n hs h0 hbuf hleft =>
      by_cases heq : fd = fd'
      · subst heq
        refine ⟨?_, ?_, ?_, ?_⟩ <;> simp only [setPipe_self, setPipe_child, Pipe.take]
        · simpa [List.append_assoc] using hfd.kept
        · have hgot := hfd.got
          rw [List.length_append, List.length_take]
          unfold Pipe.left at hleft
          omega
        · have hlen := hfd.buf
          rw [List.length_drop]
          omega
        · intro hst
          rw [hs] at hst
          cases hst
      · exact hfd.frame (setPipe_ne s _ heq) rfl id
  | @stop fd' hs hend =>
      by_cases heq : fd = fd'
      · subst heq
        refine ⟨?_, ?_, ?_, ?_⟩ <;> simp only [setPipe_self, setPipe_child, Pipe.halt]
        · exact hfd.kept
        · exact hfd.got
        · exact hfd.buf
        · exact fun _ => hend
      · exact hfd.frame (setPipe_ne s _ heq) rfl id
  | recvOut | recvErr | wait => exact hfd.frame rfl rfl id

theorem execPipes_move (h : (execPipes capacity outputCap script).step s a = some t) :
    PipeMove capacity (readBudget outputCap) s a t := pipeStep_move h

section

variable {G : PipeState → PipeAct → Prop}

theorem streamWf (h : (execPipes capacity outputCap script).Reach G s) (fd : Fd) :
    StreamWf capacity (readBudget outputCap) script s fd := by
  refine h.invariant (I := fun s => StreamWf capacity _ script s fd) ?_ ?_
  · rintro s rfl
    exact ⟨rfl, Nat.zero_le _, Nat.zero_le _, fun hs => by cases hs⟩
  · exact fun s a t _ ih _ hs => streamWf_step (execPipes_move hs) fd ih

/-- A running child's reader is still there, as long as it has budget left. -/
theorem reading (h : (execPipes capacity outputCap script).Reach G s) (fd : Fd)
    (hrun : s.child.gone = false)
    (hleft : 0 < (s.pipes fd).left (readBudget outputCap)) :
    (s.pipes fd).stopped = false := by
  cases hs : (s.pipes fd).stopped with
  | false => rfl
  | true =>
      rcases (streamWf h fd).stopped hs with hl | ⟨-, hg⟩
      · omega
      · rw [hrun] at hg; cases hg

end

/-! ## Wedged children -/

theorem left_step {budget : Nat} (h : PipeMove capacity budget s a t) (fd : Fd)
    (hl : (s.pipes fd).left budget = 0) : (t.pipes fd).left budget = 0 := by
  cases h with
  | @write fd' | @stop fd' =>
      by_cases heq : fd = fd'
      · subst heq
        simpa [Pipe.left, Pipe.push, Pipe.halt] using hl
      · simpa [setPipe_ne s _ heq] using hl
  | @read fd' n _ h0 _ hleft =>
      by_cases heq : fd = fd'
      · subst heq
        omega
      · simpa [setPipe_ne s _ heq] using hl
  | exit | kill | recvOut | recvErr | wait => exact hl

theorem neverRead_of_left {fd : Fd}
    (hl : (s.pipes fd).left (readBudget outputCap) = 0) :
    NeverRead (execPipes capacity outputCap script) s fd := by
  intro as
  induction as generalizing s with
  | nil =>
      intro t ht n
      cases ht
      cases hstep : (execPipes capacity outputCap script).step s (.read fd n) with
      | none => rfl
      | some u =>
          cases execPipes_move hstep with
          | read _ h0 _ hleft => omega
  | cons a as ih =>
      intro t ht
      obtain ⟨u, hu, ht⟩ := Option.bind_eq_some_iff.mp ht
      exact ih (left_step (execPipes_move hu) fd hl) t ht

/-- For a blocked child, being wedged is the reader's budget being used up. -/
theorem wedged_iff (hcap : 0 < capacity)
    (h : (execPipes capacity outputCap script).Reachable s) :
    Wedged (execPipes capacity outputCap script) capacity s ↔
      ∃ fd, Blocked capacity s fd ∧
        (s.pipes fd).left (readBudget outputCap) = 0 := by
  constructor
  · rintro ⟨fd, hb, hnever⟩
    refine ⟨fd, hb, ?_⟩
    obtain ⟨b, todo, hc, hfull⟩ := hb
    by_contra hl
    have hs := reading h fd (by rw [hc]; rfl) (Nat.pos_of_ne_zero hl)
    have hread := hnever [] s rfl 1
    simp only [execPipes, pipeStep] at hread
    rw [if_pos ⟨hs, Nat.one_pos, by omega, by omega⟩] at hread
    cases hread
  · rintro ⟨fd, hb, hl⟩
    exact ⟨fd, hb, neverRead_of_left hl⟩

/-! ## A script that fits never wedges, and one that does not can -/

theorem outputFits_of_length (h : (execPipes capacity outputCap script).Reachable s)
    (hc : s.child.todo = []) : OutputFits capacity outputCap script := by
  intro fd
  have hwf := streamWf h fd
  have hlen := congrArg List.length hwf.kept
  have hgot := hwf.got
  have hbuf := hwf.buf
  rw [hc, List.length_append, List.length_append] at hlen
  change _ + _ + 0 = _ at hlen
  omega

/-- A blocked child without a reader has written budget and capacity, and has a
byte left. -/
theorem not_wedged_of_fits (hcap : 0 < capacity)
    (hfits : OutputFits capacity outputCap script)
    (h : (execPipes capacity outputCap script).Reachable s) :
    ¬ Wedged (execPipes capacity outputCap script) capacity s := by
  rw [wedged_iff hcap h]
  rintro ⟨fd, ⟨b, todo, hc, hfull⟩, hl⟩
  have hlen := congrArg List.length (streamWf h fd).kept
  rw [hc, Child.todo, written_cons_self, List.length_append, List.length_append,
    List.length_cons] at hlen
  have := hfits fd
  unfold Pipe.left at hl
  omega

/-- From any reachable state in which the child runs, a schedule without a kill
wedges it or lets it write everything. -/
theorem exec_todo (hcap : 0 < capacity) : ∀ {todo : List (Fd × UInt8)} {s : PipeState},
    (execPipes capacity outputCap script).Reach (fun _ a => a ≠ .kill) s →
    s.child = .running todo →
    ∃ t, (execPipes capacity outputCap script).Reach (fun _ a => a ≠ .kill) t ∧
      (Wedged (execPipes capacity outputCap script) capacity t ∨
        t.child = .running []) := by
  intro todo
  induction todo with
  | nil => intro s h hc; exact ⟨s, h, .inr hc⟩
  | cons w todo ih =>
      intro s h hc
      obtain ⟨fd, b⟩ := w
      -- the write that is next, once the pipe has room
      have hwrite : ∀ u, (execPipes capacity outputCap script).Reach
          (fun _ a => a ≠ .kill) u → u.child = .running ((fd, b) :: todo) →
          (u.pipes fd).buf.length < capacity → ∃ t,
          (execPipes capacity outputCap script).Reach (fun _ a => a ≠ .kill) t ∧
            (Wedged (execPipes capacity outputCap script) capacity t ∨
              t.child = .running []) := by
        intro u hu hcu hroom
        have hstep : (execPipes capacity outputCap script).step u .write =
            some ((u.setPipe fd ((u.pipes fd).push b)).setChild (.running todo)) := by
          simp only [execPipes, pipeStep, hcu, if_pos hroom]
        exact ih (.next hu (by simp) hstep) rfl
      rcases Nat.lt_or_ge (s.pipes fd).buf.length capacity with hroom | hfull
      · exact hwrite s h hc hroom
      · rcases Nat.eq_zero_or_pos ((s.pipes fd).left (readBudget outputCap)) with hl | hl
        · exact ⟨s, h, .inl ((wedged_iff hcap h.reachable).mpr
            ⟨fd, ⟨b, todo, hc, hfull⟩, hl⟩)⟩
        · -- one byte is read first
          have hs := reading h fd (by rw [hc]; rfl) hl
          have hread : (execPipes capacity outputCap script).step s (.read fd 1) =
              some (s.setPipe fd ((s.pipes fd).take 1)) := by
            simp only [execPipes, pipeStep]
            rw [if_pos ⟨hs, Nat.one_pos, by omega, hl⟩]
          refine hwrite _ (.next h (by simp) hread) hc ?_
          have hbuf := (streamWf h fd).buf
          simp only [setPipe_self, Pipe.take, List.length_drop]
          omega

theorem no_wedge_iff (hcap : 0 < capacity) :
    (∀ s, (execPipes capacity outputCap script).Reachable s →
        ¬ Wedged (execPipes capacity outputCap script) capacity s) ↔
      OutputFits capacity outputCap script := by
  constructor
  · intro h
    obtain ⟨t, ht, hw | hc⟩ :=
      exec_todo hcap (.start (M := execPipes capacity outputCap script) rfl) rfl
    · exact absurd hw (h t ht.reachable)
    · exact outputFits_of_length ht.reachable (by rw [hc]; rfl)
  · exact fun hfits s h => not_wedged_of_fits hcap hfits h

/-! ## Every run ends -/

def ParentPc.rank : ParentPc → Nat
  | .recvOut => 3
  | .recvErr => 2
  | .wait => 1
  | .returned => 0

def Pipe.work (p : Pipe) : Nat := p.buf.length + (!p.stopped).toNat

/-- What the child has left: a byte is written and read, and then it goes. -/
def Child.work (c : Child) : Nat := 2 * c.todo.length + (!c.gone).toNat

def PipeState.work (s : PipeState) : Nat :=
  s.child.work + (s.pipes .out).work + (s.pipes .err).work + s.parent.rank

theorem work_setPipe (s : PipeState) (fd : Fd) (p : Pipe) :
    (s.setPipe fd p).work + (s.pipes fd).work = s.work + p.work := by
  have hout : Fd.out ≠ .err := Fd.noConfusion
  cases fd with
  | out =>
      simp only [PipeState.work, setPipe_child, setPipe_parent, setPipe_self,
        setPipe_ne s p hout.symm]
      omega
  | err =>
      simp only [PipeState.work, setPipe_child, setPipe_parent, setPipe_self,
        setPipe_ne s p hout]
      omega

theorem work_setChild (s : PipeState) (c : Child) :
    (s.setChild c).work + s.child.work = s.work + c.work := by
  simp only [PipeState.work, setChild_child, setChild_pipes, setChild_parent]
  omega

theorem work_setParent (s : PipeState) (pc : ParentPc) :
    (s.setParent pc).work + s.parent.rank = s.work + pc.rank := by
  simp only [PipeState.work, setParent_child, setParent_pipes, setParent_parent]
  omega

theorem work_push (p : Pipe) (b : UInt8) : (p.push b).work = p.work + 1 := by
  simp only [Pipe.work, Pipe.push, List.length_append, List.length_singleton]
  omega

theorem work_take {p : Pipe} {n : Nat} (h : n ≤ p.buf.length) :
    (p.take n).work + n = p.work := by
  simp only [Pipe.work, Pipe.take, List.length_drop]
  omega

theorem work_halt {p : Pipe} (h : p.stopped = false) : p.halt.work + 1 = p.work := by
  rw [Pipe.work, Pipe.work, Pipe.halt, h]
  rfl

theorem work_todo (w : Fd × UInt8) (todo : List (Fd × UInt8)) :
    (Child.running (w :: todo)).work = (Child.running todo).work + 2 := by
  change 2 * (todo.length + 1) + 1 = 2 * todo.length + 1 + 2
  omega

theorem work_killed (todo : List (Fd × UInt8)) :
    (Child.killed todo).work + 1 = (Child.running todo).work := rfl

theorem work_step {budget : Nat} (h : PipeMove capacity budget s a t) :
    t.work < s.work := by
  cases h with
  | @write fd b todo hc _ =>
      have hpipe := work_setPipe s fd ((s.pipes fd).push b)
      have hchild := work_setChild (s.setPipe fd ((s.pipes fd).push b)) (.running todo)
      rw [work_push] at hpipe
      rw [setPipe_child, hc, work_todo] at hchild
      omega
  | exit hc =>
      have hchild := work_setChild s .exited
      rw [hc] at hchild
      change _ + 1 = _ + 0 at hchild
      omega
  | @kill todo hc =>
      have hchild := work_setChild s (.killed todo)
      rw [hc, ← work_killed] at hchild
      omega
  | @read fd n hs h0 hbuf _ =>
      have hpipe := work_setPipe s fd ((s.pipes fd).take n)
      have htake := work_take hbuf
      omega
  | @stop fd hs =>
      have hpipe := work_setPipe s fd (s.pipes fd).halt
      have hhalt := work_halt hs
      omega
  | recvOut hp =>
      have hparent := work_setParent s .recvErr
      rw [hp, ParentPc.rank, ParentPc.rank] at hparent
      omega
  | recvErr hp =>
      have hparent := work_setParent s .wait
      rw [hp, ParentPc.rank, ParentPc.rank] at hparent
      omega
  | wait hp =>
      have hparent := work_setParent s .returned
      rw [hp, ParentPc.rank, ParentPc.rank] at hparent
      omega

theorem exec_length : ∀ {as : List PipeAct} {s : PipeState},
    (execPipes capacity outputCap script).exec s as = some t →
    as.length + t.work ≤ s.work := by
  intro as
  induction as with
  | nil => intro s h; cases h; simp
  | cons a as ih =>
      intro s h
      obtain ⟨u, hu, h⟩ := Option.bind_eq_some_iff.mp h
      have := ih h
      have := work_step (execPipes_move hu)
      rw [List.length_cons]
      omega

/-! ## A run without a kill -/

/-- Nothing can happen but the wall-time limit. -/
def Stuck (M : Machine PipeState PipeAct) (s : PipeState) : Prop :=
  ∀ a, a ≠ .kill → M.step s a = none

/-- Every run that is not killed ends with the child gone by itself, the parent
returned, and each stream as `readCapped` gives it. -/
def SelfTerminates (capacity : Nat) (outputCap : Int)
    (script : List (Fd × UInt8)) : Prop :=
  ∀ s, (execPipes capacity outputCap script).Reach (fun _ a => a ≠ .kill) s →
    Stuck (execPipes capacity outputCap script) s →
    s.child = .exited ∧ s.parent = .returned ∧
      ∀ fd, truncateRead (s.pipes fd).got outputCap =
        readCapped (written fd script) outputCap

section

variable (hs : Stuck (execPipes capacity outputCap script) s)
include hs

theorem wedged_of_stuck (hcap : 0 < capacity)
    (h : (execPipes capacity outputCap script).Reachable s)
    (hrun : s.child.gone = false) :
    Wedged (execPipes capacity outputCap script) capacity s := by
  cases hc : s.child with
  | exited | killed => rw [hc] at hrun; cases hrun
  | running todo =>
      cases todo with
      | nil =>
          have hexit := hs .exit (by simp)
          simp [execPipes, pipeStep, hc] at hexit
      | cons w todo =>
          obtain ⟨fd, b⟩ := w
          have hfull : capacity ≤ (s.pipes fd).buf.length := by
            have hwrite := hs .write (by simp)
            simpa [execPipes, pipeStep, hc] using hwrite
          refine (wedged_iff hcap h).mpr ⟨fd, ⟨b, todo, hc, hfull⟩, ?_⟩
          by_contra hl
          have hst := reading h _ hrun (Nat.pos_of_ne_zero hl)
          have hread := hs (.read fd 1) (by simp)
          simp only [execPipes, pipeStep] at hread
          rw [if_pos ⟨hst, Nat.one_pos, by omega, by omega⟩] at hread
          cases hread

theorem stopped_of_stuck (hg : s.child.gone = true) (fd : Fd) :
    (s.pipes fd).stopped = true := by
  by_contra hst
  rw [Bool.not_eq_true] at hst
  have hend : ¬ ((s.pipes fd).left (readBudget outputCap) = 0 ∨
      ((s.pipes fd).buf = [] ∧ s.child.gone = true)) := by
    intro hend
    have hstop := hs (.stop fd) (by simp)
    simp only [execPipes, pipeStep] at hstop
    rw [if_pos ⟨hst, hend⟩] at hstop
    cases hstop
  rw [not_or, not_and] at hend
  have hbuf : 0 < (s.pipes fd).buf.length :=
    List.length_pos_iff.mpr fun hnil => hend.2 hnil hg
  have hread := hs (.read fd 1) (by simp)
  simp only [execPipes, pipeStep] at hread
  rw [if_pos ⟨hst, Nat.one_pos, hbuf, Nat.pos_of_ne_zero hend.1⟩] at hread
  cases hread

theorem returned_of_stuck (hg : s.child.gone = true) : s.parent = .returned := by
  have hout := stopped_of_stuck hs hg .out
  have herr := stopped_of_stuck hs hg .err
  have hrecv := hs .recv (by simp)
  have hwait := hs .wait (by simp)
  cases hp : s.parent with
  | recvOut => simp [execPipes, pipeStep, hp, hout] at hrecv
  | recvErr => simp [execPipes, pipeStep, hp, herr] at hrecv
  | wait => simp [execPipes, pipeStep, hp, hg] at hwait
  | returned => rfl

end

theorem not_killed (h : (execPipes capacity outputCap script).Reach
    (fun _ a => a ≠ .kill) s) : ∀ todo, s.child ≠ .killed todo := by
  refine h.invariant (I := fun s => ∀ todo, s.child ≠ .killed todo) ?_ ?_
  · rintro s rfl todo hc
    cases hc
  · intro s a t _ ih hG hstep todo
    cases execPipes_move hstep with
    | kill => exact absurd rfl hG
    | write | exit => exact Child.noConfusion
    | read | stop | recvOut | recvErr | wait => exact ih todo

/-- What a reader has when it stopped by itself: the stream, up to the
budget. -/
theorem got_of_stopped (h : (execPipes capacity outputCap script).Reachable s)
    {fd : Fd} (hc : s.child = .exited) (hst : (s.pipes fd).stopped = true) :
    (s.pipes fd).got = (written fd script).take (readBudget outputCap) := by
  have hwf := streamWf h fd
  have hkept := hwf.kept
  rw [hc] at hkept
  change _ ++ [] = _ at hkept
  rw [List.append_nil] at hkept
  rw [← hkept]
  rcases hwf.stopped hst with hl | ⟨hnil, -⟩
  · have hlen : (s.pipes fd).got.length = readBudget outputCap := by
      have := hwf.got
      unfold Pipe.left at hl
      omega
    rw [← hlen, List.take_left]
  · rw [hnil, List.append_nil, List.take_of_length_le hwf.got]

theorem selfTerminates_of_fits (hcap : 0 < capacity)
    (hfits : OutputFits capacity outputCap script) :
    SelfTerminates capacity outputCap script := by
  intro s h hs
  have hg : s.child.gone = true := by
    by_contra hrun
    exact not_wedged_of_fits hcap hfits h.reachable
      (wedged_of_stuck hs hcap h.reachable (Bool.not_eq_true _ ▸ hrun))
  have hc : s.child = .exited := by
    cases hc : s.child with
    | running todo => rw [hc] at hg; cases hg
    | exited => rfl
    | killed todo => exact absurd hc (not_killed h todo)
  refine ⟨hc, returned_of_stuck hs hg, fun fd => ?_⟩
  rw [got_of_stopped h.reachable hc (stopped_of_stuck hs hg fd), readCapped]

theorem child_of_wedged {fd : Fd} (hb : Blocked capacity s fd)
    (hl : (s.pipes fd).left (readBudget outputCap) = 0) (ha : a ≠ .kill)
    (h : (execPipes capacity outputCap script).step s a = some t) :
    Blocked capacity t fd := by
  obtain ⟨b, todo, hc, hfull⟩ := hb
  cases execPipes_move h with
  | write hc' hroom =>
      rw [hc] at hc'
      cases hc'
      omega
  | exit hc' => rw [hc] at hc'; cases hc'
  | kill => exact absurd rfl ha
  | @read fd' n _ h0 _ hleft =>
      refine ⟨b, todo, hc, ?_⟩
      by_cases heq : fd = fd'
      · subst heq
        omega
      · rw [setPipe_ne s _ heq]
        exact hfull
  | @stop fd' =>
      refine ⟨b, todo, hc, ?_⟩
      by_cases heq : fd = fd'
      · subst heq
        simpa [Pipe.halt] using hfull
      · rw [setPipe_ne s _ heq]
        exact hfull
  | recvOut | recvErr | wait => exact ⟨b, todo, hc, hfull⟩

/-- A wedged run gets stuck with the child still running. -/
theorem stuck_of_wedged {fd : Fd} : ∀ {n : Nat} {s : PipeState},
    (execPipes capacity outputCap script).Reach (fun _ a => a ≠ .kill) s →
    Blocked capacity s fd → (s.pipes fd).left (readBudget outputCap) = 0 →
    s.work ≤ n → ∃ t,
      (execPipes capacity outputCap script).Reach (fun _ a => a ≠ .kill) t ∧
        Stuck (execPipes capacity outputCap script) t ∧ Blocked capacity t fd := by
  intro n
  induction n with
  | zero =>
      intro s h hb hl hw
      refine ⟨s, h, fun a ha => ?_, hb⟩
      cases hstep : (execPipes capacity outputCap script).step s a with
      | none => rfl
      | some t =>
          have := work_step (execPipes_move hstep)
          omega
  | succ n ih =>
      intro s h hb hl hw
      by_cases hs : Stuck (execPipes capacity outputCap script) s
      · exact ⟨s, h, hs, hb⟩
      · simp only [Stuck, not_forall] at hs
        obtain ⟨a, ha, hsome⟩ := hs
        obtain ⟨t, hstep⟩ := Option.ne_none_iff_exists'.mp hsome
        have hdec := work_step (execPipes_move hstep)
        exact ih (.next h ha hstep) (child_of_wedged hb hl ha hstep)
          (left_step (execPipes_move hstep) fd hl) (by omega)

theorem selfTerminates_iff (hcap : 0 < capacity) :
    SelfTerminates capacity outputCap script ↔
      OutputFits capacity outputCap script := by
  refine ⟨fun hself => ?_, selfTerminates_of_fits hcap⟩
  obtain ⟨s, h, hw | hc⟩ :=
    exec_todo hcap (.start (M := execPipes capacity outputCap script) rfl) rfl
  · obtain ⟨fd, hb, hl⟩ := (wedged_iff hcap h.reachable).mp hw
    obtain ⟨t, ht, hs, b, todo, hc, -⟩ := stuck_of_wedged h hb hl le_rfl
    rw [(hself t ht hs).1] at hc
    cases hc
  · exact outputFits_of_length h.reachable (by rw [hc]; rfl)

/-- When an exec never wedges its child. For every pipe capacity, output cap
and script, no schedule blocks the child for good exactly when no stream is
longer than its reader's budget and a pipe; exactly then every run that is not
killed ends by itself, with its output as `readCapped` gives it; and every run
ends. -/
theorem child_never_wedged_iff (hcap : 0 < capacity) :
    ((∀ s, (execPipes capacity outputCap script).Reachable s →
        ¬ Wedged (execPipes capacity outputCap script) capacity s) ↔
      OutputFits capacity outputCap script) ∧
    (SelfTerminates capacity outputCap script ↔
      OutputFits capacity outputCap script) ∧
    ∀ s as t, (execPipes capacity outputCap script).exec s as = some t →
      as.length + t.work ≤ s.work :=
  ⟨no_wedge_iff hcap, selfTerminates_iff hcap, fun _ _ _ h => exec_length h⟩

/-! ## Linux pipes and the default cap -/

def prints (n : Nat) : List (Fd × UInt8) := List.replicate n (.out, 120)

theorem written_prints (n : Nat) : (written .out (prints n)).length = n := by
  simp [written, prints]

theorem written_err_prints (n : Nat) : (written .err (prints n)).length = 0 := by
  simp [written, prints]

theorem child_never_wedged_twice_cap :
    (∀ s, (execPipes 65536 1024 (prints 2048)).Reachable s →
      ¬ Wedged (execPipes 65536 1024 (prints 2048)) 65536 s) ∧
    SelfTerminates 65536 1024 (prints 2048) := by
  have hbudget : readBudget 1024 = 1025 := by decide
  have hfits : OutputFits 65536 1024 (prints 2048) := by
    intro fd
    cases fd with
    | out => rw [written_prints, hbudget]; decide
    | err => rw [written_err_prints]; exact Nat.zero_le _
  have hcap : 0 < 65536 := by decide
  exact ⟨(child_never_wedged_iff hcap).1.mpr hfits,
    (child_never_wedged_iff hcap).2.1.mpr hfits⟩

theorem child_wedged_beyond_pipe :
    ¬ ∀ s, (execPipes 65536 maxOutputBytes (prints 131074)).Reachable s →
      ¬ Wedged (execPipes 65536 maxOutputBytes (prints 131074)) 65536 s := by
  intro h
  have hfits := (no_wedge_iff (by decide)).mp h .out
  have hbudget : readBudget maxOutputBytes = 65537 := by decide
  rw [written_prints, hbudget] at hfits
  omega

end Goboxd.Runner
