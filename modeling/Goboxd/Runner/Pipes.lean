import Goboxd.Lib.Machine
import Goboxd.Runner.Exec

/-!
# The pipes of an exec

The part of `execJail` in which four parties move: the child, which writes its
output byte by byte and then exits; two readers, each a `readCapped` behind its
pipe; and the parent, which receives from `outChan`, then from `errChan`, and
then waits for the process. A pipe holds a fixed number of bytes, and a write
to a full one blocks.

A reader stops in two ways. It reads the end of the pipe, which is there once
the pipe is empty and the child is gone, or its `LimitReader` has delivered its
budget, after which nothing is read from the pipe any more. `cmd.Wait` closes
the read ends only after the process has ended.
-/

namespace Goboxd.Runner

open Go

inductive Fd where
  | out
  | err
deriving DecidableEq, Repr

/-- A pipe and its reader: the bytes in the pipe, the bytes read from it, and
whether the reader has sent its string. -/
structure Pipe where
  buf : GoString
  got : GoString
  stopped : Bool
deriving DecidableEq, Repr

/-- The child: running with the writes it has still to make, gone by itself, or
killed by the wall-time limit with the writes it did not make. -/
inductive Child where
  | running (todo : List (Fd × UInt8))
  | exited
  | killed (todo : List (Fd × UInt8))
deriving DecidableEq, Repr

inductive ParentPc where
  | recvOut
  | recvErr
  | wait
  | returned
deriving DecidableEq, Repr

structure PipeState where
  child : Child
  pipes : Fd → Pipe
  parent : ParentPc

inductive PipeAct where
  | write
  | exit
  /-- The wall-time limit kills the child. -/
  | kill
  /-- A `Read` of a pipe returns `n` bytes. -/
  | read (fd : Fd) (n : Nat)
  | stop (fd : Fd)
  | recv
  | wait
deriving DecidableEq, Repr

def Child.gone : Child → Bool
  | .running _ => false
  | _ => true

def Child.todo : Child → List (Fd × UInt8)
  | .running todo | .killed todo => todo
  | .exited => []

def PipeState.setPipe (s : PipeState) (fd : Fd) (p : Pipe) : PipeState :=
  { s with pipes := Function.update s.pipes fd p }

def PipeState.setChild (s : PipeState) (c : Child) : PipeState :=
  { s with child := c }

def PipeState.setParent (s : PipeState) (pc : ParentPc) : PipeState :=
  { s with parent := pc }

/-- What a reader may still take from its pipe. -/
def Pipe.left (budget : Nat) (p : Pipe) : Nat := budget - p.got.length

def Pipe.push (p : Pipe) (b : UInt8) : Pipe := { p with buf := p.buf ++ [b] }

def Pipe.take (p : Pipe) (n : Nat) : Pipe :=
  { p with buf := p.buf.drop n, got := p.got ++ p.buf.take n }

def Pipe.halt (p : Pipe) : Pipe := { p with stopped := true }

/-- One step, with pipes of capacity `capacity` and readers of budget
`budget`. -/
def pipeStep (capacity budget : Nat) (s : PipeState) : PipeAct → Option PipeState
  | .write =>
      match s.child with
      | .running ((fd, b) :: todo) =>
          let p := s.pipes fd
          if p.buf.length < capacity then
            some ((s.setPipe fd (p.push b)).setChild (.running todo))
          else none
      | _ => none
  | .exit =>
      match s.child with
      | .running [] => some (s.setChild .exited)
      | _ => none
  | .kill =>
      match s.child with
      | .running todo => some (s.setChild (.killed todo))
      | _ => none
  | .read fd n =>
      let p := s.pipes fd
      if p.stopped = false ∧ 0 < n ∧ n ≤ p.buf.length ∧ n ≤ p.left budget then
        some (s.setPipe fd (p.take n))
      else none
  | .stop fd =>
      let p := s.pipes fd
      if p.stopped = false ∧
          (p.left budget = 0 ∨ (p.buf = [] ∧ s.child.gone = true)) then
        some (s.setPipe fd p.halt)
      else none
  | .recv =>
      match s.parent with
      | .recvOut =>
          if (s.pipes .out).stopped then some (s.setParent .recvErr) else none
      | .recvErr =>
          if (s.pipes .err).stopped then some (s.setParent .wait) else none
      | _ => none
  | .wait =>
      match s.parent with
      | .wait => if s.child.gone then some (s.setParent .returned) else none
      | _ => none

/-- What a step can be, with its guard and its effect. -/
inductive PipeMove (capacity budget : Nat) (s : PipeState) :
    PipeAct → PipeState → Prop where
  | write {fd : Fd} {b : UInt8} {todo : List (Fd × UInt8)}
      (hc : s.child = .running ((fd, b) :: todo))
      (hroom : (s.pipes fd).buf.length < capacity) :
      PipeMove capacity budget s .write
        ((s.setPipe fd ((s.pipes fd).push b)).setChild (.running todo))
  | exit (hc : s.child = .running []) :
      PipeMove capacity budget s .exit (s.setChild .exited)
  | kill {todo : List (Fd × UInt8)} (hc : s.child = .running todo) :
      PipeMove capacity budget s .kill (s.setChild (.killed todo))
  | read {fd : Fd} {n : Nat} (hs : (s.pipes fd).stopped = false) (h0 : 0 < n)
      (hbuf : n ≤ (s.pipes fd).buf.length) (hleft : n ≤ (s.pipes fd).left budget) :
      PipeMove capacity budget s (.read fd n)
        (s.setPipe fd ((s.pipes fd).take n))
  | stop {fd : Fd} (hs : (s.pipes fd).stopped = false)
      (hend : (s.pipes fd).left budget = 0 ∨
        ((s.pipes fd).buf = [] ∧ s.child.gone = true)) :
      PipeMove capacity budget s (.stop fd)
        (s.setPipe fd (s.pipes fd).halt)
  | recvOut (hp : s.parent = .recvOut) (hs : (s.pipes .out).stopped = true) :
      PipeMove capacity budget s .recv (s.setParent .recvErr)
  | recvErr (hp : s.parent = .recvErr) (hs : (s.pipes .err).stopped = true) :
      PipeMove capacity budget s .recv (s.setParent .wait)
  | wait (hp : s.parent = .wait) (hg : s.child.gone = true) :
      PipeMove capacity budget s .wait (s.setParent .returned)

theorem pipeStep_move {capacity budget : Nat} {s t : PipeState} {a : PipeAct}
    (h : pipeStep capacity budget s a = some t) : PipeMove capacity budget s a t := by
  cases a <;> simp only [pipeStep] at h
  case write =>
    split at h
    · next hc =>
        split at h
        · next hroom => cases h; exact .write hc hroom
        · cases h
    · cases h
  case exit =>
    split at h
    · next hc => cases h; exact .exit hc
    · cases h
  case kill =>
    split at h
    · next hc => cases h; exact .kill hc
    · cases h
  case read =>
    split at h
    · next hr => cases h; exact .read hr.1 hr.2.1 hr.2.2.1 hr.2.2.2
    · cases h
  case stop =>
    split at h
    · next hr => cases h; exact .stop hr.1 hr.2
    · cases h
  case recv =>
    split at h
    · next hp =>
        split at h
        · next hs => cases h; exact .recvOut hp hs
        · cases h
    · next hp =>
        split at h
        · next hs => cases h; exact .recvErr hp hs
        · cases h
    · cases h
  case wait =>
    split at h
    · next hp =>
        split at h
        · next hg => cases h; exact .wait hp hg
        · cases h
    · cases h

/-- A started exec whose child makes the writes of `script`. -/
def startPipes (script : List (Fd × UInt8)) : PipeState where
  child := .running script
  pipes := fun _ => ⟨[], [], false⟩
  parent := .recvOut

def execPipes (capacity : Nat) (outputCap : Int) (script : List (Fd × UInt8)) :
    Machine PipeState PipeAct where
  init s := s = startPipes script
  step := pipeStep capacity (readBudget outputCap)

/-- What a script writes to a stream. -/
def written (fd : Fd) (script : List (Fd × UInt8)) : GoString :=
  (script.filter fun w => w.1 = fd).map Prod.snd

end Goboxd.Runner
