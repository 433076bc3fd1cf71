import Mathlib.Data.Int.Basic
import Mathlib.Algebra.Order.Ring.Int

/-!
# Go's `int`

An `int` is 64 bits wide and its arithmetic wraps. It is modelled as an `Int`
that every operation brings back into range, so that a sum which cannot
overflow is the plain sum and one which can is the sum the machine computes.
-/

namespace Go

/-- `math.MaxInt`. -/
def maxInt : Int := 9223372036854775807

/-- The value an `int` keeps of an integer: its residue in `[-2^63, 2^63)`. -/
def wrap (x : Int) : Int := Int.bmod x 18446744073709551616

/-- The integers an `int` can hold. -/
def InRange (x : Int) : Prop := -maxInt - 1 ≤ x ∧ x ≤ maxInt

theorem wrap_of_inRange {x : Int} (h : InRange x) : wrap x = x := by
  obtain ⟨hlo, hhi⟩ := h
  unfold maxInt at hlo hhi
  rw [wrap, Int.bmod_def]
  split <;> omega

theorem wrap_inRange (x : Int) : InRange (wrap x) := by
  unfold InRange wrap maxInt
  rw [Int.bmod_def]
  split <;> omega

/-- Go's `%`: the remainder takes the sign of the dividend. -/
def rem (a b : Int) : Int := Int.tmod a b

end Go
