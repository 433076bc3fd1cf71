import Mathlib.Init

/-!
# Error returns

A Go function that returns a value and an error is an `Except`: the value only
matters when the error is nil. What a success of a chain of such calls says of
the calls in it is read off call by call.
-/

namespace Go

variable {ε α β : Type} {x : Except ε α}

theorem bind_eq_ok {f : α → Except ε β} {b : β} (h : x.bind f = .ok b) :
    ∃ a, x = .ok a ∧ f a = .ok b := by
  cases x with
  | error e => cases h
  | ok a => exact ⟨a, rfl, h⟩

/-- Without anything around it, a chain of calls is one of plain results. -/
theorem run_bind_id {x : ExceptT ε Id α} {f : α → ExceptT ε Id β} :
    (x >>= f).run = Except.bind x.run fun a => (f a).run := by
  show Id.run (ExceptT.bindCont f x) = _
  cases x <;> rfl

end Go
