import Goboxd.Lib.GoString

/-!
# Response writers

`http.ResponseWriter`. The header can be changed at any time, but what the client
gets is the header at the first `WriteHeader`, or at the first `Write` when that
comes before, and the status of that call. Later calls of `WriteHeader` do
nothing. A handler that writes nothing has a 200 sent for it when it returns.

Codes below 200, which do not end the header, are left out, and so are the bytes
of the body.
-/

namespace Go

/-- A call of a handler on its writer. `set` is one on the header. -/
inductive WriterOp where
  | set (key value : GoString)
  | writeHeader (code : ℕ)
  | write
deriving DecidableEq, Repr

/-- A header, the last value set first. -/
abbrev Header := List (GoString × GoString)

/-- `Header.Get`, of a canonical key. -/
def Header.get (h : Header) (key : GoString) : GoString := (h.lookup key).getD []

structure ResponseWriter where
  header : Header
  /-- What was sent: the status and the header of that time. -/
  sent : Option (ℕ × Header)
deriving DecidableEq, Repr

namespace ResponseWriter

def fresh : ResponseWriter := ⟨[], none⟩

def send (w : ResponseWriter) (code : ℕ) : ResponseWriter :=
  if w.sent = none then { w with sent := some (code, w.header) } else w

def op (w : ResponseWriter) : WriterOp → ResponseWriter
  | .set key value => { w with header := (key, value) :: w.header }
  | .writeHeader code => w.send code
  | .write => w.send 200

def ops (w : ResponseWriter) (os : List WriterOp) : ResponseWriter := os.foldl op w

/-- What the client has got when the handler has returned. -/
def answer (w : ResponseWriter) : ℕ × Header := (w.send 200).sent.getD (200, w.header)

end ResponseWriter

@[simp] theorem Header.get_nil (key : GoString) : Header.get [] key = [] := rfl

theorem Header.get_cons (h : Header) (k key value : GoString) :
    Header.get ((k, value) :: h) key = if key = k then value else Header.get h key := by
  rw [Header.get, List.lookup_cons]
  by_cases hk : key = k
  · rw [if_pos hk, hk, beq_self_eq_true]
    rfl
  · rw [if_neg hk, beq_eq_false_iff_ne.mpr hk]
    rfl

end Go
