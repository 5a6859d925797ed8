import Mathlib.Data.List.Basic
import Mathlib.Tactic.Lemma

/-!
# What the kernel answers

The results of the system calls the server makes, as the code inspects them: `::read` and
`::write` return a count, or `-1` with an `errno`.
-/

namespace CppServer

/-- The values of `errno` the code tells apart; on Linux `EWOULDBLOCK` is `EAGAIN`. -/
inductive Errno where
  | EINTR
  | EAGAIN
  | other (code : ℕ)
  deriving DecidableEq, Repr

/-- One answer of `::read`: the bytes it stored (none at end of file), or `-1` with an errno. -/
abbrev ReadResult := Except Errno (List UInt8)

/-- One answer of `::write`: how many bytes it accepted, or `-1` with an errno. -/
abbrev WriteResult := Except Errno ℕ

/-- Why a modelled call has no result: it still waits for the kernel's next answer, or the C++
program has undefined behaviour. -/
inductive Stuck where
  | waiting
  | undefined
  deriving DecidableEq, Repr

/-- `Errif`: throw `std::runtime_error(errmsg)` if the condition holds. -/
def errif (condition : Bool) (errmsg : String) : Except String Unit :=
  if condition then .error errmsg else .ok ()

end CppServer
