import Mathlib.Data.List.Basic
import Mathlib.Data.Nat.Notation
import Mathlib.Tactic.Lemma

/-!
# A bounded queue

What a queue with room for `capacity` elements is: its elements, the oldest first, and the bound as
a field.  Its operations are those of an interface with which another queue can be compared:
`QueueOp`, with `QueueResult` for what they return.

* `BoundedFifo.perform` — an operation and its result.
* `BoundedFifo.push_of_lt` — a push with room for it appends.
-/

namespace CppServer

/-- An operation on a queue.  A pop is given the value of the variable it may assign to. -/
inductive QueueOp (τ : Type*) where
  | push (t : τ)
  | pop (t : τ)
  | isEmpty
  | clear

/-- What an operation returns; a pop also the value of its variable. -/
inductive QueueResult (τ : Type*) where
  | done
  | popped (found : Bool) (t : τ)
  | emptiness (empty : Bool)
  deriving DecidableEq, Repr

/-- A queue of at most `capacity` elements. -/
structure BoundedFifo (τ : Type*) (capacity : ℕ) where
  elements : List τ
  bounded : elements.length ≤ capacity

namespace BoundedFifo

variable {τ : Type*} {capacity : ℕ}

/-- A new queue. -/
def empty : BoundedFifo τ capacity := ⟨[], Nat.zero_le _⟩

/-- A full queue takes nothing in. -/
def push (q : BoundedFifo τ capacity) (t : τ) : BoundedFifo τ capacity :=
  if h : q.elements.length < capacity then
    ⟨q.elements ++ [t], by rw [List.length_append]; exact h⟩
  else q

/-- The queue without its oldest element. -/
def tail (q : BoundedFifo τ capacity) : BoundedFifo τ capacity :=
  ⟨q.elements.tail, Nat.le_trans (by rw [List.length_tail]; exact Nat.sub_le _ _) q.bounded⟩

/-- One operation and its result. -/
def perform (q : BoundedFifo τ capacity) : QueueOp τ → BoundedFifo τ capacity × QueueResult τ
  | .push t => (q.push t, .done)
  | .pop t =>
      match q.elements with
      | [] => (q, .popped false t)
      | oldest :: _ => (q.tail, .popped true oldest)
  | .isEmpty => (q, .emptiness q.elements.isEmpty)
  | .clear => (empty, .done)

lemma push_of_lt {q : BoundedFifo τ capacity} (h : q.elements.length < capacity) (t : τ) :
    (q.push t).elements = q.elements ++ [t] := by
  rw [push, dif_pos h]

@[simp] lemma elements_tail (q : BoundedFifo τ capacity) : q.tail.elements = q.elements.tail := rfl

end BoundedFifo

end CppServer
