import Mathlib.Data.Int.Basic
import CppServer.Lib.BoundedFifo
import CppServer.Lib.Machine

/-!
# `SafeQueue`

The class template as its text has it.  Nothing uses it, and `IsEmpty`, `Front` and `Back` could
not be: they are `const` and lock a mutex that is not `mutable`.

Each operation is one step, for it holds the mutex or does nothing; who takes the step makes no
difference.  `machine` runs the queue beside the bounded queue that it should be.

* `refines_iff_fits` — what a step must find for the two to agree on it.
* `refines_iff` — over every run.  `Push` does not look at `max_size_`, `IsEmpty` returns the size,
  and `Clear` is empty.
* `pushed_eq_yielded_append` — `Pop` is right in every run: it yields what has been pushed, in its
  order.
-/

namespace CppServer

/-- `SafeQueue` -/
structure SafeQueue (τ : Type*) where
  maxSize : ℤ
  queue : List τ := []

namespace SafeQueue

variable {τ : Type*}

/-- `SafeQueue::Clear` -/
def clear (q : SafeQueue τ) : SafeQueue τ := q

/-- `SafeQueue::IsEmpty`: the size, as a `bool`. -/
def isEmpty (q : SafeQueue τ) : Bool := q.queue.length != 0

/-- `SafeQueue::Push` -/
def push (q : SafeQueue τ) (t : τ) : SafeQueue τ := { q with queue := q.queue ++ [t] }

/-- `SafeQueue::Pop`: what it returns, and the value of its argument afterwards. -/
def pop (q : SafeQueue τ) (t : τ) : SafeQueue τ × Bool × τ :=
  match q.queue with
  | [] => (q, false, t)
  | front :: rest => ({ q with queue := rest }, true, front)

/-- One operation and its result. -/
def perform (q : SafeQueue τ) : QueueOp τ → SafeQueue τ × QueueResult τ
  | .push t => (q.push t, .done)
  | .pop t => ((q.pop t).1, .popped (q.pop t).2.1 (q.pop t).2.2)
  | .isEmpty => (q, .emptiness q.isEmpty)
  | .clear => (q.clear, .done)

/-- A call of an operation by a thread. -/
structure Call (ι τ : Type*) where
  thread : ι
  op : QueueOp τ

/-- The queue, and the queue that it should be. -/
structure Pair (τ : Type*) (maxSize : ℤ) where
  concrete : SafeQueue τ
  abstract : BoundedFifo τ maxSize.toNat

variable {ι : Type*} {maxSize : ℤ}

/-- Both queues when they are new. -/
def start (maxSize : ℤ) : Pair τ maxSize where
  concrete := { maxSize }
  abstract := .empty

/-- Both take every operation. -/
def after (s : Pair τ maxSize) (c : Call ι τ) : Pair τ maxSize where
  concrete := (s.concrete.perform c.op).1
  abstract := (s.abstract.perform c.op).1

/-- The two queues side by side. -/
def machine (ι : Type*) (τ : Type*) (maxSize : ℤ) : Machine (Pair τ maxSize) (Call ι τ) where
  Init s := s = start maxSize
  step s c := some (after s c)

/-- What a step should be: it does not overfill the queue, it returns what the bounded queue
returns, and `Clear` clears both. -/
structure Refines (s : Pair τ maxSize) (c : Call ι τ) : Prop where
  bounded : ((after s c).concrete.queue.length : ℤ) ≤ maxSize
  result : (s.concrete.perform c.op).2 = (s.abstract.perform c.op).2
  cleared : c.op = .clear →
    (after s c).abstract.elements = [] ∧ (after s c).concrete.queue = []

/-- What a step must find: room for a push, nothing to clear, and nobody may ask whether the queue
is empty. -/
def Fits (s : Pair τ maxSize) (c : Call ι τ) : Prop :=
  match c.op with
  | .push _ => (s.concrete.queue.length : ℤ) < maxSize
  | .pop _ => True
  | .isEmpty => False
  | .clear => s.concrete.queue = []

/-- The two queues have the same elements. -/
def Alike (s : Pair τ maxSize) : Prop := s.concrete.queue = s.abstract.elements

/-! ## One step -/

section Steps

variable {s : Pair τ maxSize} {c : Call ι τ}

/-- The bound of the bounded queue, in the type of `max_size_`. -/
lemma length_le (hmax : 1 ≤ maxSize) (h : Alike s) :
    (s.concrete.queue.length : ℤ) ≤ maxSize := by
  have hbounded := s.abstract.bounded
  rw [← h] at hbounded
  omega

/-- Both pops come to the same. -/
lemma pop_alike (h : Alike s) (t : τ) :
    (s.concrete.pop t).1.queue = (s.abstract.perform (.pop t)).1.elements ∧
      (s.concrete.perform (.pop t)).2 = (s.abstract.perform (.pop t)).2 := by
  rw [Alike] at h
  simp only [perform, pop, BoundedFifo.perform, h]
  cases helements : s.abstract.elements with
  | nil => exact ⟨h, rfl⟩
  | cons oldest rest => simp [helements]

/-- **When the two queues agree on a step**: by cases on the operation. -/
theorem refines_iff_fits (hmax : 1 ≤ maxSize) (h : Alike s) : Refines s c ↔ Fits s c := by
  have hlength := length_le hmax h
  obtain ⟨thread, op⟩ := c
  cases op with
  | push t =>
      have hpushed : (after s (⟨thread, .push t⟩ : Call ι τ)).concrete.queue.length
          = s.concrete.queue.length + 1 := by simp [after, perform, push]
      constructor
      · intro hrefines
        have hbounded := hrefines.bounded
        rw [hpushed] at hbounded
        simp only [Fits]
        omega
      · intro hfits
        simp only [Fits] at hfits
        exact ⟨by rw [hpushed]; omega, rfl, by simp⟩
  | pop t =>
      obtain ⟨hqueue, hresult⟩ := pop_alike h t
      refine iff_of_true ⟨?_, hresult, by simp⟩ trivial
      have hshorter : (s.concrete.pop t).1.queue.length ≤ s.concrete.queue.length := by
        unfold pop
        split
        · exact Nat.le_refl _
        · rename_i front rest hcons
          simp [hcons]
      simp only [after, perform]
      omega
  | isEmpty =>
      refine iff_of_false (fun hrefines => ?_) (by simp [Fits])
      have hresult := hrefines.result
      rw [Alike] at h
      simp only [perform, BoundedFifo.perform, isEmpty, h, QueueResult.emptiness.injEq] at hresult
      cases helements : s.abstract.elements <;> simp [helements] at hresult
  | clear =>
      constructor
      · exact fun hrefines => (hrefines.cleared rfl).2
      · exact fun hfits => ⟨hlength, rfl, fun _ => ⟨rfl, hfits⟩⟩

/-- A step that fits keeps the two queues alike. -/
lemma alike_after (h : Alike s) (hfits : Fits s c) : Alike (after s c) := by
  obtain ⟨thread, op⟩ := c
  cases op with
  | push t =>
      have hqueue : s.concrete.queue = s.abstract.elements := h
      have hlt : (s.concrete.queue.length : ℤ) < maxSize := hfits
      have hroom : s.abstract.elements.length < maxSize.toNat := by
        rw [← hqueue]
        omega
      have hpush := BoundedFifo.push_of_lt hroom t
      simp only [Alike, after, perform, push, BoundedFifo.perform, hpush, hqueue]
  | pop t => exact (pop_alike h t).1
  | isEmpty => exact h
  | clear => exact hfits

end Steps

/-! ## The result -/

/-- Every call can be made. -/
lemma run_machine (calls : List (Call ι τ)) (s : Pair τ maxSize) :
    (machine ι τ maxSize).run s calls = some (calls.foldl after s) := by
  induction calls generalizing s with
  | nil => rfl
  | cons c cs ih => exact ih (after s c)

/-- **When a `SafeQueue` is a bounded queue.**  In every run, by whatever threads, exactly if each
push finds fewer than `max_size_` elements, `Clear` is called on empty queues only, and `IsEmpty` on
none. -/
theorem refines_iff (hmax : 1 ≤ maxSize) (calls : List (Call ι τ)) :
    (machine ι τ maxSize).Along Refines (start maxSize) calls
      ↔ (machine ι τ maxSize).Along Fits (start maxSize) calls := by
  refine Machine.along_congr (I := Alike) (fun s c s' h hfits hst => ?_) (fun s c s' h _ => ?_)
    calls rfl (run_machine calls _)
  · exact Option.some.inj hst ▸ alike_after h hfits
  · exact refines_iff_fits hmax h

/-- A push and a pop by two threads, on a queue with room for one. -/
def pushAndPop : List (Call ℕ ℕ) := [⟨0, .push 7⟩, ⟨1, .pop 0⟩]

theorem refines_iff_pushAndPop : (machine ℕ ℕ 1).Along Refines (start 1) pushAndPop := by
  refine (refines_iff (by decide) pushAndPop).mpr ⟨?_, fun s _ => ⟨trivial, fun _ _ => trivial⟩⟩
  show ((0 : ℕ) : ℤ) < 1
  decide

/-- After `Clear` the queue still holds what has been pushed. -/
theorem clear_clears_nothing :
    ¬ ∀ (maxSize : ℤ) (calls : List (Call ℕ ℕ)), 1 ≤ maxSize →
      (machine ℕ ℕ maxSize).Along Refines (start maxSize) calls := by
  intro h
  have hclear := ((h 1 [⟨0, .push 7⟩, ⟨0, .clear⟩] (by decide)).2 _ rfl).1
  exact absurd (hclear.cleared rfl).2 (by decide)

/-! ## What is popped -/

/-- What the calls push. -/
def pushed (calls : List (Call ι τ)) : List τ :=
  calls.filterMap fun c => match c.op with
    | .push t => some t
    | _ => none

/-- What the pops yield that find something. -/
def yielded : SafeQueue τ → List (Call ι τ) → List τ
  | _, [] => []
  | q, c :: cs =>
      match (q.perform c.op).2 with
      | .popped true t => t :: yielded (q.perform c.op).1 cs
      | _ => yielded (q.perform c.op).1 cs

/-- **First in, first out**, whatever else is called: by induction on the calls. -/
theorem pushed_eq_yielded_append : ∀ (q : SafeQueue τ) (calls : List (Call ι τ)),
    q.queue ++ pushed calls
      = yielded q calls ++ (calls.foldl (fun q c => (q.perform c.op).1) q).queue
  | q, [] => by simp [pushed, yielded]
  | q, ⟨thread, op⟩ :: cs => by
      have hrest := pushed_eq_yielded_append (q.perform op).1 cs
      cases op with
      | push t => simpa [pushed, yielded, perform, push] using hrest
      | pop t =>
          cases hq : q.queue with
          | nil => simpa [pushed, yielded, perform, pop, hq] using hrest
          | cons front rest => simpa [pushed, yielded, perform, pop, hq] using hrest
      | isEmpty => simpa [pushed, yielded, perform] using hrest
      | clear => simpa [pushed, yielded, perform, clear] using hrest

end SafeQueue

end CppServer
