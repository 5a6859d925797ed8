import Mathlib.Data.Fintype.Basic
import CppServer.Lib.Machine

/-!
# `ThreadPool`

The pool as a machine: `n` worker threads in the loop of the constructor, any number of callers of
`Add` (the index type `ι`), and the destructor.  A step is what a thread does between two points
at which another thread may interfere: taking `tasks_mtx_`, one statement under it, releasing it,
or a call on the condition variable.

`cv_.wait(lock, pred)` is the loop it stands for: test the predicate, and while it fails release
the mutex, sleep, and take the mutex back.  `notify_one` wakes one arbitrary sleeping worker, and
a worker may wake up on its own.  A queued task is a `std::packaged_task`: calling it stores what
its function did, a return or a throw, in the future, and returns.

The fields from `pushed` on are history: no step reads them.
-/

namespace CppServer.ThreadPool

/-- A queued task: the function given to `Add`, with the number of pushes before its own. -/
structure Task (τ : Type*) where
  ticket : ℕ
  function : τ
  deriving DecidableEq, Repr

/-- How the function of a task ends. -/
inductive Outcome where
  | returned
  | threw
  deriving DecidableEq, Repr

/-- Where a worker is in the loop of `ThreadPool::ThreadPool`. -/
inductive WorkerPc (τ : Type*) where
  /-- about to take the mutex -/
  | top
  /-- holds the mutex, about to test the predicate of `cv_.wait` -/
  | test
  | sleeping
  | woken
  /-- holds the mutex, the wait is over -/
  | ready
  /-- holds the mutex, `task` has been taken off the queue -/
  | popped (t : Task τ)
  | running (t : Task τ)
  | exited
  deriving DecidableEq, Repr

/-- Where a caller is in `ThreadPool::Add`. -/
inductive AddPc (τ : Type*) where
  | idle
  | entering (f : τ)
  /-- holds the mutex, about to test `stop_` -/
  | locked (f : τ)
  /-- holds the mutex, about to push -/
  | admitted (f : τ)
  /-- holds the mutex, has pushed the task with this ticket -/
  | pushed (ticket : ℕ)
  | notifying (ticket : ℕ)
  deriving DecidableEq, Repr

/-- Where the destructor is. -/
inductive DtorPc where
  | alive
  | entering
  | locked
  /-- holds the mutex, `stop_` is set -/
  | stopped
  | notifying
  /-- has joined the workers below this one -/
  | joining (i : ℕ)
  | done
  deriving DecidableEq, Repr

/-- The threads that may own `tasks_mtx_`. -/
inductive Thread (n : ℕ) (ι : Type*) where
  | worker (w : Fin n)
  | caller (c : ι)
  | destructor
  deriving DecidableEq, Repr

/-- A pool of `n` workers, its callers, and what has happened to it. -/
structure State (n : ℕ) (ι τ : Type*) where
  taskQueue : List (Task τ) := []
  stop : Bool := false
  tasksMtx : Option (Thread n ι) := none
  worker : Fin n → WorkerPc τ := fun _ => .top
  caller : ι → AddPc τ := fun _ => .idle
  dtor : DtorPc := .alive
  /-- the futures that have been made ready, by ticket -/
  future : ℕ → Option Outcome := fun _ => none
  /-- the tasks in the order their `Add` calls pushed them -/
  pushed : List (Task τ) := []
  /-- the tasks in the order they were taken off the queue, each with the worker that took it -/
  taken : List (Fin n × Task τ) := []
  /-- the tasks in the order they ended, each with the worker that ran it -/
  ran : List (Fin n × Task τ) := []
  /-- the tickets of the `Add` calls that returned -/
  accepted : List ℕ := []
  /-- the `Add` calls that threw -/
  refused : List (ι × τ) := []

/-- One step of one thread. -/
inductive Action (n : ℕ) (ι τ : Type*) where
  | lock (w : Fin n)
  | test (w : Fin n)
  | spuriousWake (w : Fin n)
  | pop (w : Fin n)
  | unlock (w : Fin n) (t : Task τ)
  | finish (w : Fin n) (t : Task τ) (o : Outcome)
  | add (c : ι) (f : τ)
  | addLock (c : ι) (f : τ)
  | addTest (c : ι) (f : τ)
  | addPush (c : ι) (f : τ)
  | addUnlock (c : ι) (ticket : ℕ)
  /-- `notify_one`, with the worker it wakes -/
  | addNotify (c : ι) (ticket : ℕ) (wakes : Option (Fin n))
  | dtorBegin
  | dtorLock
  | dtorStop
  | dtorUnlock
  | dtorNotifyAll
  | dtorJoin (w : Fin n)
  | dtorReturn
  deriving DecidableEq, Repr

variable {n : ℕ} {ι τ : Type*}

/-- The predicate of `cv_.wait`. -/
def State.wakeable (s : State n ι τ) : Bool := s.stop || !s.taskQueue.isEmpty

/-- `notify_one` wakes a sleeping worker if there is one. -/
def State.mayNotify (s : State n ι τ) : Option (Fin n) → Prop
  | some w => s.worker w = .sleeping
  | none => ∀ w, s.worker w ≠ .sleeping

/-- When a step can be taken. -/
def guard (s : State n ι τ) : Action n ι τ → Prop
  | .lock w => (s.worker w = .top ∨ s.worker w = .woken) ∧ s.tasksMtx = none
  | .test w => s.worker w = .test
  | .spuriousWake w => s.worker w = .sleeping
  -- with the queue empty and `stop_` not set, `front()` would be undefined
  | .pop w => s.worker w = .ready ∧ (s.stop = true ∨ s.taskQueue ≠ [])
  | .unlock w t => s.worker w = .popped t
  | .finish w t _ => s.worker w = .running t
  | .add c _ => s.caller c = .idle
  | .addLock c f => s.caller c = .entering f ∧ s.tasksMtx = none
  | .addTest c f => s.caller c = .locked f
  | .addPush c f => s.caller c = .admitted f
  | .addUnlock c k => s.caller c = .pushed k
  | .addNotify c k wakes => s.caller c = .notifying k ∧ s.mayNotify wakes
  | .dtorBegin => s.dtor = .alive
  | .dtorLock => s.dtor = .entering ∧ s.tasksMtx = none
  | .dtorStop => s.dtor = .locked
  | .dtorUnlock => s.dtor = .stopped
  | .dtorNotifyAll => s.dtor = .notifying
  -- `thread.join()` returns when the thread has exited
  | .dtorJoin w => s.dtor = .joining w ∧ s.worker w = .exited
  | .dtorReturn => s.dtor = .joining n

open Function (update)

/-- `notify_all`: every sleeping worker is woken. -/
def wakeAll (worker : Fin n → WorkerPc τ) (w : Fin n) : WorkerPc τ :=
  if worker w matches .sleeping then .woken else worker w

/-- What a step does. -/
def effect [DecidableEq ι] (s : State n ι τ) : Action n ι τ → State n ι τ
  | .lock w => { s with tasksMtx := some (.worker w), worker := update s.worker w .test }
  | .test w =>
      if s.wakeable then { s with worker := update s.worker w .ready }
      else { s with tasksMtx := none, worker := update s.worker w .sleeping }
  | .spuriousWake w => { s with worker := update s.worker w .woken }
  | .pop w =>
      match s.taskQueue with
      -- `stop_` is set: the worker returns, which releases the mutex
      | [] => { s with tasksMtx := none, worker := update s.worker w .exited }
      | t :: rest =>
          { s with taskQueue := rest, worker := update s.worker w (.popped t),
                   taken := s.taken ++ [(w, t)] }
  | .unlock w t => { s with tasksMtx := none, worker := update s.worker w (.running t) }
  | .finish w t o =>
      { s with worker := update s.worker w .top, future := update s.future t.ticket (some o),
               ran := s.ran ++ [(w, t)] }
  | .add c f => { s with caller := update s.caller c (.entering f) }
  | .addLock c f =>
      { s with tasksMtx := some (.caller c), caller := update s.caller c (.locked f) }
  | .addTest c f =>
      if s.stop then
        -- the throw releases the mutex
        { s with tasksMtx := none, caller := update s.caller c .idle,
                 refused := s.refused ++ [(c, f)] }
      else { s with caller := update s.caller c (.admitted f) }
  | .addPush c f =>
      { s with taskQueue := s.taskQueue ++ [⟨s.pushed.length, f⟩],
               pushed := s.pushed ++ [⟨s.pushed.length, f⟩],
               caller := update s.caller c (.pushed s.pushed.length) }
  | .addUnlock c k => { s with tasksMtx := none, caller := update s.caller c (.notifying k) }
  | .addNotify c k wakes =>
      { s with worker := wakes.elim s.worker fun w => update s.worker w .woken,
               caller := update s.caller c .idle, accepted := s.accepted ++ [k] }
  | .dtorBegin => { s with dtor := .entering }
  | .dtorLock => { s with tasksMtx := some .destructor, dtor := .locked }
  | .dtorStop => { s with stop := true, dtor := .stopped }
  | .dtorUnlock => { s with tasksMtx := none, dtor := .notifying }
  | .dtorNotifyAll =>
      { s with worker := wakeAll s.worker, dtor := .joining 0 }
  | .dtorJoin w => { s with dtor := .joining (w + 1) }
  | .dtorReturn => { s with dtor := .done }

/-! What the steps with a branch do, as one state: the fields that no branch writes are plainly
those of before. -/

section Branches

variable [DecidableEq ι] {s : State n ι τ}

lemma effect_test (w : Fin n) : effect s (.test w) =
    { s with worker := update s.worker w (if s.wakeable then .ready else .sleeping),
             tasksMtx := if s.wakeable then s.tasksMtx else none } := by
  simp only [effect]
  split <;> rfl

lemma effect_pop (w : Fin n) : effect s (.pop w) =
    { s with worker := update s.worker w (s.taskQueue.head?.elim .exited .popped),
             tasksMtx := s.taskQueue.head?.elim none fun _ => s.tasksMtx,
             taskQueue := s.taskQueue.tail,
             taken := s.taken ++ s.taskQueue.head?.toList.map (w, ·) } := by
  cases hq : s.taskQueue with
  | nil => simp [effect, hq]
  | cons t rest => simp [effect, hq]

lemma effect_addTest (c : ι) (f : τ) : effect s (.addTest c f) =
    { s with caller := update s.caller c (if s.stop then .idle else .admitted f),
             tasksMtx := if s.stop then none else s.tasksMtx,
             refused := if s.stop then s.refused ++ [(c, f)] else s.refused } := by
  simp only [effect]
  split <;> rfl

end Branches

instance State.decidableMayNotify [DecidableEq τ] (s : State n ι τ) :
    ∀ wakes, Decidable (s.mayNotify wakes)
  | some w => inferInstanceAs (Decidable (s.worker w = _))
  | none => inferInstanceAs (Decidable (∀ w, s.worker w ≠ _))

instance decidableGuard [DecidableEq ι] [DecidableEq τ] (s : State n ι τ) :
    ∀ a, Decidable (guard s a)
  | .lock _ => inferInstanceAs (Decidable (_ ∧ _))
  | .test w => inferInstanceAs (Decidable (s.worker w = _))
  | .spuriousWake w => inferInstanceAs (Decidable (s.worker w = _))
  | .pop _ => inferInstanceAs (Decidable (_ ∧ _))
  | .unlock w _ => inferInstanceAs (Decidable (s.worker w = _))
  | .finish w _ _ => inferInstanceAs (Decidable (s.worker w = _))
  | .add c _ => inferInstanceAs (Decidable (s.caller c = _))
  | .addLock _ _ => inferInstanceAs (Decidable (_ ∧ _))
  | .addTest c _ => inferInstanceAs (Decidable (s.caller c = _))
  | .addPush c _ => inferInstanceAs (Decidable (s.caller c = _))
  | .addUnlock c _ => inferInstanceAs (Decidable (s.caller c = _))
  | .addNotify _ _ _ => inferInstanceAs (Decidable (_ ∧ _))
  | .dtorBegin => inferInstanceAs (Decidable (s.dtor = _))
  | .dtorLock => inferInstanceAs (Decidable (_ ∧ _))
  | .dtorStop => inferInstanceAs (Decidable (s.dtor = _))
  | .dtorUnlock => inferInstanceAs (Decidable (s.dtor = _))
  | .dtorNotifyAll => inferInstanceAs (Decidable (s.dtor = _))
  | .dtorJoin _ => inferInstanceAs (Decidable (_ ∧ _))
  | .dtorReturn => inferInstanceAs (Decidable (s.dtor = _))

/-- `ThreadPool(n)`, its constructor done. -/
def machine (n : ℕ) (ι τ : Type*) [DecidableEq ι] [DecidableEq τ] :
    Machine (State n ι τ) (Action n ι τ) :=
  Machine.guarded (fun s => s = {}) guard effect

end CppServer.ThreadPool
