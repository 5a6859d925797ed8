import Mathlib.Data.Fintype.Basic
import CppServer.Core.Connection
import CppServer.Core.Syscall
import CppServer.ThreadPool.Model

/-!
# `Server::Start`

The main reactor and `n` pool workers, one for each sub reactor.  `Start` adds the `n` loops to
the pool and then runs the main reactor's own loop; a worker that takes a loop stays in it, since
`quit_` is never set.

`epoll_wait`, `accept` and the application's callbacks are oracles: their answers are part of the
action.  `Errif` turns an answer of `-1` into an exception, whatever the errno.  An exception that
leaves a sub reactor's `Loop` ends in the `packaged_task` the worker was running: the worker goes
back to the queue, and the loop is not added again.  One that leaves the main reactor's `Loop`
leaves `Start`.

The field `lost` is history: no step reads it.
-/

namespace CppServer.Reactors

open ThreadPool (Outcome)

/-- `Epoll::Poll`, given the answer of `epoll_wait`. -/
def epollPoll {ρ : Type} (answer : Except Errno (List ρ)) : Except String (List ρ) := do
  errif (answer matches .error _) "epoll wait error"
  return answer.toOption.getD []

/-- `Socket::Accept`, given the answers of `accept`; `none` if it needs more of them. -/
def socketAccept (sock : Socket) : List (Except Errno ℕ) → Option (Except String ℕ)
  | [] => none
  | .ok fd :: _ => some (.ok fd)
  | .error .EAGAIN :: answers =>
      if sock.isNonBlocking then socketAccept sock answers
      else some (.error "socket accept error")
  | .error _ :: _ => some (.error "socket accept error")

/-- The listening socket: nobody sets `O_NONBLOCK` on it. -/
def listeningSocket : Socket := { fd := 3, nonBlocking := false }

/-- Where a sub reactor is in `EventLoop::Loop`, with the descriptors whose channels are still to
be handled. -/
inductive LoopPc where
  | polling
  | dispatching (batch : List ℕ)
  deriving DecidableEq, Repr

/-- A worker of the pool. -/
inductive Worker where
  | idle
  /-- inside the `Loop` of sub reactor `r` -/
  | inLoop (r : ℕ) (pc : LoopPc)
  deriving DecidableEq, Repr

/-- The main thread. -/
inductive MainPc where
  /-- in `Start`, the loops below `i` have been added -/
  | starting (i : ℕ)
  | polling
  /-- in `AcceptConnection` -/
  | accepting
  /-- an exception has left `Start` -/
  | stopped
  deriving DecidableEq, Repr

structure State (n : ℕ) where
  taskQueue : List ℕ := []
  worker : Fin n → Worker := fun _ => .idle
  main : MainPc := .starting 0
  /-- the loops an exception has left -/
  lost : List ℕ := []

/-- One step of one thread, with what the oracles answer it. -/
inductive Action (n : ℕ) where
  | add
  | enterLoop
  | take (w : Fin n) (r : ℕ) (rest : List ℕ)
  | poll (w : Fin n) (r : ℕ) (answer : Except Errno (List ℕ))
  /-- `HandleEvent` on the next channel, up to the end of the on_message callback -/
  | handle (w : Fin n) (r fd : ℕ) (rest : List ℕ) (callback : Outcome)
  | endOfBatch (w : Fin n) (r : ℕ)
  /-- `epoll_wait` of the main reactor: whether the listening socket is ready -/
  | mainPoll (answer : Except Errno (List Unit))
  /-- `AcceptConnection`, up to the end of the on_connection callback -/
  | mainAccept (answer : Except Errno ℕ) (callback : Outcome)
  deriving DecidableEq, Repr

variable {n : ℕ}

/-- When a step can be taken. -/
def guard (s : State n) : Action n → Prop
  | .add => ∃ i < n, s.main = .starting i
  | .enterLoop => s.main = .starting n
  | .take w r rest => s.worker w = .idle ∧ s.taskQueue = r :: rest
  | .poll w r _ => s.worker w = .inLoop r .polling
  | .handle w r fd rest _ => s.worker w = .inLoop r (.dispatching (fd :: rest))
  | .endOfBatch w r => s.worker w = .inLoop r (.dispatching [])
  | .mainPoll _ => s.main = .polling
  -- with no sub reactors `fd % sub_reactors_.size()` would be undefined
  | .mainAccept _ _ => s.main = .accepting ∧ 0 < n

open Function (update)

/-- Sub reactor `r` goes on. -/
def State.goOn (s : State n) (w : Fin n) (r : ℕ) (pc : LoopPc) : State n :=
  { s with worker := update s.worker w (.inLoop r pc) }

/-- An exception leaves the loop of sub reactor `r`, and the task of worker `w` with it. -/
def State.swallow (s : State n) (w : Fin n) (r : ℕ) : State n :=
  { s with worker := update s.worker w .idle, lost := s.lost ++ [r] }

/-- What the next event is for the main reactor. -/
def MainPc.afterPoll : Except String (List Unit) → MainPc
  | .error _ => .stopped
  | .ok [] => .polling
  | .ok (_ :: _) => .accepting

/-- `AcceptConnection`, with `NewConnection` and the on_connection callback. -/
def MainPc.afterAccept : Option (Except String ℕ) → Outcome → MainPc
  | some (.ok _), .returned => .polling
  | some (.ok _), .threw => .stopped
  | some (.error _), _ => .stopped
  | none, _ => .accepting

/-- What a step does.  A `socket()` or an `epoll_ctl` that fails inside `NewConnection` throws, and
so does a read callback that is not set: they count as `threw`. -/
def effect (s : State n) : Action n → State n
  | .add =>
      match s.main with
      | .starting i => { s with taskQueue := s.taskQueue ++ [i], main := .starting (i + 1) }
      | _ => s
  | .enterLoop => { s with main := .polling }
  | .take w r rest => { s.goOn w r .polling with taskQueue := rest }
  | .poll w r answer =>
      match epollPoll answer with
      | .ok batch => s.goOn w r (.dispatching batch)
      | .error _ => s.swallow w r
  | .handle w r _ rest callback =>
      match callback with
      | .returned => s.goOn w r (.dispatching rest)
      | .threw => s.swallow w r
  | .endOfBatch w r => s.goOn w r .polling
  | .mainPoll answer => { s with main := .afterPoll (epollPoll answer) }
  | .mainAccept answer callback =>
      { s with main := .afterAccept (socketAccept listeningSocket [answer]) callback }

instance decidableGuard (s : State n) : ∀ a, Decidable (guard s a)
  | .add => inferInstanceAs (Decidable (∃ i < n, s.main = .starting i))
  | .enterLoop => inferInstanceAs (Decidable (s.main = _))
  | .take _ _ _ => inferInstanceAs (Decidable (_ ∧ _))
  | .poll w _ _ => inferInstanceAs (Decidable (s.worker w = _))
  | .handle w _ _ _ _ => inferInstanceAs (Decidable (s.worker w = _))
  | .endOfBatch w _ => inferInstanceAs (Decidable (s.worker w = _))
  | .mainPoll _ => inferInstanceAs (Decidable (s.main = _))
  | .mainAccept _ _ => inferInstanceAs (Decidable (_ ∧ _))

/-- A server with `n` sub reactors, at the call of `Start`. -/
def machine (n : ℕ) : Machine (State n) (Action n) :=
  Machine.guarded (fun s => s = {}) guard effect

end CppServer.Reactors
