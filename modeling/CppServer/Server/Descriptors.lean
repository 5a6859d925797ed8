import Mathlib.Logic.Function.Basic
import CppServer.Lib.Machine

/-!
# Who closes a descriptor

The kernel's descriptor table, the main reactor accepting and registering connections, and the
destruction of connections on the sub reactors, member by member.

A connection has two raw copies of its descriptor, in `sock_` and in `channel_`, and the
destructors of both close it: `channel_` first, `sock_` later, with anything in between.  `accept`
and `socket` return any number that is free at that moment.  The constructor of `Connection` opens
a socket of its own and overwrites its descriptor, which nobody closes.

Connections are known by the order of their acceptance.  The table remembers for which connection
a descriptor was opened; no step reads that, and none reads `closes`.
-/

namespace CppServer.Descriptors

/-- What an open descriptor was opened for. -/
inductive Owner where
  | connection (k : ℕ)
  /-- by the constructor of a `Connection`, and forgotten by it -/
  | leaked
  /-- everything that was open before the first `accept` -/
  | other
  deriving DecidableEq, Repr

/-- How far the destruction of a connection has come. -/
inductive Phase where
  | alive
  | channelGone
  | destroyed
  deriving DecidableEq, Repr

/-- `Connection`, as far as its descriptors go; `none` stands for `-1`. -/
structure Object where
  sockFd : Option ℕ
  channelFd : Option ℕ
  /-- `NewConnection` or `connections_` holds a reference -/
  held : Bool := true
  phase : Phase := .alive
  deriving DecidableEq, Repr

/-- Where the main reactor is between two calls of `accept`. -/
inductive MainPc where
  | idle
  | accepted (fd k : ℕ)
  | constructed (fd k : ℕ)
  deriving DecidableEq, Repr

/-- A call of `close` by the destruction of connection `by_`, and what the descriptor was then. -/
structure Close where
  by_ : ℕ
  fd : ℕ
  found : Option Owner
  deriving DecidableEq, Repr

/-- The descriptor is one that the same connection still owns. -/
def Close.Own (c : Close) : Prop := c.found = some (.connection c.by_)

structure State where
  table : ℕ → Option Owner
  object : ℕ → Option Object := fun _ => none
  connections : ℕ → Option ℕ := fun _ => none
  main : MainPc := .idle
  /-- how many connections have been accepted -/
  next : ℕ := 0
  closes : List Close := []

/-- One step of one thread. -/
inductive Action where
  | accept (fd : ℕ)
  /-- the constructor of `Connection`; `g` is what its own `socket()` returns -/
  | construct (fd k g : ℕ)
  | moveIntoConnections (fd k : ℕ)
  | deleteConnection (fd : ℕ)
  | channelDtor (k : ℕ) (o : Object)
  | sockDtor (k : ℕ) (o : Object)
  deriving DecidableEq, Repr

/-- When a step can be taken. -/
def guard (s : State) : Action → Prop
  | .accept fd => s.main = .idle ∧ s.table fd = none
  | .construct fd k g => s.main = .accepted fd k ∧ s.table g = none
  | .moveIntoConnections fd k => s.main = .constructed fd k
  | .deleteConnection _ => True
  -- the last reference is gone
  | .channelDtor k o => s.object k = some o ∧ o.held = false ∧ o.phase = .alive
  | .sockDtor k o => s.object k = some o ∧ o.phase = .channelGone

open Function (update)

/-- The reference of `connections_` under `fd` goes away. -/
def State.release (s : State) (fd : ℕ) : ℕ → Option Object :=
  match s.connections fd with
  | some k => update s.object k ((s.object k).map fun o => { o with held := false })
  | none => s.object

/-- `if (fd_ != -1) close(fd_);` in the destruction of connection `k`. -/
def State.closeFd (s : State) (k : ℕ) : Option ℕ → State
  | some fd =>
      { s with table := update s.table fd none, closes := s.closes ++ [⟨k, fd, s.table fd⟩] }
  | none => s

/-- What a step does. -/
def effect (s : State) : Action → State
  | .accept fd =>
      { s with table := update s.table fd (some (.connection s.next)),
               main := .accepted fd s.next, next := s.next + 1 }
  | .construct fd k g =>
      { s with table := update s.table g (some .leaked),
               object := update s.object k (some { sockFd := some fd, channelFd := some fd }),
               main := .constructed fd k }
  -- a connection that was registered under the same descriptor is replaced
  | .moveIntoConnections fd k =>
      { s with object := s.release fd, connections := update s.connections fd (some k),
               main := .idle }
  | .deleteConnection fd =>
      { s with object := s.release fd, connections := update s.connections fd none }
  | .channelDtor k o =>
      { s.closeFd k o.channelFd with
          object := update s.object k (some { o with channelFd := none, phase := .channelGone }) }
  | .sockDtor k o =>
      { s.closeFd k o.sockFd with
          object := update s.object k (some { o with sockFd := none, phase := .destroyed }) }

instance decidableGuard (s : State) : ∀ a, Decidable (guard s a)
  | .accept _ => inferInstanceAs (Decidable (_ ∧ _))
  | .construct _ _ _ => inferInstanceAs (Decidable (_ ∧ _))
  | .moveIntoConnections _ _ => inferInstanceAs (Decidable (s.main = _))
  | .deleteConnection _ => inferInstanceAs (Decidable True)
  | .channelDtor _ _ => inferInstanceAs (Decidable (_ ∧ _ ∧ _))
  | .sockDtor _ _ => inferInstanceAs (Decidable (_ ∧ _))

/-- Before the first `accept`, with any descriptors open. -/
def machine : Machine State Action :=
  Machine.guarded
    (fun s => ∃ table : ℕ → Option Owner, s = { table } ∧ ∀ fd k, table fd ≠ some (.connection k))
    guard effect

end CppServer.Descriptors
