import Mathlib.Data.Int.Notation
import CppServer.Lib.Machine
import CppServer.Lib.RefCount
import CppServer.Core.Channel
import CppServer.Server.Descriptors

/-!
# The registry of connections

`connections_`, the shared pointers of the application, the descriptor table and the epoll sets of
all reactors.  An accept with its `NewConnection`, a `DeleteConnection` and the destruction of a
connection with its last reference are one step each.  How a destruction comes apart into the
destructors of its members is the subject of `Server/Descriptors.lean`; here `sock_` closes a
descriptor that `channel_` has just closed, and nothing happens in between.

`close` takes a descriptor out of every epoll set, and `epoll_ctl` succeeds.  The constructor of
`Connection` opens a socket of its own, whose descriptor is overwritten.  If that `socket()` fails
the constructor throws, and nothing refers to the accepted descriptor any more: `clnt_sock` of
`AcceptConnection` is never deleted.

Connections are known by the order of their construction.  The fields `ctls` and `displaced` are
history: no step reads them.
-/

namespace CppServer.Registry

open Descriptors (Owner)
open Function (update)

/-- The main reactor, and the sub reactors by their index. -/
inductive Reactor where
  | main
  | sub (i : ℕ)
  deriving DecidableEq, Repr

/-- `Connection`, as far as the registry goes. -/
structure Conn where
  sockFd : ℕ
  channel : Channel
  deriving DecidableEq, Repr

/-- A call of `epoll_ctl`, and whether the descriptor was in the set then. -/
structure Ctl where
  op : EpollCtl
  present : Bool
  deriving DecidableEq, Repr

/-- `EPOLL_CTL_ADD` is for descriptors not in the set, `EPOLL_CTL_MOD` for those in it. -/
def Ctl.Legal (c : Ctl) : Prop := c.present = true ↔ c.op = .MOD

structure State where
  table : ℕ → Option Owner
  /-- the epoll sets: for each descriptor in it, the events it is registered for -/
  epoll : Reactor → ℕ → Option UInt32
  object : RefCount.Table ℕ Conn := fun _ => none
  connections : ℤ → Option ℕ := fun _ => none
  /-- how many shared pointers to each connection the application holds -/
  retained : ℕ → ℕ := fun _ => 0
  /-- how many connections have been constructed -/
  next : ℕ := 0
  ctls : List Ctl := []
  /-- the connections `NewConnection` found registered under its descriptor -/
  displaced : List ℕ := []

inductive Action where
  /-- an accept that returns `fd`, then `NewConnection`; `g` is what the `socket()` of the
  constructor returns, `none` for `-1` -/
  | newConnection (fd : ℕ) (g : Option ℕ)
  | deleteConnection (x : ℤ)
  /-- the application copies a shared pointer to connection `k` -/
  | retain (k : ℕ)
  | drop (k : ℕ)
  deriving DecidableEq, Repr

/-! ## The kernel -/

/-- `close(fd)` -/
def State.close (s : State) (fd : ℕ) : State :=
  { s with table := update s.table fd none, epoll := fun r => update (s.epoll r) fd none }

/-- `epoll_ctl` on the set of reactor `r`, as `UpdateChannel` issues it. -/
def State.epollCtl (s : State) (r : Reactor) (issued : EpollCtl × Channel) : State :=
  { s with
      epoll := update s.epoll r
        (update (s.epoll r) issued.2.fd (some issued.2.listenEvents)),
      ctls := s.ctls ++ [⟨issued.1, (s.epoll r issued.2.fd).isSome⟩] }

/-! ## The server -/

/-- `~Connection`: first its channel closes the descriptor, then its socket does. -/
def State.destroy (s : State) (c : Conn) : State := (s.close c.channel.fd).close c.sockFd

/-- One shared pointer to connection `k` goes away. -/
def State.release (s : State) (k : ℕ) : State :=
  let s' := { s with object := RefCount.release s.object k }
  match RefCount.dropped s.object k with
  | some c => s'.destroy c
  | none => s'

/-- The sub reactor `NewConnection` chooses. -/
def choose (n fd : ℕ) : Reactor := .sub (fd % n)

/-- The constructor of `Connection`, and the read callback `SetOnMessageCallBack` sets. -/
def State.construct (s : State) (n fd g : ℕ) : State :=
  let enabled := Channel.enableRead { fd }
  let et := enabled.2.useET
  let s' := { s with table := update s.table g (some .leaked) }
  let s'' := (s'.epollCtl (choose n fd) enabled).epollCtl (choose n fd) et
  { s'' with
      object := RefCount.create s.object s.next { sockFd := fd, channel := et.2.setReadCallBack },
      next := s.next + 1 }

/-- `connections_[fd] = std::move(conn)` -/
def State.register (s : State) (fd k : ℕ) : State :=
  let s' := { s with connections := update s.connections fd (some k) }
  match s.connections fd with
  | some old => { s'.release old with displaced := s.displaced ++ [old] }
  | none => s'

/-- `connections_.erase(fd)`, if there is such an entry. -/
def State.erase (s : State) (fd : ℤ) : State :=
  match s.connections fd with
  | some k => { s with connections := update s.connections fd none }.release k
  | none => s

/-- `Server::DeleteConnection` -/
def State.deleteConnection (s : State) (x : ℤ) : State := if x ≠ -1 then s.erase x else s

/-- `AcceptConnection` and `NewConnection` -/
def State.newConnection (s : State) (n fd : ℕ) : Option ℕ → State
  | none => { s with table := update s.table fd (some .leaked) }
  | some g =>
      ({ s with table := update s.table fd (some (.connection s.next)) }.construct n fd g).register
        fd s.next

/-- When a step can be taken: the kernel returns descriptors that are not open, and only those
hold a shared pointer who got one. -/
def guard (n : ℕ) (s : State) : Action → Prop
  -- with no sub reactors `fd % sub_reactors_.size()` would be undefined
  | .newConnection fd g => 0 < n ∧ s.table fd = none ∧ ∀ g' ∈ g, s.table g' = none ∧ g' ≠ fd
  | .deleteConnection _ => True
  | .retain k => (s.object k).isSome
  | .drop k => 0 < s.retained k

/-- What a step does. -/
def effect (n : ℕ) (s : State) : Action → State
  | .newConnection fd g => s.newConnection n fd g
  | .deleteConnection x => s.deleteConnection x
  | .retain k =>
      { s with object := RefCount.retain s.object k,
               retained := update s.retained k (s.retained k + 1) }
  | .drop k => { s with retained := update s.retained k (s.retained k - 1) }.release k

instance decidableGuard (n : ℕ) (s : State) : ∀ a, Decidable (guard n s a)
  | .newConnection fd none => decidable_of_iff (0 < n ∧ s.table fd = none) (by simp [guard])
  | .newConnection fd (some g) =>
      decidable_of_iff (0 < n ∧ s.table fd = none ∧ s.table g = none ∧ g ≠ fd) (by simp [guard])
  | .deleteConnection _ => inferInstanceAs (Decidable True)
  | .retain k => inferInstanceAs (Decidable ((s.object k).isSome = true))
  | .drop k => inferInstanceAs (Decidable (0 < s.retained k))

/-- Before the first accept: no connection owns a descriptor, the sets of the sub reactors are
empty, and no set holds a descriptor that is not open. -/
structure Started (s : State) : Prop where
  owner : ∀ fd k, s.table fd ≠ some (.connection k)
  sub : ∀ i fd, s.epoll (.sub i) fd = none
  watched : ∀ r fd, s.epoll r fd ≠ none → s.table fd ≠ none
  fresh : s = { table := s.table, epoll := s.epoll }

/-- A server with `n` sub reactors. -/
def machine (n : ℕ) : Machine State Action := Machine.guarded Started (guard n) (effect n)

end CppServer.Registry
