import CppServer.Core.Channel
import CppServer.Core.Connection
import CppServer.Lib.Machine

/-!
# How a new connection becomes visible

`Server::NewConnection` on the main reactor, one statement at a time, against the sub reactors'
epoll loops.  A connection is registered with a running loop by the first statement that has an
effect, `EnableRead` in the constructor, and nine statements are still to come.

`n` sub reactors serve the descriptors by their remainder mod `n`.  A sub reactor polls, handles
the channels of its batch one after the other, and for each of them reads and calls the server's
on_message callback.  An unset `std::function` throws when it is called, and so does
`shared_from_this()` before `connections_` owns the connection; an exception ends the loop.

What is read is not part of this model, and no connection is deleted in it.
-/

namespace CppServer.Publication

/-- The statements of `NewConnection` that another thread can tell apart, the constructor's
included. -/
inductive Statement where
  | enableRead
  | useET
  | newReadBuffer
  | newWriteBuffer
  | setConnected
  | setDeleteConnectionCallBack
  | setOnMessageCallBack
  | setReadCallBack
  | moveIntoConnections
  | callOnConnection
  deriving DecidableEq, Repr

/-- `Server::NewConnection`, from the point at which `sock_` and `channel_` exist. -/
def newConnection : List Statement :=
  [.enableRead, .useET, .newReadBuffer, .newWriteBuffer, .setConnected,
    .setDeleteConnectionCallBack, .setOnMessageCallBack, .setReadCallBack, .moveIntoConnections,
    .callOnConnection]

/-- A connection, finished or not: which of its members are set, whether `connections_` owns it,
and whether its on_connection callback has returned. -/
structure Nascent where
  channel : Channel
  readBuffer : Bool := false
  writeBuffer : Bool := false
  state : ConnState := .invalid
  deleteConnectionCallback : Bool := false
  onMessageCallback : Bool := false
  owned : Bool := false
  announced : Bool := false
  deriving DecidableEq, Repr

/-- What a statement does to the connection. -/
def Statement.exec (c : Nascent) : Statement → Nascent
  | .enableRead => { c with channel := c.channel.enableRead.2 }
  | .useET => { c with channel := c.channel.useET.2 }
  | .newReadBuffer => { c with readBuffer := true }
  | .newWriteBuffer => { c with writeBuffer := true }
  | .setConnected => { c with state := .connected }
  | .setDeleteConnectionCallBack => { c with deleteConnectionCallback := true }
  | .setOnMessageCallBack => { c with onMessageCallback := true }
  | .setReadCallBack => { c with channel := c.channel.setReadCallBack }
  | .moveIntoConnections => { c with owned := true }
  | .callOnConnection => { c with announced := true }

/-- A connection after some statements. -/
def Nascent.after (c : Nascent) (done : List Statement) : Nascent := done.foldl Statement.exec c

/-- The connection `Connection(loop, fd)` starts from. -/
def Nascent.start (fd : ℕ) : Nascent := { channel := { fd } }

/-- Nothing a handler needs is missing. -/
structure Nascent.Published (c : Nascent) : Prop where
  readCallback : c.channel.readCallback = true
  readBuffer : c.readBuffer = true
  writeBuffer : c.writeBuffer = true
  onMessageCallback : c.onMessageCallback = true
  owned : c.owned = true
  announced : c.announced = true

/-- Where a sub reactor is in its loop, with the channels of the batch still to be handled. -/
inductive SubPc where
  | polling
  | dispatching (batch : List (ℕ × UInt32))
  /-- in `BusinessLogic`, about to read -/
  | reading (fd : ℕ) (mask : UInt32) (rest : List (ℕ × UInt32))
  /-- in `BusinessLogic`, about to call the on_message callback -/
  | messaging (fd : ℕ) (mask : UInt32) (rest : List (ℕ × UInt32))
  /-- an exception has left the loop -/
  | dead
  deriving DecidableEq, Repr

/-- The channels a sub reactor has still to deal with. -/
def SubPc.pending : SubPc → List ℕ
  | .dispatching batch => batch.map Prod.fst
  | .reading fd _ rest => fd :: rest.map Prod.fst
  | .messaging fd _ rest => fd :: rest.map Prod.fst
  | _ => []

/-- The connections, the epoll sets, and where the threads are. -/
structure State where
  conn : ℕ → Option Nascent := fun _ => none
  /-- the mask a descriptor is registered with, in the epoll set of its sub reactor -/
  interest : ℕ → Option UInt32 := fun _ => none
  /-- there is something to read -/
  hasData : ℕ → Bool := fun _ => false
  /-- the descriptor `NewConnection` is at work on, and the statements still to come -/
  main : Option (ℕ × List Statement) := none
  sub : ℕ → SubPc := fun _ => .polling

/-- One step of one thread, or of a peer. -/
inductive Action where
  | accept (fd : ℕ)
  /-- the next statement of `NewConnection` -/
  | build (fd : ℕ) (st : Statement) (rest : List Statement)
  | send (fd : ℕ)
  | poll (r : ℕ) (batch : List (ℕ × UInt32))
  /-- `HandleEvent` on the next channel of the batch -/
  | handle (r : ℕ) (fd : ℕ) (mask : UInt32) (rest : List (ℕ × UInt32))
  | endOfBatch (r : ℕ)
  | read (r : ℕ) (fd : ℕ) (mask : UInt32) (rest : List (ℕ × UInt32))
  | message (r : ℕ) (fd : ℕ) (mask : UInt32) (rest : List (ℕ × UInt32))
  deriving DecidableEq, Repr

/-- `NewConnection` is at work on a descriptor. -/
def State.underWay (s : State) (fd : ℕ) : Prop := ∃ rest, s.main = some (fd, rest)

/-- What `epoll_wait` may report to sub reactor `r`: a descriptor of its epoll set with something
to read, and a mask it is registered for. -/
def State.ready (n : ℕ) (s : State) (r : ℕ) (event : ℕ × UInt32) : Bool :=
  event.1 % n == r && s.hasData event.1 &&
    (s.interest event.1).any fun mask => reportable mask event.2

/-- When a step can be taken. -/
def guard (n : ℕ) (s : State) : Action → Prop
  -- with no sub reactors `fd % sub_reactors_.size()` would be undefined
  | .accept fd => 0 < n ∧ s.main = none ∧ s.conn fd = none
  | .build fd st rest => s.main = some (fd, st :: rest)
  | .send fd => s.conn fd ≠ none
  | .poll r batch => s.sub r = .polling ∧ batch.length ≤ MAX_EVENTS ∧
      (batch.map Prod.fst).Nodup ∧ batch.all (s.ready n r) = true
  | .handle r fd mask rest => s.sub r = .dispatching ((fd, mask) :: rest)
  | .endOfBatch r => s.sub r = .dispatching []
  | .read r fd mask rest => s.sub r = .reading fd mask rest
  | .message r fd mask rest => s.sub r = .messaging fd mask rest

/-- `HandleEvent` behind its read callback: nobody ever sets a write callback. -/
def afterRead (mask : UInt32) (rest : List (ℕ × UInt32)) : SubPc :=
  if wantsWrite mask then .dead else .dispatching rest

/-- The read callback is set. -/
def State.callable (s : State) (fd : ℕ) : Bool :=
  (s.conn fd).any fun c => c.channel.readCallback

/-- `BusinessLogic` gets past `shared_from_this()` and the call of the on_message callback. -/
def State.answerable (s : State) (fd : ℕ) : Bool :=
  (s.conn fd).any fun c => c.owned && c.onMessageCallback

open Function (update)

/-- The mask a descriptor is registered with after a statement. -/
def State.register (s : State) (fd : ℕ) : Statement → ℕ → Option UInt32
  | .enableRead =>
      update s.interest fd ((s.conn fd).map fun c => c.channel.enableRead.2.listenEvents)
  | .useET =>
      update s.interest fd ((s.conn fd).map fun c => c.channel.useET.2.listenEvents)
  | _ => s.interest

/-- What a step does. -/
def effect (s : State) : Action → State
  | .accept fd =>
      { s with conn := update s.conn fd (some (.start fd)), main := some (fd, newConnection) }
  | .build fd st rest =>
      { s with conn := update s.conn fd ((s.conn fd).map fun c => st.exec c),
               interest := s.register fd st,
               main := if rest = [] then none else some (fd, rest) }
  | .send fd => { s with hasData := update s.hasData fd true }
  | .poll r batch => { s with sub := update s.sub r (.dispatching batch) }
  | .handle r fd mask rest =>
      let next : SubPc :=
        if wantsRead mask then
          if s.callable fd then .reading fd mask rest else .dead
        else afterRead mask rest
      { s with sub := update s.sub r next }
  | .endOfBatch r => { s with sub := update s.sub r .polling }
  | .read r fd mask rest =>
      { s with sub := update s.sub r (.messaging fd mask rest),
               hasData := update s.hasData fd false }
  | .message r fd mask rest =>
      let next : SubPc := if s.answerable fd then afterRead mask rest else .dead
      { s with sub := update s.sub r next }

instance decidableGuard (n : ℕ) (s : State) : ∀ a, Decidable (guard n s a)
  | .accept _ => inferInstanceAs (Decidable (_ ∧ _ ∧ _))
  | .build _ _ _ => inferInstanceAs (Decidable (s.main = _))
  | .send fd => inferInstanceAs (Decidable (¬ s.conn fd = _))
  | .poll _ _ => inferInstanceAs (Decidable (_ ∧ _ ∧ _ ∧ _))
  | .handle r _ _ _ => inferInstanceAs (Decidable (s.sub r = _))
  | .endOfBatch r => inferInstanceAs (Decidable (s.sub r = _))
  | .read r _ _ _ => inferInstanceAs (Decidable (s.sub r = _))
  | .message r _ _ _ => inferInstanceAs (Decidable (s.sub r = _))

/-- A server with `n` sub reactors, all of them polling, and no connection yet. -/
def machine (n : ℕ) : Machine State Action :=
  Machine.guarded (fun s => s = {}) (guard n) effect

end CppServer.Publication
