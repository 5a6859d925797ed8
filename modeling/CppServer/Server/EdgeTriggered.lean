import CppServer.Core.Channel
import CppServer.Core.Connection
import CppServer.Lib.Machine

/-!
# Edge-triggered epoll under the read loops

Connections that `NewConnection` has finished registering, their kernel receive queues, and the
sub reactors' loops down to the single `::read` of `ReadNonBlocking`.

The kernel keeps its edge-triggered contract: an edge is queued for a registered descriptor when
data or end of file arrives, and when `EPOLL_CTL_ADD` or `MOD` finds it readable.  `epoll_wait`
returns some of the queued edges, at most `MAX_EVENTS`, and they are queued no longer; an edge
whose descriptor is no longer ready is dropped instead.

Connections are known by the order of their acceptance, so a number that is used again belongs to
another connection.  An on_message callback may close any connection for errors of its writes, and
delete any.  Handling the channel of a deleted connection is undefined: such a step does not
exist.
-/

namespace CppServer.EdgeTriggered

/-- The mask every connection is registered with. -/
def listenEvents : UInt32 := EPOLLIN ||| EPOLLPRI ||| EPOLLET

/-- A registered connection, and the kernel's side of it. -/
structure Peer where
  conn : Connection
  /-- the sub reactor that polls it -/
  loop : ℕ
  /-- received by the kernel, not yet read -/
  queue : List UInt8
  /-- the peer has shut down its sending side -/
  fin : Bool
  /-- an edge is queued in the epoll set -/
  edge : Bool
  deleted : Bool := false
  deriving DecidableEq, Repr

/-- There are bytes to read, or end of file. -/
def Peer.readable (p : Peer) : Bool := !p.queue.isEmpty || p.fin

/-- Where a sub reactor is in its loop, with the rest of the batch. -/
inductive SubPc where
  | polling
  | dispatching (batch : List (ℕ × UInt32))
  /-- in `ReadNonBlocking`, about to call `::read` -/
  | reading (c : ℕ) (rest : List (ℕ × UInt32))
  /-- about to call the on_message callback -/
  | messaging (c : ℕ) (rest : List (ℕ × UInt32))
  deriving DecidableEq, Repr

/-- The channels of the batch that are still to be handled. -/
def SubPc.batch : SubPc → List (ℕ × UInt32)
  | .polling => []
  | .dispatching batch => batch
  | .reading _ rest => rest
  | .messaging _ rest => rest

/-- The read loop of connection `c` is running. -/
def SubPc.isReading (c : ℕ) : SubPc → Prop
  | .reading d _ => d = c
  | _ => False

structure State where
  peer : ℕ → Option Peer := fun _ => none
  sub : ℕ → SubPc := fun _ => .polling

/-- One step of a thread, a peer or the kernel. -/
inductive Action where
  /-- `NewConnection`, with what has arrived on the descriptor before -/
  | newConnection (c fd : ℕ) (queue : List UInt8) (fin : Bool)
  | send (c : ℕ) (data : List UInt8)
  | shutdown (c : ℕ)
  | poll (r : ℕ) (batch : List (ℕ × UInt32))
  /-- `epoll_wait` finds that the descriptor of a queued edge is not ready -/
  | dropEdge (r c : ℕ)
  | handle (r c : ℕ) (mask : UInt32) (rest : List (ℕ × UInt32))
  /-- one call of `::read`, with its answer -/
  | read (r c : ℕ) (rest : List (ℕ × UInt32)) (answer : ReadResult)
  /-- the on_message callback, with the connections it closes and deletes -/
  | message (r c : ℕ) (rest : List (ℕ × UInt32)) (closes deletes : List ℕ)
  | endOfBatch (r : ℕ)
  deriving Repr

/-- What the kernel may answer to `::read`. -/
def Peer.mayAnswer (p : Peer) : ReadResult → Bool
  | .ok [] => p.queue.isEmpty && p.fin
  | .ok data => data.isPrefixOf p.queue && decide (data.length ≤ BUFFER_SIZE)
  | .error .EAGAIN => p.queue.isEmpty && !p.fin
  | .error .EINTR => true
  | .error (.other _) => true

/-- What `epoll_wait` may return to sub reactor `r`. -/
def Peer.mayReport (p : Peer) (r : ℕ) (mask : UInt32) : Bool :=
  p.edge && !p.deleted && p.loop == r && reportable listenEvents mask &&
    (!p.readable || mask &&& EPOLLIN != 0)

/-- A property of a connection that exists and is not deleted. -/
def State.live (s : State) (c : ℕ) (P : Peer → Bool) : Bool :=
  (s.peer c).any fun p => !p.deleted && P p

/-- When a step can be taken. -/
def guard (n : ℕ) (s : State) : Action → Prop
  -- with no sub reactors `fd % sub_reactors_.size()` would be undefined
  | .newConnection c _ _ _ => s.peer c = none ∧ 0 < n
  | .send c data => data ≠ [] ∧ s.live c (fun p => !p.fin) = true
  | .shutdown c => s.live c (fun p => !p.fin) = true
  | .poll r batch => s.sub r = .polling ∧ batch.length ≤ MAX_EVENTS ∧
      (batch.map Prod.fst).Nodup ∧
      batch.all (fun event => (s.peer event.1).any fun p => p.mayReport r event.2) = true
  | .dropEdge r c => s.sub r = .polling ∧
      s.live c (fun p => p.edge && p.loop == r && !p.readable) = true
  | .handle r c mask rest => s.sub r = .dispatching ((c, mask) :: rest) ∧
      s.live c (fun _ => true) = true
  | .read r c rest answer => s.sub r = .reading c rest ∧
      s.live c (fun p => p.mayAnswer answer) = true
  | .message r c rest _ _ => s.sub r = .messaging c rest ∧ s.live c (fun _ => true) = true
  | .endOfBatch r => s.sub r = .dispatching []

open Function (update)

/-- A connection as `NewConnection` leaves it, on the non-blocking socket of the acceptor. -/
def Peer.new (n fd : ℕ) (queue : List UInt8) (fin : Bool) : Peer where
  conn := { readBuffer := {}, writeBuffer := {}, sock := { fd, nonBlocking := true },
            state := .connected }
  loop := fd % n
  queue := queue
  fin := fin
  edge := !queue.isEmpty || fin

/-- Change connection `c`, if there is one. -/
def State.modify (s : State) (c : ℕ) (f : Peer → Peer) : State :=
  { s with peer := update s.peer c ((s.peer c).map f) }

/-- Data or end of file arrives. -/
def Peer.arrive (p : Peer) (data : List UInt8) (fin : Bool) : Peer :=
  { p with queue := p.queue ++ data, fin := p.fin || fin, edge := true }

/-- `epoll_wait` has returned the edges of the batch. -/
def Peer.polled (batch : List (ℕ × UInt32)) (c : ℕ) (p : Peer) : Peer :=
  if c ∈ batch.map Prod.fst then { p with edge := false } else p

/-- The kernel hands out what it answers, and an iteration of the read loop deals with it. -/
def Peer.step (p : Peer) (answer : ReadResult) : Peer :=
  { p with conn := (p.conn.readBody answer).1,
           queue := p.queue.drop (answer.toOption.getD []).length }

/-- Where the read loop is after an answer. -/
def afterAnswer (p : Peer) (answer : ReadResult) (c : ℕ) (rest : List (ℕ × UInt32)) : SubPc :=
  match (p.conn.readBody answer).2 with
  | .again => .reading c rest
  | .stop => .messaging c rest

/-- What an on_message callback does to a connection. -/
def Peer.touched (closes deletes : List ℕ) (c : ℕ) (p : Peer) : Peer :=
  { p with conn := if c ∈ closes then { p.conn with state := .closed } else p.conn,
           deleted := p.deleted || decide (c ∈ deletes) }

/-- `HandleEvent` up to the first `::read`: the masks in use never ask for the write callback. -/
def State.handle (s : State) (r c : ℕ) (mask : UInt32) (rest : List (ℕ × UInt32)) : State :=
  if wantsRead mask then
    if (s.peer c).any fun p => p.conn.state = .connected then
      { s.modify c fun p =>
          { p with conn := { p.conn with readBuffer := p.conn.readBuffer.clearBuffer } } with
        sub := update s.sub r (.reading c rest) }
    else { s with sub := update s.sub r (.messaging c rest) }
  else { s with sub := update s.sub r (.dispatching rest) }

/-- What a step does. -/
def effect (n : ℕ) (s : State) : Action → State
  | .newConnection c fd queue fin =>
      { s with peer := update s.peer c (some (.new n fd queue fin)) }
  | .send c data => s.modify c fun p => p.arrive data false
  | .shutdown c => s.modify c fun p => p.arrive [] true
  | .poll r batch =>
      { peer := fun c => (s.peer c).map (Peer.polled batch c),
        sub := update s.sub r (.dispatching batch) }
  | .dropEdge _ c => s.modify c fun p => { p with edge := false }
  | .handle r c mask rest => s.handle r c mask rest
  | .read r c rest answer =>
      match s.peer c with
      | some p => { s.modify c fun p => p.step answer with
                    sub := update s.sub r (afterAnswer p answer c rest) }
      | none => s
  | .message r _ rest closes deletes =>
      { peer := fun d => (s.peer d).map (Peer.touched closes deletes d),
        sub := update s.sub r (.dispatching rest) }
  | .endOfBatch r => { s with sub := update s.sub r .polling }

instance decidableGuard (n : ℕ) (s : State) : ∀ a, Decidable (guard n s a)
  | .newConnection c _ _ _ =>
      inferInstanceAs (Decidable (s.peer c = none ∧ _))
  | .send _ _ => inferInstanceAs (Decidable (_ ∧ _))
  | .shutdown _ => inferInstanceAs (Decidable (_ = true))
  | .poll _ _ => inferInstanceAs (Decidable (_ ∧ _ ∧ _ ∧ _))
  | .dropEdge _ _ => inferInstanceAs (Decidable (_ ∧ _))
  | .handle _ _ _ _ => inferInstanceAs (Decidable (_ ∧ _))
  | .read _ _ _ _ => inferInstanceAs (Decidable (_ ∧ _))
  | .message _ _ _ _ _ => inferInstanceAs (Decidable (_ ∧ _))
  | .endOfBatch r => inferInstanceAs (Decidable (s.sub r = _))

/-- `n` sub reactors, all of them polling, and no connection yet. -/
def machine (n : ℕ) : Machine State Action :=
  Machine.guarded (fun s => s = {}) (guard n) (effect n)

end CppServer.EdgeTriggered
