import CppServer.Core.Channel
import CppServer.Lib.Machine
import CppServer.Lib.RefCount

/-!
# `EventLoop::Loop` and the lifetime of connections

One reactor, with the connections it serves.  A connection and its channel are one entry of an
object table; what is kept of it is the `ready_events_` of the channel.  An entry disappears with
the last shared pointer to the connection.  `connections_` holds one, and `BusinessLogic` passes
another to the on_message callback, `shared_from_this()`, which goes away when the callback
returns.  The application may keep pointers of its own.

`Poll` leaves raw pointers to channels in the batch, and `HandleEvent` is a member function of
such a channel: it reads `ready_events_` for its first test, and again after the read callback has
returned.  Reading a field of a channel that is gone is undefined, here the end of the run in
`fault`.

`epoll_wait` reports no descriptor twice, and none of a connection that does not exist any more:
its descriptor was closed with it (`Registry.registry_coherent`).  Nobody sets a write callback.
-/

namespace CppServer.Lifetime

open Function (update)

/-- Where the loop is, with the channels still to be handled. -/
inductive Pc where
  | polling
  | dispatching (batch : List ℕ)
  /-- in the on_message callback of `k` -/
  | inCallback (k : ℕ) (rest : List ℕ)
  /-- in `HandleEvent` of `k`, about to test for its write callback -/
  | testingWrite (k : ℕ) (rest : List ℕ)
  /-- an exception has left the loop -/
  | thrown
  | fault
  deriving DecidableEq, Repr

/-- The channels the loop will look at again, with the one it is handling. -/
def Pc.pending : Pc → List ℕ
  | .dispatching batch => batch
  | .inCallback k rest => k :: rest
  | .testingWrite k rest => k :: rest
  | _ => []

/-- How many shared pointers to `k` the running callback was passed. -/
def Pc.passed : Pc → ℕ → ℕ
  | .inCallback j _, k => if j = k then 1 else 0
  | _, _ => 0

structure State where
  object : RefCount.Table ℕ UInt32 := fun _ => none
  registered : ℕ → Bool := fun _ => false
  /-- how many shared pointers to each connection the application keeps -/
  retained : ℕ → ℕ := fun _ => 0
  next : ℕ := 0
  pc : Pc := .polling

inductive Action where
  /-- the main reactor registers a new connection -/
  | connect
  /-- `epoll_wait` reports these channels, with these events -/
  | poll (batch : List (ℕ × UInt32))
  /-- `HandleEvent` on the next channel of the batch, up to the start of the callback -/
  | handle (k : ℕ) (rest : List ℕ)
  /-- the callback calls `Close` on connection `j` -/
  | close (j : ℕ)
  /-- the callback copies a shared pointer to `j` to where it outlives the callback -/
  | keep (j : ℕ)
  | drop (j : ℕ)
  | callbackReturns (k : ℕ) (rest : List ℕ)
  | callbackThrows (k : ℕ) (rest : List ℕ)
  /-- the second test of `HandleEvent` -/
  | testWrite (k : ℕ) (rest : List ℕ)
  | endOfBatch
  deriving DecidableEq, Repr

/-- The loop is inside the callback of some connection. -/
def Pc.isCallback : Pc → Bool
  | .inCallback _ _ => true
  | _ => false

/-- When a step can be taken. -/
def guard (s : State) : Action → Prop
  | .connect => True
  | .poll batch =>
      s.pc = .polling ∧ (batch.map Prod.fst).Nodup ∧ ∀ p ∈ batch, (s.object p.1).isSome
  | .handle k rest => s.pc = .dispatching (k :: rest)
  -- a callback has no pointers to connections that do not exist
  | .close j => s.pc.isCallback = true ∧ (s.object j).isSome
  | .keep j => s.pc.isCallback = true ∧ (s.object j).isSome
  | .drop j => s.pc.isCallback = true ∧ 0 < s.retained j
  | .callbackReturns k rest => s.pc = .inCallback k rest
  | .callbackThrows k rest => s.pc = .inCallback k rest
  | .testWrite k rest => s.pc = .testingWrite k rest
  | .endOfBatch => s.pc = .dispatching []

/-- `ch->SetReadyEvents(events_[i].events)`, for a whole batch. -/
def setReadyEvents : RefCount.Table ℕ UInt32 → List (ℕ × UInt32) → RefCount.Table ℕ UInt32
  | t, [] => t
  | t, (k, events) :: batch => setReadyEvents (RefCount.modify (fun _ => events) t k) batch

/-- What a step does. -/
def effect (s : State) : Action → State
  | .connect =>
      { s with object := RefCount.create s.object s.next 0,
               registered := update s.registered s.next true, next := s.next + 1 }
  | .poll batch =>
      { s with object := setReadyEvents s.object batch,
               pc := .dispatching (batch.map Prod.fst) }
  | .handle k rest =>
      match s.object k with
      | none => { s with pc := .fault }
      | some ch =>
          if wantsRead ch.val then
            { s with object := RefCount.retain s.object k, pc := .inCallback k rest }
          else { s with pc := .testingWrite k rest }
  -- `Server::DeleteConnection`
  | .close j =>
      if s.registered j then
        { s with registered := update s.registered j false,
                 object := RefCount.release s.object j }
      else s
  | .keep j =>
      { s with object := RefCount.retain s.object j,
               retained := update s.retained j (s.retained j + 1) }
  | .drop j =>
      { s with object := RefCount.release s.object j,
               retained := update s.retained j (s.retained j - 1) }
  | .callbackReturns k rest =>
      { s with object := RefCount.release s.object k, pc := .testingWrite k rest }
  | .callbackThrows k _ => { s with object := RefCount.release s.object k, pc := .thrown }
  | .testWrite k rest =>
      match s.object k with
      | none => { s with pc := .fault }
      -- a call of the unset `write_callback_` throws
      | some ch =>
          if wantsWrite ch.val then { s with pc := .thrown }
          else { s with pc := .dispatching rest }
  | .endOfBatch => { s with pc := .polling }

instance decidableGuard (s : State) : ∀ a, Decidable (guard s a)
  | .connect => inferInstanceAs (Decidable True)
  | .poll _ => inferInstanceAs (Decidable (_ ∧ _ ∧ _))
  | .handle _ _ => inferInstanceAs (Decidable (s.pc = _))
  | .close _ => inferInstanceAs (Decidable (_ ∧ _))
  | .keep _ => inferInstanceAs (Decidable (_ ∧ _))
  | .drop _ => inferInstanceAs (Decidable (_ ∧ _))
  | .callbackReturns _ _ => inferInstanceAs (Decidable (s.pc = _))
  | .callbackThrows _ _ => inferInstanceAs (Decidable (s.pc = _))
  | .testWrite _ _ => inferInstanceAs (Decidable (s.pc = _))
  | .endOfBatch => inferInstanceAs (Decidable (s.pc = _))

/-- A reactor before its first connection. -/
def machine : Machine State Action := Machine.guarded (fun s => s = {}) guard effect

end CppServer.Lifetime
