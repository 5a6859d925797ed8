import CppServer.Server.Answering
import CppServer.Server.Drained

/-!
# The echo service

The echo server on its sub reactors, and any number of the clients that come with it.  A client
has a blocking connection of its own, and repeats: take a line, `Write` it, `Read` once, print what
has come.  What it writes arrives in segments, so a client may be shown less than the answer to its
line, and the rest after the next.

A reply is cut off where the kernel has no room for it, and a connection breaks or is closed by its
peer at any point.  Nothing is sent again, and nothing is sent twice.

* `inv_step` — the service runs the reactors, and what the clients have sent and been sent is what
  the history of the reactors says.
* `echo_in_order` — each client is shown what it has typed, in order, and without gaps while its
  connection is intact.
-/

namespace CppServer.EchoService

open Answering (may_iff move_eq act_reply act_net act_own)
open Connection (WriteOutcome replyOf readBufferCstr)
open EdgeTriggered
open Function (update update_self update_of_ne)

/-! ## The clients -/

/-- Where a client is in its loop. -/
inductive ClientPc where
  | prompt
  /-- in the `Read` that follows a line -/
  | reading (line : List UInt8)
  /-- it has come to its end -/
  | left
  deriving DecidableEq, Repr

structure Client where
  conn : Connection
  pc : ClientPc := .prompt
  /-- all lines it has sent, one after the other -/
  typed : List UInt8 := []
  /-- of these, what has not arrived at the server -/
  up : List UInt8 := []
  /-- sent back to it, not yet read -/
  down : List UInt8 := []
  /-- all it has printed of the server's messages -/
  shown : List UInt8 := []
  /-- a reply to it has been cut off -/
  cut : Bool := false
  deriving DecidableEq, Repr

/-- `Connect`, and the constructor of `Connection` without an event loop. -/
def Client.new (fd : ℕ) : Client where
  conn := { readBuffer := {}, writeBuffer := {}, sock := { fd, nonBlocking := false },
            state := .connected }

/-- `GetLineWriteBuffer` and `Write`, whose `::write` blocks until it has taken the line. -/
def Client.say (k : Client) (line : List UInt8) : Client :=
  match Connection.write { k.conn with writeBuffer := { buf := line } } [.ok line.length] with
  | .ok o => { k with conn := o.conn, pc := .reading line, typed := k.typed ++ o.accepted,
                      up := k.up ++ o.accepted }
  | .error _ => k

/-- `Read`, with what `::read` answers, and the output of `ReadBuffer`. -/
def Client.hear (k : Client) (answer : ReadResult) : Client :=
  match k.conn.read [answer] with
  | some (conn, _) =>
      { k with conn := conn, pc := .prompt, shown := k.shown ++ cString conn.readBufferCstr,
               down := k.down.drop (answer.toOption.getD []).length }
  | none => k

/-- The client is at its prompt.  Once it finds its connection closed it comes to its end. -/
def Client.maySay (k : Client) : Bool :=
  decide (k.pc = .prompt) && decide (k.conn.state = .connected)

/-- The client is in `Read`: it gets what has come for it, or the beginning of that, then end of
file, and an error at any time. -/
def Client.mayHear (k : Client) (answer : ReadResult) : Bool :=
  (match k.pc with
    | .reading _ => true
    | _ => false) &&
  match answer with
  | .ok [] => k.down.isEmpty
  | .ok data => data.isPrefixOf k.down
  | .error _ => true

/-- The callback has sent back what it could of what the event has read. -/
def Client.reply (k : Client) (c : Connection) (o : WriteOutcome) : Client :=
  { k with down := k.down ++ o.accepted,
           cut := k.cut || decide (c.state = .connected) && o.accepted != c.readBuffer.buf }

/-! ## The service -/

/-- The most bytes that `WriteNonBlocking` can send: it counts them with an `int`. -/
def WRITE_LIMIT : ℕ := 2 ^ 31

structure Service where
  net : EdgeTriggered.State := {}
  client : ℕ → Option Client := fun _ => none

/-- One step of a client, of the network, or of the server and its kernel. -/
inductive Move where
  | connect (c fd : ℕ)
  | say (c : ℕ) (line : List UInt8)
  | hear (c : ℕ) (answer : ReadResult)
  /-- the client is killed, or a `Write` of it has failed, or it has had its last answer -/
  | leave (c : ℕ)
  /-- a segment of what the client has sent arrives -/
  | arrive (c : ℕ) (data : List UInt8)
  /-- end of file arrives behind it -/
  | finish (c : ℕ)
  | serve (m : Answering.Move)
  deriving Repr

/-- What the server has received of a client and not answered: what the event under way has read,
and what the kernel still holds. -/
def Service.atServer (σ : Service) (c : ℕ) : List UInt8 :=
  match σ.net.peer c with
  | none => []
  | some p =>
      match (σ.net.sub p.loop).phase c with
      | .idle => p.queue
      | _ => p.conn.readBuffer.buf ++ p.queue

/-- What the server does beside what arrives from the clients.  A connection is accepted with what
has come from its client before. -/
def Service.serves (σ : Service) : Answering.Move → Bool
  | .net (.newConnection c _ queue fin) =>
      (σ.client c).any fun k => queue.isPrefixOf k.up && decide (queue.length < WRITE_LIMIT) &&
        (!fin || decide (k.pc = .left) && k.up == queue)
  | .net (.send _ _) => false
  | .net (.shutdown _) => false
  | _ => true

/-- When a step can be taken.  No event reads more than can be sent back. -/
def mayTake (n : ℕ) (σ : Service) : Move → Prop
  | .connect c _ => σ.client c = none
  | .say c line => (σ.client c).any Client.maySay = true ∧ 0 ∉ line
  | .hear c answer => (σ.client c).any (Client.mayHear · answer) = true
  | .leave c => (σ.client c).any (fun k => decide (k.pc ≠ .left)) = true
  | .arrive c data =>
      (σ.client c).any (fun k => data.isPrefixOf k.up) = true ∧
      data.length + (σ.atServer c).length < WRITE_LIMIT ∧ guard n σ.net (.send c data)
  | .finish c =>
      (σ.client c).any (fun k => decide (k.pc = .left) && k.up.isEmpty) = true ∧
      guard n σ.net (.shutdown c)
  | .serve m => Answering.may readBufferCstr n σ.net m ∧ σ.serves m = true

def Service.modify (σ : Service) (c : ℕ) (f : Client → Client) : ℕ → Option Client :=
  update σ.client c ((σ.client c).map f)

/-- What a step of the server brings to the clients, or takes from them. -/
def Service.served (σ : Service) : Answering.Move → ℕ → Option Client
  | .net (.newConnection c _ queue _) =>
      σ.modify c fun k => { k with up := k.up.drop queue.length }
  | .net _ => σ.client
  | .reply _ c _ writes =>
      (σ.net.peer c).elim σ.client fun p =>
        (replyOf readBufferCstr p.conn writes).elim σ.client fun o =>
          σ.modify c (Client.reply · p.conn o)

/-- What a step does. -/
def take (n : ℕ) (σ : Service) : Move → Service
  | .connect c fd => { σ with client := update σ.client c (some (.new fd)) }
  | .say c line => { σ with client := σ.modify c (Client.say · line) }
  | .hear c answer => { σ with client := σ.modify c (Client.hear · answer) }
  | .leave c => { σ with client := σ.modify c fun k => { k with pc := .left } }
  | .arrive c data =>
      { net := effect n σ.net (.send c data),
        client := σ.modify c fun k => { k with up := k.up.drop data.length } }
  | .finish c => { σ with net := effect n σ.net (.shutdown c) }
  | .serve m => { net := Answering.move readBufferCstr n σ.net m, client := σ.served m }

instance decidableMayTake (n : ℕ) (σ : Service) : ∀ m, Decidable (mayTake n σ m)
  | .connect c _ => decidable_of_iff ((σ.client c).isNone = true) Option.isNone_iff_eq_none
  | .say _ _ => inferInstanceAs (Decidable (_ ∧ _))
  | .hear _ _ => inferInstanceAs (Decidable (_ = true))
  | .leave _ => inferInstanceAs (Decidable (_ = true))
  | .arrive _ _ => inferInstanceAs (Decidable (_ ∧ _ ∧ _))
  | .finish _ => inferInstanceAs (Decidable (_ ∧ _))
  | .serve _ => inferInstanceAs (Decidable (_ ∧ _))

/-- `n` sub reactors, and no client yet. -/
def service (n : ℕ) : Machine Service Move :=
  Machine.guarded (fun σ => σ = {}) (mayTake n) (take n)

/-! ## What the clients do -/

namespace Client

variable {k : Client} {line : List UInt8} {answer : ReadResult}

/-- Where a client is between two steps. -/
structure Sound (k : Client) : Prop where
  connected : ∀ line, k.pc = .reading line → k.conn.state = .connected
  blocking : k.conn.sock.nonBlocking = false
  nulFree : 0 ∉ k.typed
  /-- the answer to a line is not all there when the client starts to wait for it -/
  asked : ∀ line, k.pc = .reading line → line ≠ [] → k.shown.length < k.typed.length

lemma say_eq (hconn : k.conn.state = .connected) (hblock : k.conn.sock.nonBlocking = false)
    (line : List UInt8) :
    k.say line = { k with conn := { k.conn with writeBuffer := {} }, pc := .reading line,
                          typed := k.typed ++ line, up := k.up ++ line } := by
  simp [Client.say, Connection.write, hconn, Socket.isNonBlocking, hblock,
    Connection.writeBlocking, Except.map, Connection.clearWritten, Buffer.clearBuffer]

/-- `Read` keeps what it gets, and a failing one closes the connection. -/
lemma read_eq {c : Connection} (hconn : c.state = .connected)
    (hblock : c.sock.nonBlocking = false) (h0 : 0 ∉ answer.toOption.getD []) :
    ∃ state, c.read [answer] =
      some ({ c with readBuffer := { buf := answer.toOption.getD [] }, state }, []) := by
  simp only [Connection.read, hconn, ne_eq, not_true_eq_false, if_false, Socket.isNonBlocking,
    hblock, Bool.false_eq_true, Connection.readBlocking, Buffer.clearBuffer]
  cases answer with
  | error e => exact ⟨.closed, rfl⟩
  | ok data =>
      cases data with
      | nil => exact ⟨.connected, by rw [← hconn]; rfl⟩
      | cons b bs =>
          have hcut : cString (b :: bs) = b :: bs := (cString_eq_self_iff _).mpr h0
          refine ⟨.connected, ?_⟩
          simp [Connection.readBlockingBody, Buffer.appendN, Buffer.pushUntilNul_eq, hcut,
            Except.toOption]

lemma reading_of_mayHear (hmay : k.mayHear answer = true) : ∃ line, k.pc = .reading line := by
  simp only [mayHear, Bool.and_eq_true] at hmay
  cases hpc : k.pc with
  | reading line => exact ⟨line, rfl⟩
  | prompt | left => simp [hpc] at hmay

/-- The data comes off what was on its way. -/
lemma data_begins (hmay : k.mayHear answer = true) : answer.toOption.getD [] <+: k.down := by
  simp only [mayHear, Bool.and_eq_true] at hmay
  match answer with
  | .error _ => exact List.nil_prefix
  | .ok [] => exact List.nil_prefix
  | .ok (b :: bs) => exact List.isPrefixOf_iff_prefix.mp hmay.2

/-- **What a client hears is the beginning of what was sent to it.** -/
lemma hear_eq (hconn : k.conn.state = .connected) (hblock : k.conn.sock.nonBlocking = false)
    (h0 : 0 ∉ k.down) (hmay : k.mayHear answer = true) :
    ∃ conn, conn.sock = k.conn.sock ∧ k.hear answer =
      { k with conn, pc := .prompt, shown := k.shown ++ answer.toOption.getD [],
               down := k.down.drop (answer.toOption.getD []).length } := by
  have hdata : 0 ∉ answer.toOption.getD [] := fun hin => h0 ((data_begins hmay).subset hin)
  obtain ⟨state, hread⟩ := read_eq hconn hblock hdata
  have hcstr : cString (answer.toOption.getD [] ++ [0]) = answer.toOption.getD [] :=
    Buffer.cString_cstr (b := { buf := answer.toOption.getD [] }) hdata
  refine ⟨{ k.conn with readBuffer := { buf := answer.toOption.getD [] }, state }, rfl, ?_⟩
  simp only [Client.hear, hread, Connection.readBufferCstr, Buffer.cstr, hcstr]

/-- Hearing moves bytes from what is on its way to what is shown. -/
lemma hear_conserves (hmay : k.mayHear answer = true) :
    k.shown ++ answer.toOption.getD [] ++ k.down.drop (answer.toOption.getD []).length
      = k.shown ++ k.down := by
  obtain ⟨rest, hdown⟩ := data_begins hmay
  rw [← hdown, List.drop_left, List.append_assoc]

lemma Sound.new (fd : ℕ) : (Client.new fd).Sound where
  connected _ h := by simp [Client.new] at h
  blocking := rfl
  nulFree := by simp [Client.new]
  asked _ h := by simp [Client.new] at h

lemma Sound.say (h : k.Sound) (hmay : k.maySay = true) (h0 : 0 ∉ line)
    (hle : k.shown.length ≤ k.typed.length) : (k.say line).Sound := by
  simp only [maySay, Bool.and_eq_true, decide_eq_true_eq] at hmay
  rw [say_eq hmay.2 h.blocking line]
  refine ⟨fun _ _ => hmay.2, h.blocking, ?_, ?_⟩
  · rw [List.mem_append, not_or]
    exact ⟨h.nulFree, h0⟩
  · intro l hl hne
    rw [ClientPc.reading.injEq] at hl
    have hpos : 0 < line.length := List.length_pos_of_ne_nil (by rwa [hl])
    rw [List.length_append]
    show k.shown.length < _
    omega

/-- What is on its way does not count. -/
lemma Sound.of_same {k' : Client} (h : k.Sound) (hconn : k'.conn = k.conn) (hpc : k'.pc = k.pc)
    (htyped : k'.typed = k.typed) (hshown : k'.shown = k.shown) : k'.Sound where
  connected line hl := by
    rw [hconn]
    exact h.connected line (hpc ▸ hl)
  blocking := hconn ▸ h.blocking
  nulFree := htyped ▸ h.nulFree
  asked line hl hne := by
    rw [htyped, hshown]
    exact h.asked line (hpc ▸ hl) hne

end Client

/-! ## The service runs the reactors -/

variable {n : ℕ} {σ : Service} {log : Log} {c d : ℕ} {p p' : Peer} {k : Client}
  {a : EdgeTriggered.Action} {sent presented data : List UInt8}

/-- A client and its connection tell the same story as the history of the connection: what its
peer has `sent`, and what the callback has been `presented`. -/
structure Tied (k : Client) (p : Peer) (sent presented : List UInt8) : Prop where
  kept : p.deleted = false
  typed : sent ++ k.up = k.typed
  ended : p.fin = true → k.pc = .left ∧ k.up = []
  answered : (k.shown ++ k.down).Sublist sent
  -- what a closed connection presents once more is sent back no more
  follows : p.conn.state = .connected → (k.shown ++ k.down).Sublist presented
  whole : p.conn.state = .connected → k.cut = false → k.shown ++ k.down = presented
  room : p.conn.state = .connected → sent.length < presented.length + WRITE_LIMIT

/-- A later connection is as good as an earlier one, or has been closed. -/
structure Later (p p' : Peer) : Prop where
  deleted : p'.deleted = p.deleted
  fin : p'.fin = p.fin
  conn : p'.conn.state = .connected → p.conn.state = .connected

lemma Later.refl (p : Peer) : Later p p := ⟨rfl, rfl, id⟩

namespace Tied

lemma later (h : Tied k p sent presented) (hp : Later p p') : Tied k p' sent presented where
  kept := hp.deleted.trans h.kept
  typed := h.typed
  ended hfin := h.ended (hp.fin ▸ hfin)
  answered := h.answered
  follows hconn := h.follows (hp.conn hconn)
  whole hconn := h.whole (hp.conn hconn)
  room hconn := h.room (hp.conn hconn)

/-- A connection has just been accepted. -/
lemma new {fd : ℕ} {queue : List UInt8} {fin : Bool} (hnone : k.shown ++ k.down = [])
    (hup : k.up = k.typed) (hqueue : queue <+: k.up) (hroom : queue.length < WRITE_LIMIT)
    (hfin : fin = true → k.pc = .left ∧ k.up = queue) :
    Tied { k with up := k.up.drop queue.length } (.new n fd queue fin) queue [] where
  kept := rfl
  typed := by
    obtain ⟨rest, hrest⟩ := hqueue
    show queue ++ k.up.drop queue.length = k.typed
    rw [← hup, ← hrest, List.drop_left]
  ended h := ⟨(hfin h).1, by rw [(hfin h).2, List.drop_length]⟩
  answered := by
    show (k.shown ++ k.down).Sublist queue
    rw [hnone]
    exact List.nil_sublist _
  follows _ := by
    show (k.shown ++ k.down).Sublist []
    rw [hnone]
  whole _ _ := hnone
  room _ := by simpa using hroom

/-- A segment arrives. -/
lemma arrive (h : Tied k p sent presented) (hdata : data <+: k.up) (hfin : p.fin = false)
    (hroom : p.conn.state = .connected →
      (sent ++ data).length < presented.length + WRITE_LIMIT) :
    Tied { k with up := k.up.drop data.length } (p.arrive data false) (sent ++ data) presented where
  kept := h.kept
  typed := by
    obtain ⟨rest, hrest⟩ := hdata
    show sent ++ data ++ k.up.drop data.length = k.typed
    rw [← h.typed, ← hrest, List.drop_left, List.append_assoc]
  ended hfin' := by simp [Peer.arrive, hfin] at hfin'
  answered := h.answered.trans (List.sublist_append_left _ _)
  follows := h.follows
  whole := h.whole
  room := hroom

/-- End of file arrives. -/
lemma finish (h : Tied k p sent presented) (hleft : k.pc = .left) (hup : k.up = []) :
    Tied k (p.arrive [] true) sent presented where
  kept := h.kept
  typed := h.typed
  ended _ := ⟨hleft, hup⟩
  answered := h.answered
  follows := h.follows
  whole := h.whole
  room := h.room

/-- The callback sends back what it can of what the event has read. -/
lemma reply (h : Tied k p sent presented) {o : WriteOutcome} (hp : Later p p')
    (hconn : p.conn.state = .connected → o.accepted <+: p.conn.readBuffer.buf ∧
      presented ++ p.conn.readBuffer.buf <+: sent)
    (hclosed : p.conn.state ≠ .connected → o.accepted = []) :
    Tied (k.reply p.conn o) p' sent (presented ++ p.conn.readBuffer.buf) where
  kept := hp.deleted.trans h.kept
  typed := h.typed
  ended hfin := h.ended (hp.fin ▸ hfin)
  answered := by
    show (k.shown ++ (k.down ++ o.accepted)).Sublist sent
    rw [← List.append_assoc]
    by_cases hstate : p.conn.state = .connected
    · obtain ⟨haccepted, hsent⟩ := hconn hstate
      exact ((h.follows hstate).append haccepted.sublist).trans hsent.sublist
    · rw [hclosed hstate, List.append_nil]
      exact h.answered
  follows hstate := by
    have hbefore := hp.conn hstate
    show (k.shown ++ (k.down ++ o.accepted)).Sublist _
    rw [← List.append_assoc]
    exact (h.follows hbefore).append (hconn hbefore).1.sublist
  whole hstate hcut := by
    have hbefore := hp.conn hstate
    simp only [Client.reply, hbefore, decide_true, Bool.true_and, Bool.or_eq_false_iff,
      bne_eq_false_iff_eq] at hcut ⊢
    rw [← List.append_assoc, h.whole hbefore hcut.1, hcut.2]
  room hstate := by
    have hroom := h.room (hp.conn hstate)
    rw [List.length_append]
    omega

end Tied

/-- The clients and the history of the reactors tell the same story. -/
structure Linked (σ : Service) (log : Log) : Prop where
  accepted : ∀ c p, σ.net.peer c = some p → ∃ k, σ.client c = some k ∧
    Tied k p (log.sent c) (log.presented c)
  waiting : ∀ c k, σ.client c = some k → σ.net.peer c = none →
    k.shown ++ k.down = [] ∧ k.up = k.typed
  sound : ∀ c k, σ.client c = some k → k.Sound

/-- The service is where some run of the reactors has brought it. -/
def Inv (n : ℕ) (σ : Service) : Prop := ∃ as log, LocalRun n as σ.net log ∧ Linked σ log

lemma Linked.tied (h : Linked σ log) (hk : σ.client c = some k) (hp : σ.net.peer c = some p) :
    Tied k p (log.sent c) (log.presented c) := by
  obtain ⟨k', hk', htied⟩ := h.accepted c p hp
  rw [hk, Option.some.injEq] at hk'
  exact hk' ▸ htied

/-- What has been sent back to a client is of what it has typed. -/
lemma Linked.answered (h : Linked σ log) (hk : σ.client c = some k) :
    (k.shown ++ k.down).Sublist k.typed := by
  cases hp : σ.net.peer c with
  | none =>
      rw [(h.waiting c k hk hp).1]
      exact List.nil_sublist _
  | some p =>
      have htied := h.tied hk hp
      rw [← htied.typed]
      exact htied.answered.trans (List.sublist_append_left _ _)

lemma Linked.down_nulFree (h : Linked σ log) (hk : σ.client c = some k) : 0 ∉ k.down := fun hin =>
  (h.sound c k hk).nulFree ((h.answered hk).subset (List.mem_append_right _ hin))

/-- What the callback has been shown and what is still at the server is what has arrived. -/
lemma in_flight {as : List EdgeTriggered.Action} (hrun : LocalRun n as σ.net log)
    (h : Linked σ log) (hp : σ.net.peer c = some p) (hconn : p.conn.state = .connected) :
    log.presented c ++ σ.atServer c = log.sent c := by
  obtain ⟨k, hk, htied⟩ := h.accepted c p hp
  have h0 : 0 ∉ log.sent c := fun hin => (h.sound c k hk).nulFree (by
    rw [← htied.typed]
    exact List.mem_append_left _ hin)
  have hheld : σ.atServer c = (view σ.net log c p).inHand ++ p.queue := by
    simp only [Service.atServer, hp, View.inHand, view]
    cases (σ.net.sub p.loop).phase c <;> rfl
  rw [hheld, ← List.append_assoc]
  exact (hrun.traced.sound c p hp).in_order hconn h0

/-! ## The steps -/

lemma localRun_snoc {as : List EdgeTriggered.Action} {s : EdgeTriggered.State}
    (h : LocalRun n as s log) (hg : guard n s a) (hl : Local s a) :
    LocalRun n (as ++ [a]) (effect n s a) (record s a log) := by
  have hst : (logged n).step (s, log) a = some (effect n s a, record s a log) :=
    Machine.recorded_step_eq_some.mpr ⟨Machine.guarded_step_eq_some.mpr ⟨hg, rfl⟩, rfl⟩
  refine ⟨h.1.append as h.2 ⟨hl, fun _ _ => trivial⟩, ?_⟩
  rw [Machine.run_append, h.2, Option.bind_some, Machine.run_cons, hst]
  rfl

/-- A client changes, and no other. -/
lemma modify_client {f : Client → Client} (h : σ.modify c f d = some k) :
    (d ≠ c ∧ σ.client d = some k) ∨ (d = c ∧ ∃ k₀, σ.client c = some k₀ ∧ k = f k₀) := by
  simp only [Service.modify] at h
  by_cases hd : d = c
  · rw [hd, update_self, Option.map_eq_some_iff] at h
    obtain ⟨k₀, hk₀, rfl⟩ := h
    exact .inr ⟨hd, k₀, hk₀, rfl⟩
  · rw [update_of_ne hd] at h
    exact .inl ⟨hd, h⟩

lemma modify_none {f : Client → Client} (hd : σ.client d = none) : σ.modify c f d = none := by
  simp only [Service.modify]
  by_cases hdc : d = c
  · rw [← hdc, update_self, hd, Option.map_none]
  · rw [update_of_ne hdc, hd]

lemma modify_self {f : Client → Client} (hk : σ.client c = some k) :
    σ.modify c f c = some (f k) := by
  rw [Service.modify, update_self, hk, Option.map_some]

lemma modify_other {f : Client → Client} (hd : d ≠ c) : σ.modify c f d = σ.client d :=
  update_of_ne hd _ _

/-- A step of a client alone. -/
lemma Linked.client (h : Linked σ log) (hk : σ.client c = some k) {f : Client → Client}
    (htied : ∀ p, σ.net.peer c = some p → Tied k p (log.sent c) (log.presented c) →
      Tied (f k) p (log.sent c) (log.presented c))
    (hwaiting : k.shown ++ k.down = [] → k.up = k.typed →
      (f k).shown ++ (f k).down = [] ∧ (f k).up = (f k).typed)
    (hsound : (f k).Sound) : Linked { σ with client := σ.modify c f } log where
  accepted d p hp := by
    obtain ⟨k', hk', htied'⟩ := h.accepted d p hp
    by_cases hd : d = c
    · subst hd
      rw [hk, Option.some.injEq] at hk'
      exact ⟨f k, modify_self hk, htied p hp (hk' ▸ htied')⟩
    · exact ⟨k', (modify_other hd).trans hk', htied'⟩
  waiting d k' hk' hp := by
    rcases modify_client hk' with ⟨-, hold⟩ | ⟨rfl, k₀, hk₀, rfl⟩
    · exact h.waiting d k' hold hp
    · rw [hk, Option.some.injEq] at hk₀
      obtain ⟨hnone, hup⟩ := h.waiting d k hk hp
      exact hk₀ ▸ hwaiting hnone hup
  sound d k' hk' := by
    rcases modify_client hk' with ⟨-, hold⟩ | ⟨rfl, k₀, hk₀, rfl⟩
    · exact h.sound d k' hold
    · rw [hk, Option.some.injEq] at hk₀
      exact hk₀ ▸ hsound

lemma linked_connect (h : Linked σ log) {fd : ℕ} (hc : σ.client c = none) :
    Linked (take n σ (.connect c fd)) log where
  accepted d p hp := by
    obtain ⟨k, hk, htied⟩ := h.accepted d p hp
    refine ⟨k, ?_, htied⟩
    have hd : d ≠ c := by
      rintro rfl
      rw [hc] at hk
      simp at hk
    simp only [take]
    rw [update_of_ne hd, hk]
  waiting d k hk hp := by
    simp only [take] at hk
    by_cases hd : d = c
    · rw [hd, update_self, Option.some.injEq] at hk
      rw [← hk]
      exact ⟨rfl, rfl⟩
    · rw [update_of_ne hd] at hk
      exact h.waiting d k hk hp
  sound d k hk := by
    simp only [take] at hk
    by_cases hd : d = c
    · rw [hd, update_self, Option.some.injEq] at hk
      exact hk ▸ .new fd
    · rw [update_of_ne hd] at hk
      exact h.sound d k hk

/-- A line is on its way. -/
lemma linked_say (h : Linked σ log) {line : List UInt8} (hm : mayTake n σ (.say c line)) :
    Linked (take n σ (.say c line)) log := by
  obtain ⟨hmay, h0⟩ := hm
  obtain ⟨k, hk, hmay⟩ := (Option.any_eq_true _ _).mp hmay
  have hsound := h.sound c k hk
  have hle : k.shown.length ≤ k.typed.length :=
    ((List.sublist_append_left _ _).trans (h.answered hk)).length_le
  have hnew := hsound.say hmay h0 hle
  simp only [Client.maySay, Bool.and_eq_true, decide_eq_true_eq] at hmay
  have heq := Client.say_eq hmay.2 hsound.blocking line
  refine h.client hk (fun p hp htied => ?_) (fun hnone hup => ?_) hnew
  · rw [heq]
    refine ⟨htied.kept, ?_, fun hfin => ?_, htied.answered, htied.follows, htied.whole,
      htied.room⟩
    · rw [← List.append_assoc, htied.typed]
    · have hleft := (htied.ended hfin).1
      rw [hmay.1] at hleft
      simp at hleft
  · rw [heq]
    exact ⟨hnone, by rw [hup]⟩

/-- An answer is shown, or there is none. -/
lemma linked_hear (h : Linked σ log) {answer : ReadResult} (hm : mayTake n σ (.hear c answer)) :
    Linked (take n σ (.hear c answer)) log := by
  obtain ⟨k, hk, hmay⟩ := (Option.any_eq_true _ _).mp hm
  have hsound := h.sound c k hk
  obtain ⟨line, hpc⟩ := Client.reading_of_mayHear hmay
  obtain ⟨conn, hsock, heq⟩ :=
    Client.hear_eq (hsound.connected line hpc) hsound.blocking (h.down_nulFree hk) hmay
  have hsame := Client.hear_conserves hmay
  refine h.client hk (fun p hp htied => ?_) (fun hnone hup => ?_) ?_
  · rw [heq]
    refine ⟨htied.kept, htied.typed, fun hfin => ?_, ?_, fun hconn => ?_, fun hconn hcut => ?_,
      htied.room⟩
    · have hleft := (htied.ended hfin).1
      rw [hpc] at hleft
      simp at hleft
    · exact hsame.symm ▸ htied.answered
    · exact hsame.symm ▸ htied.follows hconn
    · exact hsame.trans (htied.whole hconn hcut)
  · rw [heq]
    exact ⟨hsame.trans hnone, hup⟩
  · rw [heq]
    exact ⟨fun _ h => by simp at h, hsock ▸ hsound.blocking, hsound.nulFree,
      fun _ h => by simp at h⟩

lemma linked_leave (h : Linked σ log) (hm : mayTake n σ (.leave c)) :
    Linked (take n σ (.leave c)) log := by
  obtain ⟨k, hk, -⟩ := (Option.any_eq_true _ _).mp hm
  have hsound := h.sound c k hk
  refine h.client hk (fun p hp htied => ?_) (fun hnone hup => ⟨hnone, hup⟩) ?_
  · exact ⟨htied.kept, htied.typed, fun hfin => ⟨rfl, (htied.ended hfin).2⟩, htied.answered,
      htied.follows, htied.whole, htied.room⟩
  · exact ⟨fun _ h => by simp at h, hsound.blocking, hsound.nulFree, fun _ h => by simp at h⟩

/-- The callback replies with what `c_str()` lets through of the read buffer. -/
lemma reply_begins (conn : Connection) :
    cString (readBufferCstr conn) <+: conn.readBuffer.buf := by
  rw [readBufferCstr, Buffer.cstr, cString_append_zero]
  exact List.takeWhile_prefix _

/-- What an event has read comes behind what the callback has been shown. -/
lemma presented_begins {as : List EdgeTriggered.Action} (hrun : LocalRun n as σ.net log)
    (h : Linked σ log) {r : ℕ} {rest : List (ℕ × UInt32)} (hsub : σ.net.sub r = .messaging c rest)
    (hp : σ.net.peer c = some p) (hconn : p.conn.state = .connected) :
    log.presented c ++ p.conn.readBuffer.buf <+: log.sent c := by
  have hloop : p.loop = r :=
    hrun.traced.confined.loop (by rw [hsub]; exact List.mem_cons_self) hp
  have hflight := in_flight hrun h hp hconn
  simp only [Service.atServer, hp, hloop, hsub, SubPc.phase, if_true] at hflight
  rw [← hflight, ← List.append_assoc]
  exact List.prefix_append _ _

/-- A step that only the reactors have to do with. -/
def Quiet : EdgeTriggered.Action → Prop
  | .poll _ _ => True
  | .dropEdge _ _ => True
  | .handle _ _ _ _ => True
  | .read _ _ _ _ => True
  | .endOfBatch _ => True
  | _ => False

/-- What such a step writes down. -/
lemma record_quiet (hquiet : Quiet a) (s : EdgeTriggered.State) (log : Log) :
    (record s a log).sent = log.sent ∧ (record s a log).presented = log.presented := by
  cases a with
  | newConnection | send | shutdown | message => exact absurd hquiet id
  | handle r c mask rest =>
      simp only [record]
      split
      · exact ⟨rfl, rfl⟩
      · exact ⟨rfl, rfl⟩
  | _ => exact ⟨rfl, rfl⟩

/-- An iteration of the read loop opens no connection. -/
lemma readBody_connected {conn : Connection} {answer : ReadResult}
    (h : (conn.readBody answer).1.state = .connected) : conn.state = .connected := by
  match answer with
  | .ok [] => simp [Connection.readBody] at h
  | .ok (_ :: _) => exact h
  | .error .EINTR => exact h
  | .error .EAGAIN => exact h
  | .error (.other _) => simp [Connection.readBody] at h

/-- **What the reactors do to a connection by themselves**: they may close it. -/
lemma later_of_quiet {s : EdgeTriggered.State} (hquiet : Quiet a) (hg : guard n s a)
    (hp' : (effect n s a).peer d = some p') : ∃ p, s.peer d = some p ∧ Later p p' := by
  have modify {c : ℕ} {f : Peer → Peer} (hp' : (s.modify c f).peer d = some p')
      (hf : ∀ p, Later p (f p)) : ∃ p, s.peer d = some p ∧ Later p p' := by
    rcases modify_peer hp' with ⟨-, hp⟩ | ⟨rfl, p, hp, rfl⟩
    · exact ⟨p', hp, .refl p'⟩
    · exact ⟨p, hp, hf p⟩
  cases a with
  | newConnection | send | shutdown | message => exact absurd hquiet id
  | poll r batch =>
      simp only [effect, Option.map_eq_some_iff] at hp'
      obtain ⟨p, hp, rfl⟩ := hp'
      refine ⟨p, hp, ?_⟩
      simp only [Peer.polled]
      split
      · exact ⟨rfl, rfl, id⟩
      · exact .refl p
  | dropEdge r c => exact modify hp' fun p => ⟨rfl, rfl, id⟩
  | handle r c mask rest =>
      simp only [effect, State.handle] at hp'
      split at hp'
      · split at hp'
        · exact modify hp' fun p => ⟨rfl, rfl, id⟩
        · exact ⟨p', hp', .refl p'⟩
      · exact ⟨p', hp', .refl p'⟩
  | read r c rest answer =>
      obtain ⟨q, hq, -⟩ := exists_peer_of_live hg.2
      simp only [effect, hq] at hp'
      exact modify hp' fun p => ⟨rfl, rfl, readBody_connected⟩
  | endOfBatch r => exact ⟨p', hp', .refl p'⟩

/-- **What a callback does to a connection**: it may close it too. -/
lemma later_of_touched (closes : List ℕ) (d : ℕ) (p : Peer) : Later p (p.touched closes [] d) := by
  refine ⟨by simp [Peer.touched], rfl, fun hconn => ?_⟩
  simp only [Peer.touched] at hconn
  split at hconn
  · simp at hconn
  · exact hconn

/-- No connection goes away. -/
lemma peer_none_of_effect {s : EdgeTriggered.State} (hg : guard n s a)
    (hp : (effect n s a).peer d = none) : s.peer d = none := by
  cases hold : s.peer d with
  | none => rfl
  | some p =>
      obtain ⟨p', hp', -⟩ := peer_step hg hold
      rw [hp'] at hp
      simp at hp

/-- A step of the reactors with a client whose connection they have accepted: another connection may
be closed, and its history stays as it is. -/
lemma Linked.effect (h : Linked σ log) (hg : guard n σ.net a) (hk : σ.client c = some k)
    {f : Client → Client} {log' : Log} (hc : ((effect n σ.net a).peer c).isSome)
    (hsound : (f k).Sound)
    (hthis : ∀ p', (EdgeTriggered.effect n σ.net a).peer c = some p' →
      Tied (f k) p' (log'.sent c) (log'.presented c))
    (hother : ∀ d p', d ≠ c → (EdgeTriggered.effect n σ.net a).peer d = some p' →
      ∃ p, σ.net.peer d = some p ∧ Later p p')
    (hlog : ∀ d, d ≠ c → log'.sent d = log.sent d ∧ log'.presented d = log.presented d) :
    Linked { net := EdgeTriggered.effect n σ.net a, client := σ.modify c f } log' where
  accepted d p' hp' := by
    by_cases hd : d = c
    · subst hd
      exact ⟨f k, modify_self hk, hthis p' hp'⟩
    · obtain ⟨p, hp, hlater⟩ := hother d p' hd hp'
      obtain ⟨k', hk', htied⟩ := h.accepted d p hp
      rw [(hlog d hd).1, (hlog d hd).2]
      exact ⟨k', (modify_other hd).trans hk', htied.later hlater⟩
  waiting d k' hk' hp := by
    have hd : d ≠ c := by
      rintro rfl
      rw [show (EdgeTriggered.effect n σ.net a).peer d = none from hp] at hc
      simp at hc
    exact h.waiting d k' ((modify_other hd).symm.trans hk') (peer_none_of_effect hg hp)
  sound d k' hk' := by
    rcases modify_client hk' with ⟨-, hold⟩ | ⟨rfl, k₀, hk₀, rfl⟩
    · exact h.sound d k' hold
    · rw [hk, Option.some.injEq] at hk₀
      exact hk₀ ▸ hsound

/-- A connection is accepted, with what has come before. -/
lemma linked_accept (h : Linked σ log) {fd : ℕ} {queue : List UInt8} {fin : Bool}
    (hg : guard n σ.net (.newConnection c fd queue fin))
    (hs : σ.serves (.net (.newConnection c fd queue fin)) = true) :
    Linked { net := effect n σ.net (.newConnection c fd queue fin),
             client := σ.served (.net (.newConnection c fd queue fin)) }
      (record σ.net (.newConnection c fd queue fin) log) := by
  obtain ⟨k, hk, hserves⟩ := (Option.any_eq_true _ _).mp hs
  simp only [Bool.and_eq_true, List.isPrefixOf_iff_prefix, decide_eq_true_eq, Bool.or_eq_true,
    Bool.not_eq_true', beq_iff_eq] at hserves
  obtain ⟨⟨hqueue, hroom⟩, hfin⟩ := hserves
  refine h.effect hg hk (by simp [effect]) ((h.sound c k hk).of_same rfl rfl rfl rfl)
    (fun p' hp' => ?_) (fun d p' hd hp' => ?_) fun d hd => ?_
  · simp only [effect, update_self, Option.some.injEq] at hp'
    obtain ⟨hnone, hup⟩ := h.waiting c k hk hg.1
    rw [← hp']
    simp only [record, update_self]
    refine .new hnone hup hqueue hroom fun hended => hfin.resolve_left ?_
    rw [hended]
    simp
  · simp only [effect] at hp'
    rw [update_of_ne hd] at hp'
    exact ⟨p', hp', .refl p'⟩
  · exact ⟨update_of_ne hd _ _, update_of_ne hd _ _⟩

/-- A segment arrives. -/
lemma linked_arrive {as : List EdgeTriggered.Action} (hrun : LocalRun n as σ.net log)
    (h : Linked σ log) (hm : mayTake n σ (.arrive c data)) :
    Linked (take n σ (.arrive c data)) (record σ.net (.send c data) log) := by
  obtain ⟨hmay, hroom, hg⟩ := hm
  obtain ⟨k, hk, hdata⟩ := (Option.any_eq_true _ _).mp hmay
  rw [List.isPrefixOf_iff_prefix] at hdata
  obtain ⟨q, hq, -, hfin⟩ := exists_peer_of_live hg.2
  rw [Bool.not_eq_true'] at hfin
  obtain ⟨q', hq', -⟩ := peer_step hg hq
  refine h.effect hg hk (by rw [hq']; rfl) ((h.sound c k hk).of_same rfl rfl rfl rfl)
    (fun p' hp' => ?_) (fun d p' hd hp' => ?_) fun d hd => ?_
  · simp only [effect, State.modify, update_self, hq, Option.map_some, Option.some.injEq] at hp'
    rw [← hp']
    simp only [record, update_self]
    refine (h.tied hk hq).arrive hdata hfin fun hconn => ?_
    have hflight := congrArg List.length (in_flight hrun h hq hconn)
    rw [List.length_append] at hflight ⊢
    omega
  · simp only [effect, State.modify] at hp'
    rw [update_of_ne hd] at hp'
    exact ⟨p', hp', .refl p'⟩
  · exact ⟨update_of_ne hd _ _, rfl⟩

/-- End of file arrives. -/
lemma linked_finish (h : Linked σ log) (hm : mayTake n σ (.finish c)) :
    Linked (take n σ (.finish c)) (record σ.net (.shutdown c) log) := by
  obtain ⟨hmay, hg⟩ := hm
  obtain ⟨k, hk, hended⟩ := (Option.any_eq_true _ _).mp hmay
  simp only [Bool.and_eq_true, decide_eq_true_eq, List.isEmpty_iff] at hended
  refine ⟨fun d p' hp' => ?_, fun d k' hk' hp => h.waiting d k' hk' (peer_none_of_effect hg hp),
    h.sound⟩
  rcases modify_peer hp' with ⟨-, hp⟩ | ⟨rfl, p, hp, rfl⟩
  · exact h.accepted d p' hp
  · exact ⟨k, hk, (h.tied hk hp).finish hended.1 hended.2⟩

/-- The callback sends back what the event has read, or as much of it as it can. -/
lemma linked_reply {as : List EdgeTriggered.Action} (hrun : LocalRun n as σ.net log)
    (h : Linked σ log) {r : ℕ} {rest : List (ℕ × UInt32)} {writes : List WriteResult}
    {o : WriteOutcome} {closes : List ℕ} (hp : σ.net.peer c = some p)
    (ho : replyOf readBufferCstr p.conn writes = some o)
    (hg : guard n σ.net (.message r c rest closes [])) :
    Linked { net := effect n σ.net (.message r c rest closes []),
             client := σ.served (.reply r c rest writes) }
      (record σ.net (.message r c rest closes []) log) := by
  obtain ⟨k, hk, htied⟩ := h.accepted c p hp
  have hconf := hrun.traced.confined
  have hclient : σ.served (.reply r c rest writes) = σ.modify c (Client.reply · p.conn o) := by
    rw [Service.served, hp, Option.elim_some, ho, Option.elim_some]
  rw [hclient]
  obtain ⟨q', hq', -⟩ := peer_step hg hp
  refine h.effect hg hk (by rw [hq']; rfl) ((h.sound c k hk).of_same rfl rfl rfl rfl)
    (fun p' hp' => ?_) (fun d p' hd hp' => ?_) fun d hd => ?_
  · simp only [effect, hp, Option.map_some, Option.some.injEq] at hp'
    rw [← hp']
    simp only [record, update_self, hp, Option.elim_some]
    refine htied.reply (later_of_touched closes c p) (fun hconn => ⟨?_, ?_⟩) fun hconn =>
      (Connection.replyOf_closed hconn ho).2
    · exact (Connection.replyOf_connected hconn (hconf.nonBlocking c p hp) ho).1.trans
        (reply_begins p.conn)
    · exact presented_begins hrun h hg.1 hp hconn
  · simp only [effect, Option.map_eq_some_iff] at hp'
    obtain ⟨q, hq, rfl⟩ := hp'
    exact ⟨q, hq, later_of_touched closes d q⟩
  · exact ⟨rfl, update_of_ne hd _ _⟩

/-- The reactors take a step by themselves. -/
lemma linked_quiet (h : Linked σ log) (hquiet : Quiet a) (hg : guard n σ.net a) :
    Linked { net := effect n σ.net a, client := σ.client } (record σ.net a log) := by
  obtain ⟨hsent, hpresented⟩ := record_quiet hquiet σ.net log
  refine ⟨fun d p' hp' => ?_, fun d k hk hp => h.waiting d k hk (peer_none_of_effect hg hp),
    h.sound⟩
  obtain ⟨p, hp, hlater⟩ := later_of_quiet hquiet hg hp'
  obtain ⟨k, hk, htied⟩ := h.accepted d p hp
  rw [hsent, hpresented]
  exact ⟨k, hk, htied.later hlater⟩

/-- **Every step of the service is one of the reactors**, or leaves them as they are. -/
theorem inv_step {m : Move} (h : Inv n σ) (hm : mayTake n σ m) : Inv n (take n σ m) := by
  obtain ⟨as, log, hrun, h⟩ := h
  cases m with
  | connect c fd => exact ⟨as, log, hrun, linked_connect h hm⟩
  | say c line => exact ⟨as, log, hrun, linked_say h hm⟩
  | hear c answer => exact ⟨as, log, hrun, linked_hear h hm⟩
  | leave c => exact ⟨as, log, hrun, linked_leave h hm⟩
  | arrive c data =>
      exact ⟨_, _, localRun_snoc hrun hm.2.2 trivial, linked_arrive hrun h hm⟩
  | finish c => exact ⟨_, _, localRun_snoc hrun hm.2 trivial, linked_finish h hm⟩
  | serve m =>
      obtain ⟨hmay, hs⟩ := hm
      obtain ⟨a, ha, hg⟩ := may_iff.mp hmay
      refine ⟨as ++ [a], record σ.net a log, ?_, ?_⟩
      · rw [take, move_eq ha]
        exact localRun_snoc hrun hg ((act_own ha).local hrun.traced.confined hg)
      · rw [take, move_eq ha]
        cases m with
        | net b =>
            obtain ⟨rfl, -⟩ := act_net.mp ha
            cases a with
            | newConnection c fd queue fin => exact linked_accept h hg hs
            | send | shutdown => simp [Service.serves] at hs
            | message r c rest closes deletes => simp [Answering.act] at ha
            | _ => exact linked_quiet h trivial hg
        | reply r c rest writes =>
            obtain ⟨p, o, hp, ho, rfl⟩ := act_reply.mp ha
            exact linked_reply hrun h hp ho hg

theorem inv_init : Inv n {} := ⟨[], {}, ⟨trivial, rfl⟩, by simp, by simp, by simp⟩

theorem inv_inductive : (service n).Inductive (Inv n) :=
  Machine.guarded_inductive (fun _ hs => hs ▸ inv_init) fun _ _ => inv_step

/-- What a client has typed and what may still be sent back: at the server, unless the connection
is closed there, and on the way to it. -/
def Service.held (σ : Service) (c : ℕ) (k : Client) : List UInt8 :=
  (if (σ.net.peer c).all fun p => p.conn.state = .connected then σ.atServer c else []) ++ k.up

/-- The server has not closed the connection, and has cut off no reply on it. -/
def Service.Intact (σ : Service) (c : ℕ) (k : Client) : Prop :=
  (∀ p, σ.net.peer c = some p → p.conn.state = .connected) ∧ k.cut = false

/-- **Each client is shown what it has typed, in order.**  In every reachable state of the echo
service, with any number of clients and sub reactors, whatever `::read` and `::write` answer and
however connections break: what a client has printed of the server's messages, what has been sent
back to it and what the server may still send back of its lines are together, in this order, its
lines with parts left out.  Nothing is left out while its connection is intact. -/
theorem echo_in_order (hs : (service n).Reachable σ) (hk : σ.client c = some k) :
    (k.shown ++ k.down ++ σ.held c k).Sublist k.typed ∧
    (σ.Intact c k → k.shown ++ k.down ++ σ.held c k = k.typed) := by
  obtain ⟨as, log, hrun, h⟩ := inv_inductive.reachable hs
  cases hp : σ.net.peer c with
  | none =>
      obtain ⟨hnone, hup⟩ := h.waiting c k hk hp
      have hheld : σ.held c k = k.typed := by simp [Service.held, Service.atServer, hp, hup]
      rw [hnone, hheld, List.nil_append]
      exact ⟨List.Sublist.refl _, fun _ => rfl⟩
  | some p =>
      have htied := h.tied hk hp
      by_cases hconn : p.conn.state = .connected
      · have hheld : σ.held c k = σ.atServer c ++ k.up := by simp [Service.held, hp, hconn]
        have hflight := in_flight hrun h hp hconn
        rw [hheld, ← List.append_assoc, ← htied.typed, ← hflight]
        refine ⟨((htied.follows hconn).append_right _).append_right _, fun hintact => ?_⟩
        rw [htied.whole hconn hintact.2]
      · have hheld : σ.held c k = k.up := by simp [Service.held, hp, hconn]
        rw [hheld, ← htied.typed]
        exact ⟨htied.answered.append_right _, fun hintact => absurd (hintact.1 p hp) hconn⟩

/-- The first line comes in two pieces, and the kernel has room for one byte of the first answer.
The client prints that, and types the next line. -/
def cutUp : List Move :=
  [.connect 0 7, .say 0 [104, 105, 33], .serve (.net (.newConnection 0 5 [104, 105] false)),
    .serve (.net (.poll 1 [(0, EPOLLIN)])), .serve (.net (.handle 1 0 EPOLLIN [])),
    .serve (.net (.read 1 0 [] (.ok [104, 105]))), .serve (.net (.read 1 0 [] (.error .EAGAIN))),
    .serve (.reply 1 0 [] [.ok 1, .error .EAGAIN]), .hear 0 (.ok [104]), .say 0 [106],
    .arrive 0 [33, 106]]

theorem echo_in_order_cutUp :
    ∃ σ k, (service 4).Reachable σ ∧ σ.client 0 = some k ∧ k.shown = [104] ∧
      k.typed = [104, 105, 33, 106] ∧ σ.held 0 k = [33, 106] ∧
      (k.shown ++ k.down ++ σ.held 0 k).Sublist k.typed := by
  obtain ⟨σ, hs, hp⟩ := Machine.exists_reachable_of_run (m := service 4) rfl cutUp
    (fun σ : Service => (σ.client 0).any fun k : Client =>
      decide (k.shown = [104] ∧ k.typed = [104, 105, 33, 106] ∧ σ.held 0 k = [33, 106]))
    (by decide +kernel)
  obtain ⟨k, hk, hp⟩ := (Option.any_eq_true _ _).mp hp
  obtain ⟨hshown, htyped, hheld⟩ := of_decide_eq_true hp
  exact ⟨σ, k, hs, hk, hshown, htyped, hheld, (echo_in_order hs hk).1⟩

end CppServer.EchoService
