import CppServer.Core.Channel
import CppServer.Core.ReadPath
import CppServer.Lib.Machine

/-!
# What the application gets to see

The life of one server connection, from its constructor to its deletion, as the series of its
readiness events.  `HandleEvent` runs `BusinessLogic` when the event asks for a read; that calls
`Read` and then, whatever `Read` did, the on_message callback.

Two histories are kept beside the connection: `received`, the bytes that `::read` has handed over,
and `presented`, the content of the read buffer at each call of the callback.  Nothing received is
ever missing from what is presented (`received_sublist_presented`).  But `Read` clears the buffer
only on a connected connection, so a callback after that is shown the last content again:
`delivered_once_iff` says that those events, and no others, set the two histories apart.
-/

namespace CppServer

/-- The events a server connection listens for, after `EnableRead` and `UseET` in its constructor. -/
def CONNECTION_EVENTS : UInt32 := EPOLLIN ||| EPOLLPRI ||| EPOLLET

/-- A connection listens for nothing that runs the write callback, which it does not have. -/
lemma wantsWrite_of_reportable {mask : UInt32} (h : reportable CONNECTION_EVENTS mask = true) :
    wantsWrite mask = false := by
  have hzero : mask &&& ~~~(CONNECTION_EVENTS ||| EPOLLERR ||| EPOLLHUP) = 0 := by
    simpa [reportable] using h
  have hout : ~~~(CONNECTION_EVENTS ||| EPOLLERR ||| EPOLLHUP) &&& EPOLLOUT = EPOLLOUT := by
    decide
  have hnone : mask &&& EPOLLOUT = 0 := by
    rw [← hout, ← UInt32.and_assoc, hzero, UInt32.zero_and]
  simp [wantsWrite, hnone]

/-- What a callback of the application makes of the connection it is given.  It may change the
buffers, and its writes may fail; reading it leaves to `BusinessLogic`.  Nothing in `Connection`
reopens a closed connection, and nothing makes its socket blocking again. -/
structure Callback where
  run : Connection → Connection
  sock_run : ∀ c, (run c).sock = c.sock
  connected_of_run : ∀ c, (run c).state = .connected → c.state = .connected

/-- A readiness event on a connection: what `epoll_wait` reports, the answers of the read loop, if
it comes to one, and what the callback does. -/
structure Readiness where
  mask : UInt32
  reported : reportable CONNECTION_EVENTS mask = true
  script : ReadScript
  nulFree : 0 ∉ script.bytes
  onMessage : Callback

namespace Delivery

structure State where
  conn : Connection
  /-- the read buffer at each call of the on_message callback, one after the other -/
  presented : List UInt8 := []
  /-- the bytes `::read` has handed over -/
  received : List UInt8 := []

/-- The bytes in the answers of `::read`. -/
def handed : List ReadResult → List UInt8
  | [] => []
  | .ok bytes :: answers => bytes ++ handed answers
  | .error _ :: answers => handed answers

/-- `Connection::BusinessLogic` -/
def businessLogic (s : State) (e : Readiness) : Option State :=
  (s.conn.read e.script.results).map fun (c, rest) =>
    let got := e.script.results.take (e.script.results.length - rest.length)
    { conn := e.onMessage.run c,
      presented := s.presented ++ c.readBuffer.buf,
      received := s.received ++ handed got }

/-- `Channel::HandleEvent` on a channel with a read callback only: the call of an empty
`std::function` is no step. -/
def handleEvent (s : State) (e : Readiness) : Option State :=
  (if wantsRead e.mask then businessLogic s e else some s).bind fun s' =>
    if wantsWrite e.mask then none else some s'

/-- The connection as `AcceptConnection` and `NewConnection` make it, after the on_connection
callback. -/
def opened (fd : ℤ) (onConnect : Callback) : State :=
  { conn := onConnect.run (Connection.fresh fd) }

/-- The life of a connection. -/
def life : Machine State Readiness where
  Init s := ∃ fd onConnect, s = opened fd onConnect
  step := handleEvent

/-- The event runs the callback on a connection that `Read` refuses, and there is something in its
read buffer. -/
def Stale (s : State) (e : Readiness) : Prop :=
  wantsRead e.mask = true ∧ s.conn.state ≠ .connected ∧ s.conn.readBuffer.buf ≠ []

instance (s : State) (e : Readiness) : Decidable (Stale s e) :=
  inferInstanceAs (Decidable (_ ∧ _ ∧ _))

/-! ## One event -/

lemma handed_append (xs ys : List ReadResult) : handed (xs ++ ys) = handed xs ++ handed ys := by
  induction xs with
  | nil => rfl
  | cons r rs ih =>
      cases r with
      | ok bytes => simp [handed, ih]
      | error e => simp [handed, ih]

/-- The answers of a read loop hand over the bytes of its chunks. -/
lemma handed_results (rs : ReadScript) : handed rs.results = rs.bytes := by
  obtain ⟨pulls, ending⟩ := rs
  have hending : handed [ending.result] = [] := by cases ending <;> rfl
  simp only [ReadScript.results, ReadScript.bytes, ReadScript.chunks, handed_append, hending,
    List.append_nil]
  induction pulls with
  | nil => rfl
  | cons p ps ih =>
      cases p with
      | chunk c => simp [handed, Pull.result, Pull.bytes, ih]
      | interrupted => simp [handed, Pull.result, Pull.bytes, ih]

/-- On a connected connection the callback is shown what this event's read has got. -/
lemma businessLogic_connected {s : State} {e : Readiness} (hc : s.conn.state = .connected)
    (hn : s.conn.sock.nonBlocking = true) :
    ∃ s', businessLogic s e = some s' ∧ s'.conn.sock = s.conn.sock ∧
      s'.received = s.received ++ e.script.bytes ∧
      s'.presented = s.presented ++ e.script.bytes := by
  have hread := Connection.read_nulFree hc hn e.nulFree []
  rw [List.append_nil] at hread
  have hgot : handed (e.script.results.take (e.script.results.length - 0)) = e.script.bytes := by
    rw [Nat.sub_zero, List.take_length, handed_results]
  refine ⟨_, by rw [businessLogic, hread]; rfl, e.onMessage.sock_run _, ?_, rfl⟩
  exact congrArg (s.received ++ ·) hgot

/-- On any other the read is refused, and the callback is shown what was there before. -/
lemma businessLogic_refused {s : State} {e : Readiness} (hc : s.conn.state ≠ .connected) :
    ∃ s', businessLogic s e = some s' ∧ s'.conn.sock = s.conn.sock ∧
      s'.received = s.received ∧ s'.presented = s.presented ++ s.conn.readBuffer.buf := by
  have hread : s.conn.read e.script.results = some (s.conn, e.script.results) := by
    rw [Connection.read, if_pos hc]
  refine ⟨_, by rw [businessLogic, hread]; rfl, e.onMessage.sock_run _, ?_, rfl⟩
  simp [handed]

/-- **What an event does to the histories.**  Both grow by what its read has got, and `presented`
before that by what is shown again, which is nothing except in a stale event. -/
lemma handleEvent_cases {s : State} (e : Readiness) (hn : s.conn.sock.nonBlocking = true) :
    ∃ s' again bytes, handleEvent s e = some s' ∧ s'.conn.sock = s.conn.sock ∧
      s'.received = s.received ++ bytes ∧ s'.presented = s.presented ++ again ++ bytes ∧
      (again = [] ↔ ¬ Stale s e) := by
  have hwrite : wantsWrite e.mask = false := wantsWrite_of_reportable e.reported
  simp only [handleEvent, hwrite, Bool.false_eq_true, if_false, Option.bind_fun_some]
  by_cases hread : wantsRead e.mask = true
  · rw [if_pos hread]
    by_cases hc : s.conn.state = .connected
    · obtain ⟨s', hs, hsock, hrec, hpres⟩ := businessLogic_connected (e := e) hc hn
      exact ⟨s', [], e.script.bytes, hs, hsock, hrec, by rw [hpres, List.append_nil],
        by simp [Stale, hc]⟩
    · obtain ⟨s', hs, hsock, hrec, hpres⟩ := businessLogic_refused (e := e) hc
      exact ⟨s', s.conn.readBuffer.buf, [], hs, hsock, by rw [hrec, List.append_nil],
        by rw [hpres, List.append_nil], by simp [Stale, hc, hread]⟩
  · rw [if_neg hread]
    exact ⟨s, [], [], rfl, rfl, by simp, by simp, by simp [Stale, hread]⟩

/-! ## A whole life -/

/-- The socket stays non-blocking, and what has been received has been presented, in order. -/
structure Inv (s : State) : Prop where
  nonBlocking : s.conn.sock.nonBlocking = true
  sublist : s.received.Sublist s.presented

lemma inv_inductive : life.Inductive Inv where
  init := by
    rintro _ ⟨fd, onConnect, rfl⟩
    refine ⟨?_, List.Sublist.refl _⟩
    rw [opened, onConnect.sock_run]
    rfl
  step := by
    intro s e s' h hst
    obtain ⟨t, again, bytes, ht, hsock, hrec, hpres, -⟩ := handleEvent_cases e h.nonBlocking
    obtain rfl : t = s' := Option.some.inj (ht.symm.trans hst)
    refine ⟨by rw [hsock, h.nonBlocking], ?_⟩
    rw [hrec, hpres]
    exact (h.sublist.trans (List.sublist_append_left _ _)).append (List.Sublist.refl _)

lemma inv_opened (fd : ℤ) (onConnect : Callback) : Inv (opened fd onConnect) :=
  inv_inductive.init _ ⟨fd, onConnect, rfl⟩

/-- **Nothing received is skipped**, in any life of a connection. -/
theorem received_sublist_presented {s : State} (hs : life.Reachable s) :
    s.received.Sublist s.presented := (inv_inductive.reachable hs).sublist

/-- No event stops a connection. -/
lemma exists_run : ∀ (es : List Readiness) {s : State}, Inv s → ∃ s', life.run s es = some s'
  | [], s, _ => ⟨s, rfl⟩
  | e :: es, s, h => by
      obtain ⟨t, -, -, ht, -⟩ := handleEvent_cases e h.nonBlocking
      obtain ⟨s', hrun⟩ := exists_run es (inv_inductive.step s e t h ht)
      exact ⟨s', Machine.run_cons_eq_some.mpr ⟨t, ht, hrun⟩⟩

/-- An event keeps the histories equal exactly if it is not stale. -/
lemma presented_eq_step {s s' : State} {e : Readiness} (h : Inv s)
    (hst : life.step s e = some s') :
    s'.presented = s'.received ↔ s.presented = s.received ∧ ¬ Stale s e := by
  obtain ⟨t, again, bytes, ht, -, hrec, hpres, hagain⟩ := handleEvent_cases e h.nonBlocking
  obtain rfl : t = s' := Option.some.inj (ht.symm.trans hst)
  rw [hrec, hpres, List.append_left_inj, ← hagain]
  constructor
  · intro heq
    -- `received` is inside `presented`, and that with more behind it is no longer
    have hlen : s.presented.length + again.length = s.received.length := by
      rw [← heq, List.length_append]
    have hle : s.received.length ≤ s.presented.length := h.sublist.length_le
    have hnil : again = [] := List.eq_nil_of_length_eq_zero (by omega)
    rw [hnil, List.append_nil] at heq
    exact ⟨heq, hnil⟩
  · rintro ⟨heq, hnil⟩
    rw [heq, hnil, List.append_nil]

/-- **Each received byte is presented once exactly if no event is stale.**  Every series of events
can be handled, and at its end the callbacks have been shown, one content after the other, the
bytes that `::read` has handed over, if and only if no event ran the callback on a connection that
was not connected and had something in its read buffer. -/
theorem delivered_once_iff (fd : ℤ) (onConnect : Callback) (es : List Readiness) :
    ∃ s, life.run (opened fd onConnect) es = some s ∧
      (s.presented = s.received ↔
        life.Along (fun s e => ¬ Stale s e) (opened fd onConnect) es) := by
  obtain ⟨s, hrun⟩ := exists_run es (inv_opened fd onConnect)
  refine ⟨s, hrun, ?_⟩
  rw [Machine.run_iff (P := fun s => s.presented = s.received) inv_inductive.step
    (fun _ _ _ => presented_eq_step) es (inv_opened fd onConnect) hrun]
  exact and_iff_right rfl

/-- The callback that looks at its connection and leaves it as it is. -/
def look : Callback := ⟨id, fun _ => rfl, fun _ => id⟩

/-- A byte and the end of file behind it. -/
def lastWords : Readiness :=
  ⟨EPOLLIN, by decide, ⟨[.chunk ⟨[120], by decide, by decide⟩], .eof⟩, by decide, look⟩

/-- A reset of a connection whose end of file has been read. -/
def reset : Readiness :=
  ⟨EPOLLIN ||| EPOLLERR ||| EPOLLHUP, by decide, ⟨[], .failed 104⟩, by decide, look⟩

/-- The byte that came with the end of file is presented again at the reset. -/
theorem presented_twice :
    ¬ ∀ (fd : ℤ) (onConnect : Callback) (es : List Readiness) (s : State),
      life.run (opened fd onConnect) es = some s → s.presented = s.received := by
  intro h
  have hrun : (life.run (opened 5 look) [lastWords, reset]).map (fun s => (s.presented, s.received))
      = some ([120, 120], [120]) := by decide
  obtain ⟨s, hs, heq⟩ := Option.map_eq_some_iff.mp hrun
  have hsame := h 5 look [lastWords, reset] s hs
  rw [Prod.mk.injEq] at heq
  rw [heq.1, heq.2] at hsame
  simp at hsame

end Delivery

end CppServer
