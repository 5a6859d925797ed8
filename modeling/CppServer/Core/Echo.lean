import CppServer.Core.ReadPath
import CppServer.Core.WritePath

/-!
# The echo server

`BusinessLogic` is a `Read` followed by the application's on_message callback, once for each
readiness event.  The echo server's callback sends the read buffer back while the connection is
connected.

A `Segmentation` of a stream is one way the kernel may cut it up: over readiness events, and over
the answers of the read loop within each event.  End of file makes the read loop close the
connection, and neither the callback nor `Write` sends anything on a closed one.  So the reply is
the stream up to the event that meets end of file (`echo_reply`), whatever the cuts before it.
-/

namespace CppServer

namespace Connection

/-- An on_message callback, given the answers its writes will get. -/
abbrev MessageCallback := Connection → List WriteResult → Except Stuck WriteOutcome

/-- `Connection::BusinessLogic` -/
def businessLogic (onMessage : MessageCallback) (c : Connection) (reads : List ReadResult)
    (writes : List WriteResult) : Except Stuck WriteOutcome :=
  match c.read reads with
  | none => .error .waiting
  | some (c', _) => onMessage c' writes

/-- The on_message callback of `echo_server.cpp`. -/
def echoMessage : MessageCallback := fun c writes =>
  if c.state = .connected then (c.setWriteBuffer c.readBufferCstr).write writes
  else .ok ⟨c, [], writes⟩

/-- One readiness event at the echo server: the connection afterwards, and the bytes sent back.
The kernel accepts in full what the callback writes, which is what was read. -/
def echoEvent (c : Connection) (e : ReadScript) : Except Stuck (Connection × List UInt8) :=
  (c.businessLogic echoMessage e.results [.ok e.bytes.length]).map fun o => (o.conn, o.accepted)

/-- A series of readiness events, and everything sent back during them. -/
def echoRun : Connection → List ReadScript → Except Stuck (Connection × List UInt8)
  | c, [] => .ok (c, [])
  | c, e :: es =>
      match echoEvent c e with
      | .error s => .error s
      | .ok (c', sent) => (echoRun c' es).map fun (c'', sent') => (c'', sent ++ sent')

/-! ## One event -/

/-- A write the kernel accepts in full sends the whole buffer and empties it. -/
lemma write_in_full {c : Connection} (hc : c.state = .connected)
    (hn : c.sock.nonBlocking = true) (hfit : c.writeBuffer.size < 2 ^ 31) :
    ∃ rest, c.write [.ok c.writeBuffer.size]
      = .ok ⟨{ c with writeBuffer := {} }, c.writeBuffer.buf, rest⟩ := by
  have hint : toInt c.writeBuffer.size = c.writeBuffer.size := (toInt_eq_iff _).mpr hfit
  have hbtw : c.bytesToWrite = c.writeBuffer.size := by
    rw [bytesToWrite, hint, Int.toNat_natCast]
  have hall : c.writeBuffer.buf.take c.writeBuffer.size = c.writeBuffer.buf :=
    List.take_of_length_le le_rfl
  have h0 : 0 ≤ toInt c.writeBuffer.size := by
    rw [hint]
    exact Int.natCast_nonneg _
  have hadm : Admissible c.bytesToWrite [.ok c.writeBuffer.size] := by
    rw [hbtw]
    cases c.writeBuffer.size with
    | zero => trivial
    | succ n => exact ⟨le_rfl, by rw [Nat.sub_self]; trivial⟩
  have hwrite := writeNonBlocking_eq c [.ok c.writeBuffer.size] h0 hadm
  have hdeliver : ∃ rest, deliver c.writeBuffer.size [.ok c.writeBuffer.size]
      = some (.whole, 0, rest) := by
    cases c.writeBuffer.size with
    | zero => exact ⟨_, rfl⟩
    | succ n => exact ⟨[], by rw [deliver, Nat.sub_self, deliver]⟩
  obtain ⟨rest, hdeliver⟩ := hdeliver
  refine ⟨rest, ?_⟩
  rw [hbtw, hdeliver] at hwrite
  simp only [write, hc, ne_eq, not_true_eq_false, if_false, Socket.isNonBlocking, hn, if_true,
    hwrite, Except.map, clearWritten, WriteEnding.leaves, Nat.sub_zero, hall]
  rfl

/-- **An event that ends in EAGAIN is echoed**, and the connection is ready for the next. -/
theorem echoEvent_wouldBlock {c : Connection} (hc : c.state = .connected)
    (hn : c.sock.nonBlocking = true) {e : ReadScript} (he : e.ending = .wouldBlock)
    (h0 : 0 ∉ e.bytes) (hfit : e.bytes.length < 2 ^ 31) :
    ∃ c', echoEvent c e = .ok (c', e.bytes) ∧ c'.state = .connected ∧
      c'.sock.nonBlocking = true := by
  have hread := read_nulFree hc hn h0 []
  rw [List.append_nil, he] at hread
  set c₁ : Connection :=
    { c with readBuffer := { buf := e.bytes }, state := ReadEnding.wouldBlock.leaves .connected }
    with hc₁
  have hbuf : (c₁.setWriteBuffer c₁.readBufferCstr).writeBuffer.buf = e.bytes :=
    Buffer.cString_cstr (b := { buf := e.bytes }) h0
  have hsize : (c₁.setWriteBuffer c₁.readBufferCstr).writeBuffer.size = e.bytes.length :=
    congrArg List.length hbuf
  obtain ⟨rest, hwrite⟩ := write_in_full (c := c₁.setWriteBuffer c₁.readBufferCstr) rfl hn
    (by rw [hsize]; exact hfit)
  rw [hsize, hbuf] at hwrite
  have hstate : c₁.state = .connected := rfl
  refine ⟨{ c₁.setWriteBuffer c₁.readBufferCstr with writeBuffer := {} }, ?_, rfl, hn⟩
  simp only [echoEvent, businessLogic, hread, echoMessage, hstate, if_true, hwrite, Except.map]

/-- **An event that meets end of file is not**: the callback finds the connection closed. -/
theorem echoEvent_eof {c : Connection} (hc : c.state = .connected)
    (hn : c.sock.nonBlocking = true) {e : ReadScript} (he : e.ending = .eof) :
    ∃ c', echoEvent c e = .ok (c', []) ∧ c'.state = .closed := by
  have hread := read_eq hc hn e []
  rw [List.append_nil, he] at hread
  refine ⟨{ c with readBuffer := { buf := (e.chunks.map cString).flatten }, state := .closed },
    ?_, rfl⟩
  simp only [echoEvent, businessLogic, hread, echoMessage, ReadEnding.leaves, reduceCtorEq,
    if_false, Except.map]

/-! ## A whole stream -/

/-- The bytes of a series of events. -/
def eventBytes (es : List ReadScript) : List UInt8 := (es.map ReadScript.bytes).flatten

/-- One way the kernel may deliver a stream and the end of file behind it. -/
structure Segmentation (stream : List UInt8) where
  events : List ReadScript
  last : ReadScript
  drained : ∀ e ∈ events, e.ending = .wouldBlock
  meetsEof : last.ending = .eof
  delivers : eventBytes events ++ last.bytes = stream

/-- The events of a segmentation in order. -/
def Segmentation.all {stream : List UInt8} (seg : Segmentation stream) : List ReadScript :=
  seg.events ++ [seg.last]

/-- Each event before the end of file has fewer bytes than `WriteNonBlocking` can count. -/
def Segmentation.Countable {stream : List UInt8} (seg : Segmentation stream) : Prop :=
  ∀ e ∈ seg.events, e.bytes.length < 2 ^ 31

/-- The run, by induction on the events before the one that meets end of file. -/
theorem echoRun_eq {last : ReadScript} (hlast : last.ending = .eof) :
    ∀ (es : List ReadScript) {c : Connection}, c.state = .connected →
      c.sock.nonBlocking = true → (∀ e ∈ es, e.ending = .wouldBlock) →
      0 ∉ eventBytes es → (∀ e ∈ es, e.bytes.length < 2 ^ 31) →
      ∃ c', echoRun c (es ++ [last]) = .ok (c', eventBytes es) ∧ c'.state = .closed
  | [], c, hc, hn, _, _, _ => by
      obtain ⟨c', hev, hstate⟩ := echoEvent_eof hc hn hlast
      exact ⟨c', by simp [echoRun, hev, eventBytes, Except.map], hstate⟩
  | e :: es, c, hc, hn, hdrained, h0, hfit => by
      simp only [eventBytes, List.map_cons, List.flatten_cons, List.mem_append, not_or] at h0
      obtain ⟨c₁, hev, hc₁, hn₁⟩ :=
        echoEvent_wouldBlock hc hn (hdrained e (by simp)) h0.1 (hfit e (by simp))
      obtain ⟨c', hrun, hstate⟩ := echoRun_eq hlast es hc₁ hn₁
        (fun e' he' => hdrained e' (by simp [he'])) h0.2 (fun e' he' => hfit e' (by simp [he']))
      refine ⟨c', ?_, hstate⟩
      simp [echoRun, hev, hrun, eventBytes, Except.map]

/-- **What the client gets back.**  For every segmentation of a NUL-free stream the reply is what
was read before the event that meets end of file: the stream less the bytes that share their read
loop with it.  It is the whole stream exactly when end of file comes in an event of its own, and
two segmentations that have as many bytes in that last event produce the same reply. -/
theorem echo_reply (c : Connection) (hc : c.state = .connected)
    (hn : c.sock.nonBlocking = true) (stream : List UInt8) (h0 : 0 ∉ stream)
    (seg : Segmentation stream) (hfit : seg.Countable) :
    ∃ c' reply, echoRun c seg.all = .ok (c', reply) ∧ c'.state = .closed ∧
      reply ++ seg.last.bytes = stream ∧ (reply = stream ↔ seg.last.bytes = []) ∧
      ∀ seg' : Segmentation stream, seg'.Countable →
        seg'.last.bytes.length = seg.last.bytes.length →
        ∃ c'', echoRun c seg'.all = .ok (c'', reply) := by
  have hbefore : ∀ seg : Segmentation stream, 0 ∉ eventBytes seg.events := fun seg h =>
    h0 (by rw [← seg.delivers]; exact List.mem_append_left _ h)
  obtain ⟨c', hrun, hstate⟩ := echoRun_eq seg.meetsEof seg.events hc hn seg.drained
    (hbefore seg) hfit
  refine ⟨c', eventBytes seg.events, hrun, hstate, seg.delivers, ?_, ?_⟩
  · constructor
    · intro h
      have hself : eventBytes seg.events ++ seg.last.bytes = eventBytes seg.events :=
        seg.delivers.trans h.symm
      simpa using hself
    · intro h
      have hdel := seg.delivers
      rwa [h, List.append_nil] at hdel
  · intro seg' hfit' hlen
    obtain ⟨c'', hrun', -⟩ := echoRun_eq seg'.meetsEof seg'.events hc hn seg'.drained
      (hbefore seg') hfit'
    have heq : eventBytes seg'.events ++ seg'.last.bytes
        = eventBytes seg.events ++ seg.last.bytes := seg'.delivers.trans seg.delivers.symm
    have hlen' := congrArg List.length heq
    simp only [List.length_append] at hlen'
    obtain ⟨hev, -⟩ := List.append_inj heq (by omega)
    exact ⟨c'', hev ▸ hrun'⟩

/-- The two bytes of "hi", as one chunk. -/
def hiChunk : Pull := .chunk ⟨[104, 105], by decide, by decide⟩

/-- "hi" in an event of its own, and end of file in the next. -/
def hiApart : Segmentation [104, 105] where
  events := [⟨[hiChunk], .wouldBlock⟩]
  last := ⟨[], .eof⟩
  drained := by simp
  meetsEof := rfl
  delivers := by decide

/-- "hi" and end of file in one read loop. -/
def hiTogether : Segmentation [104, 105] where
  events := []
  last := ⟨[hiChunk], .eof⟩
  drained := by simp
  meetsEof := rfl
  delivers := by decide

theorem echo_reply_hiApart :
    ∃ c', echoRun (fresh 5) hiApart.all = .ok (c', [104, 105]) := by
  obtain ⟨c', reply, hrun, -, -, hall, -⟩ := echo_reply (fresh 5) rfl rfl [104, 105] (by decide)
    hiApart (by simp [Segmentation.Countable, hiApart, hiChunk, ReadScript.bytes,
      ReadScript.chunks, Pull.bytes])
  exact ⟨c', by rw [hrun, hall.mpr rfl]⟩

/-- Bytes that share their read loop with end of file are not sent back. -/
theorem echo_depends_on_segmentation :
    ¬ ∀ (c : Connection) (stream : List UInt8) (seg : Segmentation stream),
      c.state = .connected → c.sock.nonBlocking = true → 0 ∉ stream →
      ∃ c', echoRun c seg.all = .ok (c', stream) := by
  intro h
  obtain ⟨c', hrun⟩ := h (fresh 5) [104, 105] hiTogether rfl rfl (by decide)
  obtain ⟨c₁, hev, -⟩ := echoEvent_eof (c := fresh 5) rfl rfl hiTogether.meetsEof
  have hnone : echoRun (fresh 5) hiTogether.all = .ok (c₁, []) := by
    simp [Segmentation.all, hiTogether, echoRun, Except.map] at hev ⊢
    simp [hev]
  rw [hnone] at hrun
  simp at hrun

end Connection

end CppServer
