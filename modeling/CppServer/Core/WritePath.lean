import CppServer.Core.Connection

/-!
# What `Write` does with the write buffer

`deliver` is the abstract sender: it is told how many bytes are left and what the kernel answers,
and it only counts.  `writeLoop_refines` says that the loop of `WriteNonBlocking` is that sender,
with the bytes accepted being the prefix of the buffer that the count stands for.

`Write` clears the buffer whatever the loop left, so a reply survives exactly when nothing was
left to lose.  `reply_kept_iff` states that for both socket modes and every series of answers.
-/

namespace CppServer

/-- How a series of answers ends a request. -/
inductive WriteEnding where
  | whole
  | wouldBlock
  | failed
  deriving DecidableEq, Repr

/-- The state an ending leaves a connection in. -/
def WriteEnding.leaves (e : WriteEnding) (s : ConnState) : ConnState :=
  match e with
  | .whole => s
  | .wouldBlock => s
  | .failed => .closed

/-- **The abstract sender**, with `left` bytes still to be accepted: how it ends, what is left
then, and the answers it did not need.  `none` says that it still waits for an answer. -/
def deliver : ℕ → List WriteResult → Option (WriteEnding × ℕ × List WriteResult)
  | 0, rs => some (.whole, 0, rs)
  | _ + 1, [] => none
  | left + 1, .ok k :: rs => deliver (left + 1 - k) rs
  | left + 1, .error .EINTR :: rs => deliver (left + 1) rs
  | left + 1, .error .EAGAIN :: rs => some (.wouldBlock, left + 1, rs)
  | left + 1, .error (.other _) :: rs => some (.failed, left + 1, rs)

/-- The kernel never accepts more than it was asked to. -/
def Admissible : ℕ → List WriteResult → Prop
  | 0, _ => True
  | _ + 1, [] => True
  | left + 1, .ok k :: rs => k ≤ left + 1 ∧ Admissible (left + 1 - k) rs
  | left + 1, .error _ :: rs => Admissible (left + 1) rs

/-- What is left never grows, and nothing is left exactly when the sender got through. -/
theorem deliver_left {left : ℕ} {rs : List WriteResult} {e : WriteEnding} {left' : ℕ}
    {rest : List WriteResult} (h : deliver left rs = some (e, left', rest)) :
    left' ≤ left ∧ (e = .whole ↔ left' = 0) := by
  fun_induction deliver left rs with
  | case1 rs => cases h; simp
  | case2 left => cases h
  | case3 left k rs ih =>
      obtain ⟨hle, hiff⟩ := ih h
      exact ⟨by omega, hiff⟩
  | case4 left rs ih => exact ih h
  | case5 left rs => cases h; simp
  | case6 left code rs => cases h; simp

namespace Connection

/-- The loop of `WriteNonBlocking` with `left` bytes of `buf` to go. -/
def loopAt (buf : List UInt8) (st : ConnState) (left : ℕ) : WriteLoop :=
  { state := st, bytesLeft := left, accepted := buf.take (buf.length - left) }

/-- The range given to `::write` starts right behind the accepted bytes and ends with the
buffer. -/
lemma range_loopAt {buf : List UInt8} {left : ℕ} (st : ConnState) (h : left ≤ buf.length) :
    (loopAt buf st left).range buf buf.length = buf.drop (buf.length - left) := by
  have hoff : ((buf.length : ℤ) - (left : ℤ)).toNat = buf.length - left := by omega
  simp only [loopAt, WriteLoop.range, hoff, Int.toNat_natCast]
  rw [List.take_of_length_le]
  rw [List.length_drop]
  omega

/-- An answer that accepts `k` bytes moves the loop `k` bytes on. -/
lemma writeBody_ok {buf : List UInt8} {left k : ℕ} (st : ConnState) (h : left ≤ buf.length)
    (hk : k ≤ left) :
    writeBody buf buf.length (loopAt buf st left) (.ok k)
      = (loopAt buf st (left - k), .again) := by
  have hsplit : buf.length - (left - k) = (buf.length - left) + k := by omega
  have hleft : (left : ℤ) - (k : ℤ) = ((left - k : ℕ) : ℤ) := by omega
  simp only [writeBody, range_loopAt st h]
  simp only [loopAt, hsplit, hleft, List.take_add]

/-- **The loop refines the abstract sender.**  By recursion on the answers, with the loop state
tied to the count by `loopAt`. -/
theorem writeLoop_refines (buf : List UInt8) (st : ConnState) :
    ∀ (rs : List WriteResult) (left : ℕ), left ≤ buf.length → Admissible left rs →
      whileLoop (fun s => decide (0 < s.bytesLeft)) (writeBody buf buf.length)
          (loopAt buf st left) rs
        = (deliver left rs).map fun d => (loopAt buf (d.1.leaves st) d.2.1, d.2.2)
  | rs, 0, _, _ => by
      rw [whileLoop_exit (by simp [loopAt])]
      simp [deliver, WriteEnding.leaves]
  | [], left + 1, _, _ => by
      rw [whileLoop_nil (by simp [loopAt]), deliver]
      rfl
  | .ok k :: rs, left + 1, hle, hadm => by
      have hadm' : k ≤ left + 1 ∧ Admissible (left + 1 - k) rs := hadm
      rw [whileLoop_again (by simp [loopAt]) (writeBody_ok st hle hadm'.1), deliver]
      exact writeLoop_refines buf st rs (left + 1 - k) (by omega) hadm'.2
  | .error .EINTR :: rs, left + 1, hle, hadm => by
      have hadm' : Admissible (left + 1) rs := hadm
      have hb : writeBody buf buf.length (loopAt buf st (left + 1)) (.error .EINTR)
          = (loopAt buf st (left + 1), .again) := rfl
      rw [whileLoop_again (by simp [loopAt]) hb, deliver]
      exact writeLoop_refines buf st rs (left + 1) hle hadm'
  | .error .EAGAIN :: rs, left + 1, _, _ => by
      have hb : writeBody buf buf.length (loopAt buf st (left + 1)) (.error .EAGAIN)
          = (loopAt buf st (left + 1), .stop) := rfl
      rw [whileLoop_stop (by simp [loopAt]) hb, deliver]
      rfl
  | .error (.other code) :: rs, left + 1, _, _ => by
      have hb : writeBody buf buf.length (loopAt buf st (left + 1)) (.error (.other code))
          = (loopAt buf .closed (left + 1), .stop) := rfl
      rw [whileLoop_stop (by simp [loopAt]) hb, deliver]
      rfl

/-! ## The two write functions -/

/-- The number of bytes `WriteNonBlocking` sets out to send, where it is defined. -/
def bytesToWrite (c : Connection) : ℕ := (toInt c.writeBuffer.size).toNat

lemma bytesToWrite_le (c : Connection) : c.bytesToWrite ≤ c.writeBuffer.size := by
  have := toInt_le c.writeBuffer.size
  unfold bytesToWrite
  omega

/-- `WriteNonBlocking` in terms of the abstract sender. -/
theorem writeNonBlocking_eq (c : Connection) (script : List WriteResult)
    (h0 : 0 ≤ toInt c.writeBuffer.size) (hadm : Admissible c.bytesToWrite script) :
    c.writeNonBlocking script
      = match deliver c.bytesToWrite script with
        | none => .error .waiting
        | some (e, left, rest) =>
            .ok ⟨{ c with state := e.leaves c.state },
              c.writeBuffer.buf.take (c.bytesToWrite - left), rest⟩ := by
  have hle := c.bytesToWrite_le
  have hint : toInt c.writeBuffer.size = (c.bytesToWrite : ℤ) := (Int.toNat_of_nonneg h0).symm
  have hlen : (c.writeBuffer.buf.take c.bytesToWrite).length = c.bytesToWrite := by
    rw [List.length_take]
    exact min_eq_left hle
  have hloop := writeLoop_refines (c.writeBuffer.buf.take c.bytesToWrite) c.state script
    c.bytesToWrite (by rw [hlen]) hadm
  have hstart : loopAt (c.writeBuffer.buf.take c.bytesToWrite) c.state c.bytesToWrite
      = { state := c.state, bytesLeft := c.bytesToWrite } := by
    simp [loopAt, hlen]
  rw [hlen, hstart] at hloop
  simp only [writeNonBlocking]
  rw [if_neg (Int.not_lt.mpr h0), hint, Int.toNat_natCast, hloop]
  cases deliver c.bytesToWrite script with
  | none => rfl
  | some d =>
      obtain ⟨e, left, rest⟩ := d
      simp only [Option.map_some, loopAt, hlen, List.take_take]
      rw [min_eq_left (Nat.sub_le _ _)]

/-! ## Is any byte of the reply lost? -/

/-- What the kernel may answer to the writes of one call. -/
def AdmissibleWrites (c : Connection) (script : List WriteResult) : Prop :=
  if c.sock.nonBlocking then Admissible c.bytesToWrite script
  else ∀ k ∈ script.head?, ∀ n, k = .ok n → n ≤ c.writeBuffer.size

/-- If the call leaves the connection connected, then the bytes the kernel accepted and the bytes
still in the write buffer are the bytes that were in it. -/
def ReplyKept (c : Connection) (script : List WriteResult) : Prop :=
  match c.write script with
  | .ok o => o.conn.state = .connected →
      o.accepted ++ o.conn.writeBuffer.buf = c.writeBuffer.buf
  | .error .waiting => True
  | .error .undefined => False

/-- The answers take the whole content, or end in a fatal error. -/
def SentOrFailed (c : Connection) (script : List WriteResult) : Prop :=
  if c.sock.nonBlocking then
    0 ≤ toInt c.writeBuffer.size ∧
    match deliver c.bytesToWrite script with
    | none => True
    | some (.whole, _) => c.writeBuffer.size < 2 ^ 31
    | some (.wouldBlock, _) => False
    | some (.failed, _) => True
  else
    match script with
    | .ok k :: _ => k = c.writeBuffer.size
    | _ => True

/-- A cut of the content is the content when it is as long. -/
lemma take_eq_self_iff (l : List UInt8) {n : ℕ} (h : n ≤ l.length) :
    l.take n ++ [] = l ↔ n = l.length := by
  rw [List.append_nil]
  constructor
  · intro heq
    have hlen := congrArg List.length heq
    rw [List.length_take] at hlen
    omega
  · intro heq
    rw [heq, List.take_length]

lemma reply_kept_nonBlocking (c : Connection) (script : List WriteResult)
    (hc : c.state = .connected) (hn : c.sock.nonBlocking = true)
    (hadm : AdmissibleWrites c script) : ReplyKept c script ↔ SentOrFailed c script := by
  have hadm' : Admissible c.bytesToWrite script := by simpa [AdmissibleWrites, hn] using hadm
  have hsize : c.writeBuffer.buf.length = c.writeBuffer.size := rfl
  simp only [ReplyKept, SentOrFailed, write, hc, hn, Socket.isNonBlocking, ne_eq,
    not_true_eq_false, if_false, if_true]
  by_cases h0 : 0 ≤ toInt c.writeBuffer.size
  · rw [writeNonBlocking_eq c script h0 hadm']
    have hle := c.bytesToWrite_le
    cases hd : deliver c.bytesToWrite script with
    | none => simp [Except.map, h0]
    | some d =>
        obtain ⟨e, left, rest⟩ := d
        obtain ⟨hleft, hwhole⟩ := deliver_left hd
        have hsub : c.bytesToWrite - left ≤ c.writeBuffer.buf.length := by omega
        simp only [Except.map, clearWritten, hc, Buffer.clearBuffer_buf,
          take_eq_self_iff _ hsub]
        cases e with
        | whole =>
            -- everything set out for was accepted: it was everything if the size fits an `int`
            have hz : left = 0 := hwhole.mp rfl
            have hfit := toInt_eq_iff c.writeBuffer.size
            have hbtw : c.bytesToWrite = c.writeBuffer.size ↔ c.writeBuffer.size < 2 ^ 31 := by
              rw [← hfit]
              unfold bytesToWrite
              omega
            simp only [WriteEnding.leaves, hz, Nat.sub_zero, hsize, h0, true_and,
              forall_const, hbtw]
        | wouldBlock =>
            -- some bytes were left, and the buffer is cleared all the same
            have hz : left ≠ 0 := fun h => by simpa using hwhole.mpr h
            simp only [WriteEnding.leaves, hsize, h0, true_and, forall_const, iff_false]
            omega
        | failed => simp [WriteEnding.leaves, h0]
  · have hneg : c.writeNonBlocking script = .error .undefined := by
      simp only [writeNonBlocking]
      rw [if_pos (Int.not_le.mp h0)]
    rw [hneg]
    simp [Except.map, h0]

lemma reply_kept_blocking (c : Connection) (script : List WriteResult)
    (hc : c.state = .connected) (hn : c.sock.nonBlocking = false)
    (hadm : AdmissibleWrites c script) : ReplyKept c script ↔ SentOrFailed c script := by
  simp only [AdmissibleWrites, hn, Bool.false_eq_true, if_false] at hadm
  simp only [ReplyKept, SentOrFailed, write, hc, hn, Socket.isNonBlocking, ne_eq,
    not_true_eq_false, if_false, Bool.false_eq_true]
  match script with
  | [] => simp [writeBlocking, Except.map]
  | .error e :: rs => simp [writeBlocking, Except.map, clearWritten]
  | .ok k :: rs =>
      have hk : k ≤ c.writeBuffer.buf.length := hadm (.ok k) rfl k rfl
      simp only [writeBlocking, Except.map, clearWritten, Buffer.clearBuffer_buf, hc,
        forall_const, take_eq_self_iff _ hk, Buffer.size]

/-- **When a reply is kept.**  For every content, both socket modes and every series of answers:
no byte is dropped exactly when the connection was not connected to begin with, or the kernel
took the whole content, or a fatal error closed the connection. -/
theorem reply_kept_iff (c : Connection) (script : List WriteResult)
    (hadm : AdmissibleWrites c script) :
    ReplyKept c script ↔ (c.state = .connected → SentOrFailed c script) := by
  by_cases hc : c.state = .connected
  · rw [imp_iff_right hc]
    cases hn : c.sock.nonBlocking with
    | true => exact reply_kept_nonBlocking c script hc hn hadm
    | false => exact reply_kept_blocking c script hc hn hadm
  · have hkept : ReplyKept c script := by simp [ReplyKept, write, hc]
    simp [hkept, hc]

/-- A connected non-blocking connection about to send three bytes. -/
def threeBytes : Connection :=
  { readBuffer := {}, writeBuffer := { buf := [97, 98, 99] },
    sock := { fd := 5, nonBlocking := true }, state := .connected }

lemma bytesToWrite_threeBytes : threeBytes.bytesToWrite = 3 := by
  have h : toInt threeBytes.writeBuffer.size = threeBytes.writeBuffer.size :=
    (toInt_eq_iff _).mpr (by decide)
  rw [bytesToWrite, h]
  rfl

theorem reply_kept_iff_threeBytes :
    ReplyKept threeBytes [.ok 1, .error .EINTR, .ok 2] := by
  refine (reply_kept_iff threeBytes [.ok 1, .error .EINTR, .ok 2] ?_).mpr fun _ => ?_
  · show Admissible threeBytes.bytesToWrite _
    rw [bytesToWrite_threeBytes]
    simp [Admissible]
  · have h0 : 0 ≤ toInt threeBytes.writeBuffer.size := by
      rw [(toInt_eq_iff _).mpr (by decide)]
      decide
    rw [SentOrFailed, bytesToWrite_threeBytes]
    exact ⟨h0, show threeBytes.writeBuffer.size < 2 ^ 31 by decide⟩

/-- The kernel takes one byte of three and then has no room: the other two are gone. -/
theorem reply_dropped_at_EAGAIN :
    ¬ ∀ (c : Connection) (script : List WriteResult), AdmissibleWrites c script →
      ReplyKept c script := by
  intro h
  have hadm : AdmissibleWrites threeBytes [.ok 1, .error .EAGAIN] := by
    show Admissible threeBytes.bytesToWrite _
    rw [bytesToWrite_threeBytes]
    simp [Admissible]
  have hwrite : threeBytes.write [.ok 1, .error .EAGAIN]
      = .ok ⟨{ threeBytes with writeBuffer := {} }, [97], []⟩ := by
    decide +kernel
  have hkept := h threeBytes [.ok 1, .error .EAGAIN] hadm
  rw [ReplyKept, hwrite] at hkept
  exact absurd (hkept rfl) (by decide)

end Connection

end CppServer
