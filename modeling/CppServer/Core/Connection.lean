import Mathlib.Algebra.Group.Int.Defs
import Mathlib.Algebra.Group.Nat.Defs
import Mathlib.Data.Int.Basic
import CppServer.Lib.Loop
import CppServer.Core.Buffer
import CppServer.Core.Syscall

/-!
# `Connection`: reading and writing

A constructed connection, and the four transfer loops of `connection.cpp`.  Each of them runs on
a script of the answers its system call will get (`Lib/Loop.lean`), so a call is a function of the
connection and of the script.

`int bytes_to_write = write_buffer_->Size()` narrows a 64-bit size to 32 bits, and the
variable-length array sized by it has undefined behaviour when the result is negative; both are
in the model.  The depth of the stack is not.
-/

namespace CppServer

/-- `Connection::State` -/
inductive ConnState where
  | invalid
  | handShaking
  | connected
  | closed
  | failed
  deriving DecidableEq, Repr

/-- `Socket`: its descriptor, and what `fcntl(fd_, F_GETFL) & O_NONBLOCK` answers for it. -/
structure Socket where
  fd : ℤ
  nonBlocking : Bool
  deriving DecidableEq, Repr

/-- `Socket::IsNonBlocking` -/
def Socket.isNonBlocking (s : Socket) : Bool := s.nonBlocking

/-- `Connection`, once its constructor has returned. -/
structure Connection where
  readBuffer : Buffer
  writeBuffer : Buffer
  sock : Socket
  state : ConnState
  deriving DecidableEq, Repr

/-- The size of the array `ReadNonBlocking` reads into. -/
def BUFFER_SIZE : ℕ := 1024

/-- The conversion of a `ssize_t` to `int`. -/
@[irreducible] def toInt (n : ℕ) : ℤ := Int.bmod n (2 ^ 32)

/-- The conversion to `int` keeps the sizes an `int` can hold, and no others. -/
theorem toInt_eq_iff (n : ℕ) : toInt n = n ↔ n < 2 ^ 31 := by
  unfold toInt
  rw [Int.bmod_def]
  split <;> omega

lemma toInt_le (n : ℕ) : toInt n ≤ n := by
  unfold toInt
  rw [Int.bmod_def]
  split <;> omega

namespace Connection

/-! ## Reading -/

/-- The array after `memset(buf, 0, sizeof(buf))` and a `::read` that stored `chunk`. -/
def readArray (chunk : List UInt8) : List UInt8 :=
  chunk ++ List.replicate (BUFFER_SIZE - chunk.length) 0

/-- One iteration of the loop of `ReadNonBlocking`. -/
def readBody (c : Connection) : ReadResult → Connection × Control
  | .ok (b :: bs) =>
      ({ c with readBuffer := c.readBuffer.appendN (readArray (b :: bs)) (b :: bs).length }, .again)
  | .error .EINTR => (c, .again)
  | .error .EAGAIN => (c, .stop)
  -- end of file
  | .ok [] => ({ c with state := .closed }, .stop)
  | .error (.other _) => ({ c with state := .closed }, .stop)

/-- `Connection::ReadNonBlocking` -/
def readNonBlocking (c : Connection) (script : List ReadResult) :
    Option (Connection × List ReadResult) :=
  whileLoop (fun _ => true) readBody c script

/-- What `ReadBlocking` does with the answer of its one `::read`. -/
def readBlockingBody (c : Connection) : ReadResult → Connection
  | .ok (b :: bs) => { c with readBuffer := c.readBuffer.appendN (b :: bs) (b :: bs).length }
  -- end of file: nothing is recorded
  | .ok [] => c
  | .error _ => { c with state := .closed }

/-- `Connection::ReadBlocking` -/
def readBlocking (c : Connection) : List ReadResult → Option (Connection × List ReadResult)
  | [] => none
  | r :: rs => some (readBlockingBody c r, rs)

/-- `Connection::Read` -/
def read (c : Connection) (script : List ReadResult) : Option (Connection × List ReadResult) :=
  if c.state ≠ .connected then some (c, script)
  else
    let c := { c with readBuffer := c.readBuffer.clearBuffer }
    if c.sock.isNonBlocking then c.readNonBlocking script else c.readBlocking script

/-! ## Writing -/

/-- The variables of `WriteNonBlocking`, and the bytes the kernel has accepted so far. -/
structure WriteLoop where
  state : ConnState
  bytesLeft : ℤ
  accepted : List UInt8 := []
  deriving DecidableEq, Repr

/-- The bytes handed to `::write`: from `buf + bytes_to_write - bytes_left`, `bytes_left` long. -/
def WriteLoop.range (buf : List UInt8) (bytesToWrite : ℤ) (s : WriteLoop) : List UInt8 :=
  (buf.drop (bytesToWrite - s.bytesLeft).toNat).take s.bytesLeft.toNat

/-- One iteration of the loop of `WriteNonBlocking`. -/
def writeBody (buf : List UInt8) (bytesToWrite : ℤ) (s : WriteLoop) :
    WriteResult → WriteLoop × Control
  | .ok k =>
      ({ s with bytesLeft := s.bytesLeft - k,
                accepted := s.accepted ++ (s.range buf bytesToWrite).take k }, .again)
  | .error .EINTR => (s, .again)
  | .error .EAGAIN => (s, .stop)
  | .error (.other _) => ({ s with state := .closed }, .stop)

/-- What a call of a write function leaves: the connection, the bytes the kernel accepted during
the call, and the answers that were not needed. -/
structure WriteOutcome where
  conn : Connection
  accepted : List UInt8
  rest : List WriteResult
  deriving DecidableEq, Repr

/-- `Connection::WriteNonBlocking` -/
def writeNonBlocking (c : Connection) (script : List WriteResult) : Except Stuck WriteOutcome :=
  let bytesToWrite := toInt c.writeBuffer.size
  if bytesToWrite < 0 then .error .undefined
  else
    let buf := c.writeBuffer.buf.take bytesToWrite.toNat
    match whileLoop (fun s => decide (0 < s.bytesLeft)) (writeBody buf bytesToWrite)
        { state := c.state, bytesLeft := bytesToWrite } script with
    | none => .error .waiting
    | some (s, rest) => .ok ⟨{ c with state := s.state }, s.accepted, rest⟩

/-- `Connection::WriteBlocking` -/
def writeBlocking (c : Connection) : List WriteResult → Except Stuck WriteOutcome
  | [] => .error .waiting
  | .ok k :: rs => .ok ⟨c, c.writeBuffer.buf.take k, rs⟩
  | .error _ :: rs => .ok ⟨{ c with state := .closed }, [], rs⟩

/-- The last statement of `Write`, after either way of writing. -/
def clearWritten (o : WriteOutcome) : WriteOutcome :=
  { o with conn := { o.conn with writeBuffer := o.conn.writeBuffer.clearBuffer } }

/-- `Connection::Write` -/
def write (c : Connection) (script : List WriteResult) : Except Stuck WriteOutcome :=
  if c.state ≠ .connected then .ok ⟨c, [], script⟩
  else
    (if c.sock.isNonBlocking then c.writeNonBlocking script else c.writeBlocking script).map
      clearWritten

/-- `Connection::SetWriteBuffer` -/
def setWriteBuffer (c : Connection) (str : List UInt8) : Connection :=
  { c with writeBuffer := c.writeBuffer.setBuf str }

/-- `Connection::ReadBuffer`: the pointer `Cstr` of the read buffer. -/
def readBufferCstr (c : Connection) : List UInt8 := c.readBuffer.cstr

end Connection

end CppServer
