import CppServer.Core.Connection

/-!
# What a non-blocking `Read` leaves in the read buffer

A *read script* is the whole series of answers one call of `ReadNonBlocking` can get: chunks of
1 to `BUFFER_SIZE` bytes and interruptions in any order, then one answer that ends the loop.  The
bounds are fields of `Chunk`, so a script the kernel could not produce cannot be built.

* `readNonBlocking_results` — the loop consumes exactly the script, and appends each chunk up to
  the chunk's first NUL.
* `read_eq` — the same for `Read`, as one equation for the resulting connection.
* `read_appends_cut_chunks` — the content is the concatenation of the chunks, each cut at its
  first NUL.  It is the concatenation of the chunks themselves exactly when no chunk has a NUL,
  and NUL-free data gives the same result however it is cut into chunks.
-/

namespace CppServer

/-- The bytes of one successful `::read` that is not end of file. -/
structure Chunk where
  bytes : List UInt8
  nonempty : bytes ≠ []
  fits : bytes.length ≤ BUFFER_SIZE

/-- An answer after which the read loop goes on. -/
inductive Pull where
  | chunk (c : Chunk)
  | interrupted

/-- The answer that ends the read loop. -/
inductive ReadEnding where
  | wouldBlock
  | eof
  | failed (code : ℕ)
  deriving DecidableEq, Repr

def Pull.result : Pull → ReadResult
  | .chunk c => .ok c.bytes
  | .interrupted => .error .EINTR

/-- The bytes a pull carries; an interrupted `::read` carries none. -/
def Pull.bytes : Pull → List UInt8
  | .chunk c => c.bytes
  | .interrupted => []

def ReadEnding.result : ReadEnding → ReadResult
  | .wouldBlock => .error .EAGAIN
  | .eof => .ok []
  | .failed code => .error (.other code)

/-- The state an ending leaves a connection in. -/
def ReadEnding.leaves (e : ReadEnding) (s : ConnState) : ConnState :=
  match e with
  | .wouldBlock => s
  | .eof => .closed
  | .failed _ => .closed

/-- All answers of one read loop. -/
structure ReadScript where
  pulls : List Pull
  ending : ReadEnding

namespace ReadScript

/-- The answers, as the loop gets them. -/
def results (rs : ReadScript) : List ReadResult := rs.pulls.map Pull.result ++ [rs.ending.result]

def chunks (rs : ReadScript) : List (List UInt8) := rs.pulls.map Pull.bytes

/-- All bytes the kernel handed out, in order. -/
def bytes (rs : ReadScript) : List UInt8 := rs.chunks.flatten

end ReadScript

namespace Connection

/-! ## One iteration -/

lemma take_readArray (chunk : List UInt8) : (readArray chunk).take chunk.length = chunk := by
  simp [readArray]

/-- An iteration that does not end the loop appends the pull's bytes up to their first NUL. -/
lemma readBody_pull (c : Connection) (p : Pull) :
    c.readBody p.result
      = ({ c with readBuffer := { buf := c.readBuffer.buf ++ cString p.bytes } }, .again) := by
  cases p with
  | interrupted => simp [Pull.result, Pull.bytes, readBody]
  | chunk ch =>
      obtain ⟨bytes, hne, -⟩ := ch
      cases bytes with
      | nil => exact absurd rfl hne
      | cons b bs =>
          simp only [Pull.result, Pull.bytes, readBody, Buffer.appendN, take_readArray,
            Buffer.pushUntilNul_eq]

/-- The last iteration touches nothing but the state. -/
lemma readBody_ending (c : Connection) (e : ReadEnding) :
    c.readBody e.result = ({ c with state := e.leaves c.state }, .stop) := by
  cases e <;> rfl

/-! ## The loop -/

/-- **The loop on a whole script.**  By induction on the pulls: each of them is one iteration that
goes on, and the ending is the one that stops. -/
theorem readNonBlocking_results (rs : ReadScript) (rest : List ReadResult) (c : Connection) :
    c.readNonBlocking (rs.results ++ rest)
      = some ({ c with
          readBuffer := { buf := c.readBuffer.buf ++ (rs.chunks.map cString).flatten },
          state := rs.ending.leaves c.state }, rest) := by
  obtain ⟨pulls, ending⟩ := rs
  simp only [ReadScript.results, ReadScript.chunks, readNonBlocking]
  induction pulls generalizing c with
  | nil =>
      rw [List.map_nil, List.nil_append, List.singleton_append,
        whileLoop_stop rfl (readBody_ending c ending)]
      simp
  | cons p ps ih =>
      rw [List.map_cons, List.cons_append, List.cons_append,
        whileLoop_again rfl (readBody_pull c p), ih]
      simp

/-- `Read` on a connected non-blocking connection: the buffer is cleared and then filled. -/
theorem read_eq {c : Connection} (hc : c.state = .connected) (hn : c.sock.nonBlocking = true)
    (rs : ReadScript) (rest : List ReadResult) :
    c.read (rs.results ++ rest)
      = some ({ c with
          readBuffer := { buf := (rs.chunks.map cString).flatten },
          state := rs.ending.leaves .connected }, rest) := by
  have hloop := readNonBlocking_results rs rest { c with readBuffer := c.readBuffer.clearBuffer }
  simp only [Buffer.clearBuffer_buf, List.nil_append, hc] at hloop
  simp only [read, hc, ne_eq, not_true_eq_false, if_false, Socket.isNonBlocking, hn, if_true]
  exact hloop

/-- The cut chunks of NUL-free data are the data. -/
lemma flatten_cut_eq {rs : ReadScript} (h : 0 ∉ rs.bytes) :
    (rs.chunks.map cString).flatten = rs.bytes :=
  (flatten_cString_eq_iff rs.chunks).mpr h

/-- The whole of `Read`, when the data has no NUL. -/
theorem read_nulFree {c : Connection} (hc : c.state = .connected)
    (hn : c.sock.nonBlocking = true) {rs : ReadScript} (h0 : 0 ∉ rs.bytes)
    (rest : List ReadResult) :
    c.read (rs.results ++ rest)
      = some ({ c with readBuffer := { buf := rs.bytes },
                       state := rs.ending.leaves .connected }, rest) := by
  rw [read_eq hc hn, flatten_cut_eq h0]

/-! ## The result -/

/-- **What a read leaves.**  After `Read` on a connected non-blocking connection the buffer holds
the chunks of the call in order, each up to its first NUL.  Nothing is lost exactly when the data
has no NUL, and then two scripts with the same bytes and the same ending give the same connection,
wherever their chunk boundaries and interruptions fall. -/
theorem read_appends_cut_chunks (c : Connection) (hc : c.state = .connected)
    (hn : c.sock.nonBlocking = true) (rs : ReadScript) (rest : List ReadResult) :
    ∃ c', c.read (rs.results ++ rest) = some (c', rest) ∧
      c'.readBuffer.buf = (rs.chunks.map cString).flatten ∧
      c'.state = rs.ending.leaves .connected ∧
      (c'.readBuffer.buf = rs.chunks.flatten ↔ ∀ chunk ∈ rs.chunks, 0 ∉ chunk) ∧
      ∀ rs' : ReadScript, 0 ∉ rs.bytes → rs'.bytes = rs.bytes → rs'.ending = rs.ending →
        c.read (rs'.results ++ rest) = c.read (rs.results ++ rest) := by
  refine ⟨_, read_eq hc hn rs rest, rfl, rfl, ?_, ?_⟩
  · rw [flatten_cString_eq_iff, List.mem_flatten]
    constructor
    · exact fun h chunk hm h0 => h ⟨chunk, hm, h0⟩
    · rintro h ⟨chunk, hm, h0⟩
      exact h chunk hm h0
  · intro rs' h0 hbytes hending
    have h0' : 0 ∉ rs'.bytes := hbytes ▸ h0
    rw [read_nulFree hc hn h0, read_nulFree hc hn h0', hbytes, hending]

/-- A connected non-blocking connection with empty buffers. -/
def fresh (fd : ℤ) : Connection :=
  { readBuffer := {}, writeBuffer := {}, sock := { fd, nonBlocking := true }, state := .connected }

theorem read_appends_cut_chunks_fresh :
    ∃ c', (fresh 5).read ([.ok [104, 105], .error .EAGAIN] ++ []) = some (c', []) ∧
      c'.readBuffer.buf = [104, 105] := by
  obtain ⟨c', hread, hbuf, -⟩ := read_appends_cut_chunks (fresh 5) rfl rfl
    ⟨[.chunk ⟨[104, 105], by decide, by decide⟩], .wouldBlock⟩ []
  exact ⟨c', hread, by rw [hbuf]; decide⟩

/-- One chunk of `a`, NUL, `b`. -/
def nulScript : ReadScript := ⟨[.chunk ⟨[97, 0, 98], by decide, by decide⟩], .wouldBlock⟩

/-- Data with a NUL is not all there after the read. -/
theorem read_loses_after_nul :
    ¬ ∀ (c : Connection) (rs : ReadScript), c.state = .connected → c.sock.nonBlocking = true →
      ∃ c', c.read rs.results = some (c', []) ∧ c'.readBuffer.buf = rs.chunks.flatten := by
  intro h
  obtain ⟨c', hread, hbuf⟩ := h (fresh 5) nulScript rfl rfl
  have hc' := (read_eq (c := fresh 5) rfl rfl nulScript []).symm.trans
    ((congrArg _ (List.append_nil _)).trans hread)
  simp only [Option.some.injEq, Prod.mk.injEq, and_true] at hc'
  rw [← hc'] at hbuf
  exact absurd hbuf (by decide)

end Connection

end CppServer
