import CppServer.Core.Connection
import CppServer.Lib.Machine

/-!
# What the state of a connection tells

A connection in either mode, as its user sees it: calls of `Read` and `Write`, each with the
answers its system calls get and no others, and new contents for the write buffer in between.
`ended` writes down beside it whether one of those answers was the end of the connection: end of
file, or an error that does not ask for another try.

* `read_state`, `write_state` — what a call on a connected connection makes of the state.  The
  blocking `Read` does nothing about end of file, and the blocking calls take an interruption for
  a failure.
* `truthful_iff` — over every series of calls: the state is `Closed` exactly if the connection is
  over, in every state, if and only if no blocking call gets one of those two answers.
-/

namespace CppServer.CloseState

/-- The answer of a system call is an error after which it makes no sense to try again. -/
def fails {ρ : Type} (nonBlocking : Bool) : Except Errno ρ → Bool
  | .ok _ => false
  | .error .EINTR => false
  | .error .EAGAIN => !nonBlocking
  | .error (.other _) => true

/-- An answer of `::read` with which the connection is over. -/
def readEnds (nonBlocking : Bool) : ReadResult → Bool
  | .ok [] => true
  | r => fails nonBlocking r

/-- What the user of a connection does. -/
inductive Action where
  | read (answers : List ReadResult)
  | setWriteBuffer (str : List UInt8)
  | write (answers : List WriteResult)

/-- A connection, and whether it is over. -/
structure State where
  conn : Connection
  ended : Bool := false

/-- What a call does; `none` if it needs other answers, and for a `Write` whose behaviour is not
defined: there is no state after it. -/
def step (s : State) : Action → Option State
  | .read answers =>
      match s.conn.read answers with
      | some (c, []) =>
          some { conn := c, ended := s.ended || answers.any (readEnds s.conn.sock.nonBlocking) }
      | _ => none
  | .setWriteBuffer str => some { s with conn := s.conn.setWriteBuffer str }
  | .write answers =>
      match s.conn.write answers with
      | .ok ⟨c, _, []⟩ =>
          some { conn := c, ended := s.ended || answers.any (fails s.conn.sock.nonBlocking) }
      | _ => none

def machine : Machine State Action where
  Init s := s.conn.state = .connected ∧ s.ended = false
  step := step

/-- The state says `Closed` exactly if the connection is over. -/
def State.Truthful (s : State) : Prop := s.conn.state = .closed ↔ s.ended = true

/-- Not a blocking call that meets end of file or is interrupted. -/
def Action.Plain (nonBlocking : Bool) : Action → Prop
  | .read answers =>
      nonBlocking = true ∨ (.ok [] ∉ answers ∧ .error .EINTR ∉ answers)
  | .setWriteBuffer _ => True
  | .write answers => nonBlocking = true ∨ .error .EINTR ∉ answers

/-- The call makes no system call. -/
def Action.Silent : Action → Prop
  | .read answers => answers = []
  | .setWriteBuffer _ => True
  | .write answers => answers = []

/-- The state after a call during which the connection was found to be over, or not. -/
def stateAfter (c : Connection) (ends : Bool) : ConnState := if ends then .closed else c.state

/-! ## The loops -/

/-- The loop of `ReadNonBlocking` on the answers it gets: by induction on them. -/
lemma readNonBlocking_state {c c' : Connection} {answers : List ReadResult}
    (h : c.readNonBlocking answers = some (c', [])) :
    c'.sock = c.sock ∧ c'.state = stateAfter c (answers.any (readEnds true)) := by
  unfold Connection.readNonBlocking at h
  induction answers generalizing c with
  | nil => simp [whileLoop] at h
  | cons r rs ih =>
      rw [whileLoop, if_pos rfl] at h
      cases r with
      | ok bytes =>
          cases bytes with
          | nil =>
              simp only [Connection.readBody, Option.some.injEq, Prod.mk.injEq] at h
              obtain ⟨rfl, -⟩ := h
              exact ⟨rfl, by simp [stateAfter, readEnds]⟩
          | cons b bs =>
              obtain ⟨hsock, hstate⟩ := ih h
              exact ⟨hsock, by simpa [stateAfter, readEnds, fails] using hstate⟩
      | error e =>
          cases e with
          | EINTR =>
              obtain ⟨hsock, hstate⟩ := ih h
              exact ⟨hsock, by simpa [stateAfter, readEnds, fails] using hstate⟩
          | EAGAIN =>
              simp only [Connection.readBody, Option.some.injEq, Prod.mk.injEq] at h
              obtain ⟨rfl, rfl⟩ := h
              exact ⟨rfl, by simp [stateAfter, readEnds, fails]⟩
          | other code =>
              simp only [Connection.readBody, Option.some.injEq, Prod.mk.injEq] at h
              obtain ⟨rfl, -⟩ := h
              exact ⟨rfl, by simp [stateAfter, readEnds, fails]⟩

/-- The loop of `WriteNonBlocking` on the answers it gets: by induction on them. -/
lemma writeLoop_state {buf : List UInt8} {total : ℤ} {loop loop' : Connection.WriteLoop} :
    ∀ {answers : List WriteResult},
      whileLoop (fun l : Connection.WriteLoop => decide (0 < l.bytesLeft))
        (Connection.writeBody buf total) loop answers = some (loop', []) →
      loop'.state = if answers.any (fails true) then .closed else loop.state := by
  intro answers
  induction answers generalizing loop with
  | nil =>
      intro h
      rw [whileLoop] at h
      split at h
      · simp at h
      · simp only [Option.some.injEq, Prod.mk.injEq, and_true] at h
        simp [h]
  | cons r rs ih =>
      intro h
      rw [whileLoop] at h
      split at h
      · cases r with
        | ok k => simpa [fails] using ih h
        | error e =>
            cases e with
            | EINTR => simpa [fails] using ih h
            | EAGAIN =>
                simp only [Connection.writeBody, Option.some.injEq, Prod.mk.injEq] at h
                obtain ⟨rfl, rfl⟩ := h
                simp [fails]
            | other code =>
                simp only [Connection.writeBody, Option.some.injEq, Prod.mk.injEq] at h
                obtain ⟨rfl, rfl⟩ := h
                simp [fails]
      · simp at h

lemma writeNonBlocking_state {c : Connection} {answers : List WriteResult}
    {o : Connection.WriteOutcome} (h : c.writeNonBlocking answers = .ok o) (hrest : o.rest = []) :
    o.conn.sock = c.sock ∧ o.conn.state = stateAfter c (answers.any (fails true)) := by
  simp only [Connection.writeNonBlocking] at h
  generalize toInt c.writeBuffer.size = total at h
  split at h
  · simp at h
  · split at h
    · simp at h
    · rename_i loop rest hloop
      simp only [Except.ok.injEq] at h
      subst h
      have hnil : rest = [] := hrest
      rw [hnil] at hloop
      exact ⟨rfl, writeLoop_state hloop⟩

/-! ## One call -/

/-- The one answer a blocking read closes the connection for. -/
def blockingFails {ρ : Type} : Except Errno ρ → Bool
  | .ok _ => false
  | .error _ => true

/-- **`Read` on a connected connection**, in both modes. -/
lemma read_state {c c' : Connection} (hc : c.state = .connected) {answers : List ReadResult}
    (h : c.read answers = some (c', [])) :
    c'.sock = c.sock ∧ c'.state = stateAfter c
      (if c.sock.nonBlocking then answers.any (readEnds true) else answers.any blockingFails) := by
  rw [Connection.read, if_neg (not_not.mpr hc)] at h
  cases hn : c.sock.nonBlocking with
  | true =>
      simp only [Socket.isNonBlocking, hn, if_true] at h ⊢
      obtain ⟨hsock, hstate⟩ := readNonBlocking_state h
      exact ⟨hsock, hstate⟩
  | false =>
      simp only [Socket.isNonBlocking, hn, Bool.false_eq_true, if_false] at h ⊢
      cases answers with
      | nil => simp [Connection.readBlocking] at h
      | cons r rs =>
          simp only [Connection.readBlocking, Option.some.injEq, Prod.mk.injEq] at h
          obtain ⟨rfl, rfl⟩ := h
          cases r with
          | ok bytes => cases bytes <;> exact ⟨rfl, rfl⟩
          | error e => exact ⟨rfl, rfl⟩

/-- **`Write` on a connected connection**, in both modes. -/
lemma write_state {c : Connection} (hc : c.state = .connected) {answers : List WriteResult}
    {o : Connection.WriteOutcome} (h : c.write answers = .ok o) (hrest : o.rest = []) :
    o.conn.sock = c.sock ∧ o.conn.state = stateAfter c
      (if c.sock.nonBlocking then answers.any (fails true) else answers.any blockingFails) := by
  rw [Connection.write, if_neg (not_not.mpr hc)] at h
  cases hn : c.sock.nonBlocking with
  | true =>
      simp only [Socket.isNonBlocking, hn, if_true] at h ⊢
      cases hw : c.writeNonBlocking answers with
      | error e =>
          rw [hw] at h
          simp [Except.map] at h
      | ok o' =>
          rw [hw] at h
          have ho : Connection.clearWritten o' = o := by simpa [Except.map] using h
          have hrest' : o'.rest = [] := by rw [← hrest, ← ho]; rfl
          obtain ⟨hsock, hstate⟩ := writeNonBlocking_state hw hrest'
          rw [← ho]
          exact ⟨hsock, hstate⟩
  | false =>
      simp only [Socket.isNonBlocking, hn, Bool.false_eq_true, if_false] at h ⊢
      cases answers with
      | nil => simp [Connection.writeBlocking, Except.map] at h
      | cons r rs =>
          cases r with
          | ok k =>
              simp only [Connection.writeBlocking, Except.map, Except.ok.injEq] at h
              subst h
              have hnil : rs = [] := hrest
              exact ⟨rfl, by simp [Connection.clearWritten, stateAfter, blockingFails, hnil]⟩
          | error e =>
              simp only [Connection.writeBlocking, Except.map, Except.ok.injEq] at h
              subst h
              exact ⟨rfl, by simp [Connection.clearWritten, stateAfter, blockingFails]⟩

/-- A blocking call makes one system call. -/
lemma answers_of_blocking_read {c c' : Connection} (hc : c.state = .connected)
    (hn : c.sock.nonBlocking = false) {answers : List ReadResult}
    (h : c.read answers = some (c', [])) : ∃ r, answers = [r] := by
  rw [Connection.read, if_neg (not_not.mpr hc)] at h
  simp only [Socket.isNonBlocking, hn, Bool.false_eq_true, if_false] at h
  cases answers with
  | nil => simp [Connection.readBlocking] at h
  | cons r rs =>
      simp only [Connection.readBlocking, Option.some.injEq, Prod.mk.injEq] at h
      exact ⟨r, by rw [h.2]⟩

lemma answers_of_blocking_write {c : Connection} (hc : c.state = .connected)
    (hn : c.sock.nonBlocking = false) {answers : List WriteResult} {o : Connection.WriteOutcome}
    (h : c.write answers = .ok o) (hrest : o.rest = []) : ∃ r, answers = [r] := by
  rw [Connection.write, if_neg (not_not.mpr hc)] at h
  simp only [Socket.isNonBlocking, hn, Bool.false_eq_true, if_false] at h
  cases answers with
  | nil => simp [Connection.writeBlocking, Except.map] at h
  | cons r rs =>
      refine ⟨r, ?_⟩
      cases r with
      | ok k =>
          simp only [Connection.writeBlocking, Except.map, Except.ok.injEq] at h
          rw [← hrest, ← h]
          rfl
      | error e =>
          simp only [Connection.writeBlocking, Except.map, Except.ok.injEq] at h
          rw [← hrest, ← h]
          rfl

/-- What a call closes the connection for. -/
def Action.closes (nonBlocking : Bool) : Action → Bool
  | .read answers =>
      if nonBlocking then answers.any (readEnds true) else answers.any blockingFails
  | .setWriteBuffer _ => false
  | .write answers =>
      if nonBlocking then answers.any (fails true) else answers.any blockingFails

/-- What it ought to close it for. -/
def Action.ends (nonBlocking : Bool) : Action → Bool
  | .read answers => answers.any (readEnds nonBlocking)
  | .setWriteBuffer _ => false
  | .write answers => answers.any (fails nonBlocking)

/-- A `Read` closes the connection for the right answers exactly if it is plain: a blocking one
gets one answer. -/
lemma closes_read {nonBlocking : Bool} {answers : List ReadResult}
    (h : nonBlocking = false → ∃ r, answers = [r]) :
    (Action.read answers).closes nonBlocking = (Action.read answers).ends nonBlocking ↔
      (Action.read answers).Plain nonBlocking := by
  cases nonBlocking with
  | true => simp [Action.closes, Action.ends, Action.Plain]
  | false =>
      obtain ⟨r, rfl⟩ := h rfl
      rcases r with e | bytes
      · cases e <;> simp [Action.closes, Action.ends, Action.Plain, blockingFails, readEnds, fails]
      · cases bytes <;>
          simp [Action.closes, Action.ends, Action.Plain, blockingFails, readEnds, fails]

/-- The same of a `Write`. -/
lemma closes_write {nonBlocking : Bool} {answers : List WriteResult}
    (h : nonBlocking = false → ∃ r, answers = [r]) :
    (Action.write answers).closes nonBlocking = (Action.write answers).ends nonBlocking ↔
      (Action.write answers).Plain nonBlocking := by
  cases nonBlocking with
  | true => simp [Action.closes, Action.ends, Action.Plain]
  | false =>
      obtain ⟨r, rfl⟩ := h rfl
      rcases r with e | k
      · cases e <;> simp [Action.closes, Action.ends, Action.Plain, blockingFails, fails]
      · simp [Action.closes, Action.ends, Action.Plain, blockingFails, fails]

variable {s s' : State} {a : Action}

/-- What a call can do: on a connected connection it tells by its answers whether to close it, and
a plain one tells right; on any other it does nothing. -/
lemma step_cases (h : step s a = some s') :
    s'.conn.sock = s.conn.sock ∧
    (s.conn.state = .connected →
      s'.conn.state = stateAfter s.conn (a.closes s.conn.sock.nonBlocking) ∧
      s'.ended = (s.ended || a.ends s.conn.sock.nonBlocking) ∧
      (a.closes s.conn.sock.nonBlocking = a.ends s.conn.sock.nonBlocking ↔
        a.Plain s.conn.sock.nonBlocking)) ∧
    (s.conn.state ≠ .connected →
      a.Silent ∧ s'.conn.state = s.conn.state ∧ s'.ended = s.ended ∧
      s'.conn.readBuffer = s.conn.readBuffer ∧
      ((∀ str, a ≠ .setWriteBuffer str) → s' = s)) := by
  cases a with
  | read answers =>
      simp only [step] at h
      split at h
      · rename_i c hread
        simp only [Option.some.injEq] at h
        subst h
        by_cases hc : s.conn.state = .connected
        · obtain ⟨hsock, hstate⟩ := read_state hc hread
          exact ⟨hsock, fun _ => ⟨hstate, rfl, closes_read fun hn =>
            answers_of_blocking_read hc hn hread⟩, fun hne => absurd hc hne⟩
        · rw [Connection.read, if_pos hc, Option.some.injEq, Prod.mk.injEq] at hread
          obtain ⟨rfl, rfl⟩ := hread
          refine ⟨rfl, fun hc' => absurd hc' hc, fun _ => ⟨rfl, rfl, by simp, rfl, fun _ => ?_⟩⟩
          simp
      · simp at h
  | setWriteBuffer str =>
      simp only [step, Option.some.injEq] at h
      subst h
      refine ⟨rfl, fun _ => ⟨rfl, by simp [Action.ends], ?_⟩, fun _ => ⟨trivial, rfl, rfl, rfl, ?_⟩⟩
      · simp [Action.closes, Action.ends, Action.Plain]
      · exact fun hne => absurd rfl (hne str)
  | write answers =>
      simp only [step] at h
      split at h
      · rename_i c accepted hwrite
        simp only [Option.some.injEq] at h
        subst h
        by_cases hc : s.conn.state = .connected
        · obtain ⟨hsock, hstate⟩ := write_state hc hwrite rfl
          exact ⟨hsock, fun _ => ⟨hstate, rfl, closes_write fun hn =>
            answers_of_blocking_write hc hn hwrite rfl⟩, fun hne => absurd hc hne⟩
        · rw [Connection.write, if_pos hc, Except.ok.injEq,
            Connection.WriteOutcome.mk.injEq] at hwrite
          obtain ⟨rfl, rfl, rfl⟩ := hwrite
          refine ⟨rfl, fun hc' => absurd hc' hc, fun _ => ⟨rfl, rfl, by simp, rfl, fun _ => ?_⟩⟩
          simp
      · simp at h

/-! ## Every series of calls -/

/-- A connection is connected or closed, in one mode. -/
structure Inv (nonBlocking : Bool) (s : State) : Prop where
  mode : s.conn.sock.nonBlocking = nonBlocking
  state : s.conn.state = .connected ∨ s.conn.state = .closed

variable {nonBlocking : Bool}

lemma inv_step (h : Inv nonBlocking s) (hst : step s a = some s') : Inv nonBlocking s' := by
  obtain ⟨hsock, hconn, hrest⟩ := step_cases hst
  refine ⟨by rw [hsock, h.mode], ?_⟩
  rcases h.state with hc | hc
  · rw [(hconn hc).1, stateAfter, hc]
    cases a.closes s.conn.sock.nonBlocking
    · exact .inl rfl
    · exact .inr rfl
  · rw [(hrest (by simp [hc])).2.1]
    exact .inr hc

/-- **A call keeps the state truthful exactly if it is plain.** -/
lemma truthful_step (h : Inv nonBlocking s) (ht : s.Truthful) (hst : step s a = some s') :
    s'.Truthful ↔ a.Plain nonBlocking := by
  obtain ⟨-, hconn, hrest⟩ := step_cases hst
  rcases h.state with hc | hc
  · obtain ⟨hstate, hover, hplain⟩ := hconn hc
    have hnot : s.ended = false := by
      cases ho : s.ended with
      | false => rfl
      | true =>
          have hclosed := ht.mpr ho
          rw [hc] at hclosed
          simp at hclosed
    rw [← h.mode, ← hplain, State.Truthful, hstate, hover, hnot, Bool.false_or, stateAfter, hc]
    cases a.closes s.conn.sock.nonBlocking <;> cases a.ends s.conn.sock.nonBlocking <;> simp
  · obtain ⟨hsilent, hstate, hover, -, -⟩ := hrest (by simp [hc])
    refine iff_of_true ?_ ?_
    · rw [State.Truthful, hstate, hover]
      exact ht
    · cases a with
      | read answers =>
          have hnil : answers = [] := hsilent
          exact .inr (by simp [hnil])
      | setWriteBuffer str => exact trivial
      | write answers =>
          have hnil : answers = [] := hsilent
          exact .inr (by simp [hnil])

/-- **When the state tells the truth.**  Over every series of calls on a connection in either
mode: after each call the state is `Closed` exactly if the connection is over, if and only if no
blocking call meets end of file or is interrupted.  Once the state is `Closed`, it stays so, and
the calls of `Read` and `Write` make no system call and leave the connection as it is. -/
theorem truthful_iff {c : Connection} (hc : c.state = .connected) (as : List Action)
    (hrun : machine.run { conn := c } as = some s) :
    (machine.Along (fun s a => ∀ t, machine.step s a = some t → t.Truthful) { conn := c } as
      ↔ ∀ a ∈ as, a.Plain c.sock.nonBlocking) ∧
    (s.conn.state = .closed → ∀ a t, machine.step s a = some t →
      t.conn.state = .closed ∧ a.Silent ∧ t.conn.readBuffer = s.conn.readBuffer ∧
      ((∀ str, a ≠ .setWriteBuffer str) → t = s)) := by
  constructor
  · have hinv : Inv c.sock.nonBlocking ({ conn := c } : State) := ⟨rfl, .inl hc⟩
    have htruth : ({ conn := c } : State).Truthful := by simp [State.Truthful, hc]
    rw [Machine.entered_iff (P := State.Truthful) (Q := fun _ a => a.Plain c.sock.nonBlocking)
        (fun _ _ _ => inv_step) (fun _ _ _ => truthful_step) as hinv htruth hrun,
      Machine.along_iff_forall as hrun]
  · intro hclosed a t hst
    obtain ⟨hsilent, hstate, -, hbuf, hsame⟩ := (step_cases hst).2.2 (by simp [hclosed])
    exact ⟨hstate.trans hclosed, hsilent, hbuf, hsame⟩

/-- A connection as the clients use it. -/
def blocking : Connection :=
  { readBuffer := {}, writeBuffer := {}, sock := { fd := 3, nonBlocking := false },
    state := .connected }

/-- An answer from the server, and then a reset. -/
def reset : List Action := [.read [.ok [104, 105]], .write [.error (.other 104)]]

theorem truthful_iff_reset :
    ∃ s, machine.run { conn := blocking } reset = some s ∧ s.conn.state = .closed ∧
      ∀ answers t, machine.step s (.read answers) = some t → answers = [] := by
  obtain ⟨s, hrun, hp⟩ := (Option.any_eq_true (fun s : State => decide (s.conn.state = .closed))
    (machine.run { conn := blocking } reset)).mp (by decide)
  have hclosed : s.conn.state = .closed := of_decide_eq_true hp
  refine ⟨s, hrun, hclosed, fun answers t hst => ?_⟩
  exact ((truthful_iff (c := blocking) rfl reset hrun).2 hclosed (.read answers) t hst).2.1

/-- A client that reads end of file goes on as if it were connected. -/
theorem eof_not_recorded :
    ¬ ∀ (c : Connection) (as : List Action) (s : State), c.state = .connected →
      machine.run { conn := c } as = some s → s.Truthful := by
  intro h
  have htruth := h blocking [.read [.ok []]] { conn := blocking, ended := true } rfl rfl
  exact absurd (htruth.mpr rfl) (by decide)

end CppServer.CloseState
