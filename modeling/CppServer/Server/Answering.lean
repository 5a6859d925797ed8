import CppServer.Core.Echo
import CppServer.Server.EventAtomicity

/-!
# A callback that answers

The on_message callbacks of the test servers have one shape: while the connection is connected
they set its write buffer to some text, and call `Write`.  What the peer gets of the text is up to
the answers of `::write`: a reply is cut off where the kernel has no room, and a failing `::write`
closes the connection, which nobody deletes.

* `replyOf_connected` — what is sent is a beginning of the text.
* `Answering.reactors` — the reactors, where a call of the callback comes with its answers.
* `act_own` — such a callback closes no connection but its own, and deletes none.
* `reply_effect` — the step leaves the connection as the callback does.
-/

namespace CppServer

/-- The kernel takes something, or was interrupted. -/
def takes : WriteResult → Bool
  | .ok _ => true
  | .error .EINTR => true
  | .error _ => false

lemma admissible_zero (rs : List WriteResult) : Admissible 0 rs := by
  cases rs <;> trivial

instance decidableAdmissible : ∀ left rs, Decidable (Admissible left rs)
  | 0, rs => isTrue (admissible_zero rs)
  | _ + 1, [] => isTrue trivial
  | left + 1, .ok k :: rs =>
      haveI := decidableAdmissible (left + 1 - k) rs
      inferInstanceAs (Decidable (k ≤ left + 1 ∧ Admissible (left + 1 - k) rs))
  | left + 1, .error _ :: rs => decidableAdmissible (left + 1) rs

/-- A sender whose every answer takes something comes through. -/
lemma deliver_of_takes {left : ℕ} {rs : List WriteResult} {e : WriteEnding} {left' : ℕ}
    {rest : List WriteResult} (h : deliver left rs = some (e, left', rest))
    (htakes : rs.all takes = true) : e = .whole := by
  fun_induction deliver left rs with
  | case1 rs => cases h; rfl
  | case2 left => cases h
  | case3 left k rs ih => exact ih h htakes
  | case4 left rs ih => exact ih h htakes
  | case5 left rs => simp [takes] at htakes
  | case6 left code rs => simp [takes] at htakes

namespace Connection

/-- A callback that sends `text` back, which may depend on what it finds. -/
def answering (text : Connection → List UInt8) : MessageCallback := fun c writes =>
  if c.state = .connected then (c.setWriteBuffer (text c)).write writes
  else .ok ⟨c, [], writes⟩

/-- One call of the callback, if the kernel may give these answers, and gives no others. -/
def replyOf (text : Connection → List UInt8) (c : Connection) (writes : List WriteResult) :
    Option WriteOutcome :=
  if c.state = .connected ∧ ¬ Admissible (c.setWriteBuffer (text c)).bytesToWrite writes then none
  else
    match answering text c writes with
    | .ok o => if o.rest = [] then some o else none
    | .error _ => none

variable {text : Connection → List UInt8} {c : Connection} {writes : List WriteResult}
  {o : WriteOutcome}

/-- `Write` in terms of the abstract sender. -/
lemma write_eq (hc : c.state = .connected) (hn : c.sock.nonBlocking = true)
    (h0 : 0 ≤ toInt c.writeBuffer.size) (hadm : Admissible c.bytesToWrite writes) :
    c.write writes = match deliver c.bytesToWrite writes with
      | none => .error .waiting
      | some (e, left, rest) =>
          .ok ⟨{ c with writeBuffer := {}, state := e.leaves .connected },
            c.writeBuffer.buf.take (c.bytesToWrite - left), rest⟩ := by
  simp only [write, hc, ne_eq, not_true_eq_false, if_false, Socket.isNonBlocking, hn, if_true]
  rw [writeNonBlocking_eq c writes h0 hadm, hc]
  cases deliver c.bytesToWrite writes with
  | none => rfl
  | some d => rfl

/-- What a call of `Write` sends is a beginning of the write buffer, and all of it if the kernel
always takes something.  Afterwards the write buffer is empty. -/
lemma write_sends (hc : c.state = .connected) (hn : c.sock.nonBlocking = true)
    (hadm : Admissible c.bytesToWrite writes) (h : c.write writes = .ok o) :
    o.accepted <+: c.writeBuffer.buf ∧
    (o.conn = { c with writeBuffer := {} } ∨
      o.conn = { c with writeBuffer := {}, state := .closed }) ∧
    (writes.all takes = true → c.writeBuffer.size < 2 ^ 31 →
      o.accepted = c.writeBuffer.buf ∧ o.conn.state = .connected) := by
  by_cases h0 : 0 ≤ toInt c.writeBuffer.size
  · rw [write_eq hc hn h0 hadm] at h
    cases hd : deliver c.bytesToWrite writes with
    | none =>
        rw [hd] at h
        cases h
    | some d =>
        obtain ⟨e, left, rest⟩ := d
        simp only [hd, Except.ok.injEq] at h
        rw [← h]
        refine ⟨List.take_prefix _ _, ?_, fun htakes hfit => ?_⟩
        · rw [← hc]
          cases e with
          | whole => exact .inl rfl
          | wouldBlock => exact .inl rfl
          | failed => exact .inr rfl
        · obtain rfl := deliver_of_takes hd htakes
          have hleft : left = 0 := (deliver_left hd).2.mp rfl
          have hint : toInt c.writeBuffer.size = c.writeBuffer.size := (toInt_eq_iff _).mpr hfit
          have hall : c.bytesToWrite = c.writeBuffer.buf.length := by
            rw [bytesToWrite, hint, Int.toNat_natCast]
            rfl
          refine ⟨?_, rfl⟩
          rw [hleft, hall, Nat.sub_zero, List.take_length]
  · have hneg : c.writeNonBlocking writes = .error .undefined := by
      simp only [writeNonBlocking]
      rw [if_pos (Int.not_le.mp h0)]
    simp only [write, hc, ne_eq, not_true_eq_false, if_false, Socket.isNonBlocking, hn, if_true] at h
    rw [hneg] at h
    cases h

/-- A connection that is closed is sent nothing. -/
theorem replyOf_closed (hc : c.state ≠ .connected) (h : replyOf text c writes = some o) :
    o.conn = c ∧ o.accepted = [] := by
  simp only [replyOf, answering, hc, false_and, if_false, Option.ite_none_right_eq_some,
    Option.some.injEq] at h
  rw [← h.2]
  exact ⟨rfl, rfl⟩

/-- **What is sent is a beginning of the text**, and all of it if the kernel always takes
something. -/
theorem replyOf_connected (hc : c.state = .connected) (hn : c.sock.nonBlocking = true)
    (h : replyOf text c writes = some o) :
    o.accepted <+: cString (text c) ∧
    (o.conn = { c with writeBuffer := {} } ∨
      o.conn = { c with writeBuffer := {}, state := .closed }) ∧
    (writes.all takes = true → (cString (text c)).length < 2 ^ 31 →
      o.accepted = cString (text c) ∧ o.conn.state = .connected) := by
  simp only [replyOf, answering, hc, true_and, if_true, Option.ite_none_left_eq_some,
    not_not] at h
  obtain ⟨hadm, h⟩ := h
  cases hw : (c.setWriteBuffer (text c)).write writes with
  | error e => simp [hw] at h
  | ok o' =>
      simp only [hw, Option.ite_none_right_eq_some, Option.some.injEq] at h
      rw [← h.2]
      exact write_sends (c := c.setWriteBuffer (text c)) hc hn hadm hw

/-- The kernel may take the text at once, if it has room. -/
theorem exists_replyOf (text : Connection → List UInt8) (hn : c.sock.nonBlocking = true)
    (hfit : c.state = .connected → (cString (text c)).length < 2 ^ 31) :
    ∃ writes o, replyOf text c writes = some o ∧ o.conn.state = c.state ∧
      writes.all takes = true := by
  by_cases hc : c.state = .connected
  · set c' := c.setWriteBuffer (text c)
    have hint : toInt c'.writeBuffer.size = c'.writeBuffer.size :=
      (toInt_eq_iff _).mpr (hfit hc)
    have h0 : 0 ≤ toInt c'.writeBuffer.size := by
      rw [hint]
      exact Int.natCast_nonneg _
    obtain ⟨writes, htakes, hadm, hdeliver⟩ : ∃ writes, writes.all takes = true ∧
        Admissible c'.bytesToWrite writes ∧
        deliver c'.bytesToWrite writes = some (.whole, 0, []) := by
      cases c'.bytesToWrite with
      | zero => exact ⟨[], rfl, trivial, rfl⟩
      | succ m =>
          refine ⟨[.ok (m + 1)], rfl, ⟨le_rfl, ?_⟩, ?_⟩
          · rw [Nat.sub_self]
            exact admissible_zero []
          · rw [deliver, Nat.sub_self, deliver]
    obtain ⟨o, hwrite, hrest, hstate⟩ : ∃ o, c'.write writes = .ok o ∧ o.rest = [] ∧
        o.conn.state = .connected := by
      rw [write_eq (c := c') hc hn h0 hadm, hdeliver]
      exact ⟨_, rfl, rfl, rfl⟩
    refine ⟨writes, o, ?_, hstate.trans hc.symm, htakes⟩
    simp only [replyOf, answering, hc, true_and, if_true]
    rw [if_neg (not_not.mpr hadm), hwrite]
    exact if_pos hrest
  · refine ⟨[], ⟨c, [], []⟩, ?_, rfl, rfl⟩
    simp [replyOf, answering, hc]

end Connection

/-! ## The reactors -/

namespace Answering

open EdgeTriggered
open Connection (WriteOutcome replyOf)

/-- One step of a thread, a peer or the kernel. -/
inductive Move where
  /-- every step but a call of the on_message callback -/
  | net (a : Action)
  /-- such a call, with the answers of `::write` -/
  | reply (r c : ℕ) (rest : List (ℕ × UInt32)) (writes : List WriteResult)
  deriving Repr

/-- Whether the kernel takes something of what a callback writes, each time. -/
def Move.takes : Move → Bool
  | .net _ => true
  | .reply _ _ _ writes => writes.all CppServer.takes

variable {text : Connection → List UInt8} {n : ℕ} {s : State} {m : Move} {a : Action} {r c : ℕ}
  {rest : List (ℕ × UInt32)} {writes : List WriteResult} {p : Peer} {o : WriteOutcome}

/-- The step of the reactors that a move is.  A callback may find its connection closed, or leave
it closed, or neither. -/
def act (text : Connection → List UInt8) (s : State) : Move → Option Action
  | .net (.message _ _ _ _ _) => none
  | .net a => some a
  | .reply r c rest writes =>
      (s.peer c).bind fun p => (replyOf text p.conn writes).map fun o =>
        .message r c rest (if o.conn.state = p.conn.state then [] else [c]) []

/-- When a move can be made. -/
def may (text : Connection → List UInt8) (n : ℕ) (s : State) (m : Move) : Prop :=
  (act text s m).elim False (guard n s)

/-- What a move does. -/
def move (text : Connection → List UInt8) (n : ℕ) (s : State) (m : Move) : State :=
  (act text s m).elim s (effect n s)

instance decidableElim {α : Type*} {P : α → Prop} [DecidablePred P] :
    ∀ o : Option α, Decidable (o.elim False P)
  | none => isFalse id
  | some a => inferInstanceAs (Decidable (P a))

instance decidableMay (n : ℕ) (s : State) (m : Move) : Decidable (may text n s m) :=
  inferInstanceAs (Decidable ((act text s m).elim False (guard n s)))

/-- The sub reactors of a server whose callback answers. -/
def reactors (text : Connection → List UInt8) (n : ℕ) : Machine State Move :=
  Machine.guarded (fun s => s = {}) (may text n) (move text n)

/-- A move is a step of the reactors. -/
lemma may_iff : may text n s m ↔ ∃ a, act text s m = some a ∧ guard n s a := by
  cases h : act text s m with
  | none => simp [may, h]
  | some a => simp [may, h]

lemma move_eq (h : act text s m = some a) : move text n s m = effect n s a := by
  rw [move, h, Option.elim_some]

lemma act_reply : act text s (.reply r c rest writes) = some a ↔
    ∃ p o, s.peer c = some p ∧ replyOf text p.conn writes = some o ∧
      a = .message r c rest (if o.conn.state = p.conn.state then [] else [c]) [] := by
  simp only [act, Option.bind_eq_some_iff, Option.map_eq_some_iff]
  constructor
  · rintro ⟨p, hp, o, ho, rfl⟩
    exact ⟨p, o, hp, ho, rfl⟩
  · rintro ⟨p, o, hp, ho, rfl⟩
    exact ⟨p, hp, o, ho, rfl⟩

lemma act_net {b : Action} : act text s (.net b) = some a ↔
    a = b ∧ ∀ r c rest closes deletes, a ≠ .message r c rest closes deletes := by
  constructor
  · intro h
    cases b with
    | message => simp [act] at h
    | _ =>
        simp only [act, Option.some.injEq] at h
        rw [← h]
        exact ⟨rfl, by simp⟩
  · rintro ⟨rfl, hne⟩
    cases a with
    | message r c rest closes deletes => exact absurd rfl (hne r c rest closes deletes)
    | _ => rfl

/-- The step closes no connection but that of the callback, and deletes none. -/
def Own : Action → Prop
  | .message _ c _ closes deletes => closes ⊆ [c] ∧ deletes = []
  | _ => True

/-- **A callback that answers touches no connection but its own.** -/
theorem act_own (h : act text s m = some a) : Own a := by
  cases m with
  | net b =>
      obtain ⟨-, hne⟩ := act_net.mp h
      cases a with
      | message r c rest closes deletes => exact absurd rfl (hne r c rest closes deletes)
      | _ => trivial
  | reply r c rest writes =>
      obtain ⟨p, o, -, -, rfl⟩ := act_reply.mp h
      refine ⟨?_, rfl⟩
      split
      · exact List.nil_subset _
      · exact List.Subset.refl _

/-- Such a step is local: the connection is in the hands of its own loop. -/
lemma Own.local (h : Own a) (hconf : Confined n s) (hg : guard n s a) : Local s a := by
  cases a with
  | message r c rest closes deletes =>
      intro d hd p hp
      obtain rfl := List.mem_singleton.mp (h.1 hd)
      exact hconf.loop (by rw [hg.1]; exact List.mem_cons_self) hp
  | _ => trivial

/-- **The step leaves the connection as the callback does**, whose write buffer is empty between
two calls. -/
theorem reply_effect (hp : s.peer c = some p) (hn : p.conn.sock.nonBlocking = true)
    (hw : p.conn.writeBuffer = {}) (ho : replyOf text p.conn writes = some o) :
    ((move text n s (.reply r c rest writes)).peer c).map Peer.conn = some o.conn := by
  rw [move_eq (act_reply.mpr ⟨p, o, hp, ho, rfl⟩)]
  simp only [effect, hp, Option.map_some, Option.some.injEq, Peer.touched]
  by_cases hc : p.conn.state = .connected
  · obtain ⟨-, hconn | hconn, -⟩ := Connection.replyOf_connected hc hn ho
    · rw [hconn, ← hw]
      simp
    · rw [hconn, ← hw]
      simp [hc]
  · rw [(Connection.replyOf_closed hc ho).1]
    simp

end Answering
end CppServer
