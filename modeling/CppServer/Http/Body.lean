import Mathlib.Data.List.TakeWhile
import CppServer.Core.ReadPath
import CppServer.Http.Session

/-!
# A body that arrives in pieces

A parser in `STATE_RECV_BODY`, and a body delivered to it by readiness events: each of them is a
`Connection::Read`, which empties the read buffer and fills it again, and a `ParseRequest`, which
compares the announced length with what the buffer holds now.

* `stoi_digits` — `stoi` of a decimal number is its value, up to what an `int` holds.
* `receive_complete`, `receive_partial`, `receive_tooLong` — what one event comes to.
* `body_assembled_iff` — a body is assembled exactly when one event brings all of it, and its
  length is below 2^31.  The variable `content_length` that `ParseRequest` sets to -1 has no use:
  no branch tells a body that is not complete from one that is wrong.
-/

namespace CppServer.Http

open Function (update)

/-! ## `stoi` on decimal numbers -/

/-- A digit is neither white space nor a sign. -/
lemma not_space_of_digit {c : UInt8} (h : isDigit c = true) :
    isSpace c = false ∧ c ≠ 45 ∧ c ≠ 43 := by
  simp only [isDigit, Bool.and_eq_true, decide_eq_true_eq] at h
  obtain ⟨hlo, hhi⟩ := h
  rw [UInt8.le_iff_toNat_le] at hlo hhi
  simp only [UInt8.reduceToNat] at hlo hhi
  refine ⟨?_, ?_, ?_⟩
  · simp only [isSpace, Bool.or_eq_false_iff, decide_eq_false_iff_not, Bool.and_eq_false_iff]
    refine ⟨?_, .inr ?_⟩
    · rintro rfl
      simp at hlo
    · rw [UInt8.le_iff_toNat_le]
      simp only [UInt8.reduceToNat]
      omega
  · rintro rfl
    simp at hlo
  · rintro rfl
    simp at hlo

/-- **A decimal number is read as its value, if an `int` can hold it.** -/
theorem stoi_digits {value : List UInt8} (hne : value ≠ []) (h : value.all isDigit = true) :
    stoi value = if 2 ^ 31 ≤ digitsValue value then .error .outOfRange
      else .ok (digitsValue value) := by
  cases value with
  | nil => exact absurd rfl hne
  | cons c cs =>
      have hc : isDigit c = true := (List.all_eq_true.mp h) c List.mem_cons_self
      obtain ⟨hspace, hminus, hplus⟩ := not_space_of_digit hc
      have hdrop : (c :: cs).dropWhile isSpace = c :: cs := by
        rw [List.dropWhile_cons, hspace]
        rfl
      have hsign : splitSign (c :: cs) = (false, c :: cs) := by
        unfold splitSign
        split
        · rename_i heq
          exact absurd (List.cons.inj heq).1 hminus
        · rename_i heq
          exact absurd (List.cons.inj heq).1 hplus
        · rfl
      have htake : (c :: cs).takeWhile isDigit = c :: cs :=
        List.takeWhile_eq_self_iff.mpr (List.all_eq_true.mp h)
      simp only [stoi, hdrop, hsign, htake, reduceCtorEq, if_false, Bool.false_eq_true]
      by_cases hbig : 2 ^ 31 ≤ digitsValue (c :: cs)
      · rw [if_pos hbig, if_pos (.inr (by exact_mod_cast hbig))]
      · rw [if_neg hbig, if_neg]
        rintro (hneg | hpos)
        · have : (0 : ℤ) ≤ digitsValue (c :: cs) := Int.natCast_nonneg _
          omega
        · exact hbig (by exact_mod_cast hpos)

/-! ## One event -/

variable {κ : Type*} [DecidableEq κ]

/-- A readiness event on connection `c`: `Connection::Read`, then `ParseRequest`. -/
def Memory.receive (stages : Stages κ) (m : Memory κ) (c : κ) (e : ReadScript) :
    Except Stuck (Memory κ × Ending) :=
  match (m.connections c).read e.results with
  | none => .error .waiting
  | some (conn, _) => { m with connections := update m.connections c conn }.parseRequest stages

/-- A parser that waits for the `n` bytes of a body on connection `c`. -/
structure AwaitsBody (m : Memory κ) (c : κ) (n : ℕ) : Prop where
  bound : m.parser.connection = some c
  state : m.parser.state = .STATE_RECV_BODY
  announces : Calls.Announces m n
  connected : (m.connections c).state = .connected
  nonBlocking : (m.connections c).sock.nonBlocking = true

variable (stages : Stages κ) {m : Memory κ} {c : κ} {n : ℕ} {e : ReadScript}

/-- The memory once `Read` has put the bytes of an event into the read buffer. -/
def Memory.filled (m : Memory κ) (c : κ) (e : ReadScript) : Memory κ :=
  let conn : Connection :=
    { m.connections c with readBuffer := { buf := e.bytes }, state := e.ending.leaves .connected }
  { m with connections := update m.connections c conn }

/-- `ParseRequest` sees the bytes of this event and of no earlier one. -/
lemma receive_eq (h : AwaitsBody m c n) (hne : e.bytes ≠ []) (h0 : 0 ∉ e.bytes) :
    m.receive stages c e = (m.filled c e).recvBody := by
  have hread := Connection.read_nulFree h.connected h.nonBlocking h0 []
  rw [List.append_nil] at hread
  have hsize : ((m.filled c e).connections c).readBuffer.size ≠ 0 := by
    simpa [Memory.filled, Buffer.size] using hne
  rw [Memory.receive, hread]
  show (m.filled c e).parseRequest stages = _
  have hbound : (m.filled c e).parser.connection = some c := h.bound
  have hstate : (m.filled c e).parser.state = .STATE_RECV_BODY := h.state
  simp only [Memory.parseRequest, hbound, hstate]
  rw [if_neg hsize]

/-- What `recvBody` does with an announced length. -/
lemma recvBody_eq (h : AwaitsBody m c n) :
    (m.filled c e).recvBody =
      if 2 ^ 31 ≤ n then .ok (m.filled c e, .threw .outOfRange)
      else if n ≤ e.bytes.length then .ok ((m.filled c e).setState .STATE_ANALYSIS).analyse
      else .ok (m.filled c e).parseError := by
  obtain ⟨value, hvalue, hne, hdigits, hn⟩ := h.announces
  have hvalue' : (m.filled c e).parser.headers (bytes "Content-length") = some value := hvalue
  have hbound : (m.filled c e).parser.connection = some c := h.bound
  have hstate : (m.filled c e).parser.state = .STATE_RECV_BODY := h.state
  have hsize : ((m.filled c e).connections c).readBuffer.size = e.bytes.length := by
    simp [Memory.filled, Buffer.size]
  simp only [Memory.recvBody, hstate, if_true, hvalue', stoi_digits hne hdigits, hn]
  by_cases hbig : 2 ^ 31 ≤ n
  · rw [if_pos hbig, if_pos hbig]
  · rw [if_neg hbig, if_neg hbig]
    simp only [hbound, hsize, Int.ofNat_le]

/-- An event with the whole body. -/
lemma receive_complete (h : AwaitsBody m c n) (hne : e.bytes ≠ []) (h0 : 0 ∉ e.bytes)
    (hn : n < 2 ^ 31) (hlen : n ≤ e.bytes.length) :
    ∃ m', m.receive stages c e = .ok (m', .returned .PARSE_SUCCESS) ∧
      m'.parser.state = .STATE_FINISH := by
  rw [receive_eq stages h hne h0, recvBody_eq h, if_neg (by omega), if_pos hlen]
  exact ⟨_, rfl, rfl⟩

/-- An event with a part of it. -/
lemma receive_partial (h : AwaitsBody m c n) (hne : e.bytes ≠ []) (h0 : 0 ∉ e.bytes)
    (hn : n < 2 ^ 31) (hlen : e.bytes.length < n) :
    ∃ m', m.receive stages c e = .ok (m', .returned .PARSE_ERROR) := by
  rw [receive_eq stages h hne h0, recvBody_eq h, if_neg (by omega), if_neg (by omega)]
  exact ⟨_, rfl⟩

/-- A length that `stoi` cannot hold: the parser goes on waiting. -/
lemma receive_tooLong (h : AwaitsBody m c n) (hne : e.bytes ≠ []) (h0 : 0 ∉ e.bytes)
    (hn : 2 ^ 31 ≤ n) : m.receive stages c e = .ok (m.filled c e, .threw .outOfRange) := by
  rw [receive_eq stages h hne h0, recvBody_eq h, if_pos hn]

/-- After an event that ends in EAGAIN the connection is ready for the next. -/
lemma awaitsBody_filled (h : AwaitsBody m c n) (he : e.ending = .wouldBlock) :
    AwaitsBody (m.filled c e) c n where
  bound := h.bound
  state := h.state
  announces := h.announces
  connected := by simp [Memory.filled, he, ReadEnding.leaves]
  nonBlocking := by simpa [Memory.filled] using h.nonBlocking

/-! ## A series of events -/

/-- The events one after the other, and how the calls of `ParseRequest` end. -/
def Memory.receiveAll (stages : Stages κ) (c : κ) :
    Memory κ → List ReadScript → Except Stuck (Memory κ × List Ending)
  | m, [] => .ok (m, [])
  | m, e :: es =>
      (m.receive stages c e).bind fun (m', r) =>
        (Memory.receiveAll stages c m' es).map fun (m'', rs) => (m'', r :: rs)

/-- One way a body of `n` bytes may arrive: each event brings some of it, and only behind the last
one may the connection be closed. -/
structure BodyDelivery (n : ℕ) where
  events : List ReadScript
  last : ReadScript
  drained : ∀ e ∈ events, e.ending = .wouldBlock
  nonempty : ∀ e ∈ events ++ [last], e.bytes ≠ []
  nulFree : ∀ e ∈ events ++ [last], 0 ∉ e.bytes
  length : ((events ++ [last]).map ReadScript.bytes).flatten.length = n

/-- No call before the last reports `PARSE_ERROR`, and the last one finishes the request. -/
def Assembles (stages : Stages κ) (m : Memory κ) (c : κ) (d : BodyDelivery n) : Prop :=
  ∃ m' endings, m.receiveAll stages c (d.events ++ [d.last])
      = .ok (m', endings ++ [.returned .PARSE_SUCCESS]) ∧
    .returned .PARSE_ERROR ∉ endings ∧ m'.parser.state = .STATE_FINISH

/-- With a length that `stoi` cannot hold every call throws: by induction on the events. -/
lemma receiveAll_tooLong (hn : 2 ^ 31 ≤ n) {last : ReadScript} (hne : last.bytes ≠ [])
    (h0 : 0 ∉ last.bytes) :
    ∀ (es : List ReadScript) {m : Memory κ}, AwaitsBody m c n →
      (∀ e ∈ es, e.ending = .wouldBlock ∧ e.bytes ≠ [] ∧ 0 ∉ e.bytes) →
      ∃ m' endings, m.receiveAll stages c (es ++ [last])
        = .ok (m', endings ++ [.threw .outOfRange])
  | [], m, h, _ => by
      refine ⟨m.filled c last, [], ?_⟩
      simp only [List.nil_append, Memory.receiveAll, receive_tooLong stages h hne h0 hn, Except.bind,
        Except.map]
  | e :: es, m, h, hes => by
      obtain ⟨he, hbytes, hnul⟩ := hes e List.mem_cons_self
      obtain ⟨m', endings, hrest⟩ := receiveAll_tooLong hn hne h0 es (awaitsBody_filled h he)
        fun e' he' => hes e' (List.mem_cons_of_mem e he')
      refine ⟨m', .threw .outOfRange :: endings, ?_⟩
      simp only [List.cons_append, Memory.receiveAll, receive_tooLong stages h hbytes hnul hn,
        Except.bind, hrest, Except.map]

/-- **When a body is assembled.**  Exactly when it arrives in one event, and `stoi` can read its
length: otherwise the first piece is taken for a malformed request, or `stoi` throws. -/
theorem body_assembled_iff (stages : Stages κ) (h : AwaitsBody m c n) (d : BodyDelivery n) :
    Assembles stages m c d ↔ d.events = [] ∧ n < 2 ^ 31 := by
  obtain ⟨events, last, hdrained, hnonempty, hnulFree, hlength⟩ := d
  have hlast : last.bytes ≠ [] := hnonempty last (by simp)
  have hlast0 : 0 ∉ last.bytes := hnulFree last (by simp)
  constructor
  · rintro ⟨m', endings, hrun, herror, hstate⟩
    have hn : n < 2 ^ 31 := by
      by_contra hbig
      obtain ⟨m'', endings', hrun'⟩ := receiveAll_tooLong stages (Nat.not_lt.mp hbig)
        hlast hlast0 events h fun e he => ⟨hdrained e he, hnonempty e (by simp [he]),
          hnulFree e (by simp [he])⟩
      simp only [hrun', Except.ok.injEq, Prod.mk.injEq] at hrun
      have hends := congrArg List.getLast? hrun.2
      simp at hends
    refine ⟨?_, hn⟩
    cases events with
    | nil => rfl
    | cons e es =>
        -- the first piece is not the whole body
        have hshort : e.bytes.length < n := by
          have hpos : 0 < last.bytes.length := List.length_pos_iff.mpr hlast
          simp only [List.cons_append, List.map_cons, List.flatten_cons, List.map_append,
            List.flatten_append, List.map_nil, List.flatten_nil, List.length_append,
            List.append_nil] at hlength
          omega
        obtain ⟨m₁, hfirst⟩ := receive_partial stages h (hnonempty e (by simp))
          (hnulFree e (by simp)) hn hshort
        simp only [List.cons_append, Memory.receiveAll, hfirst, Except.bind] at hrun
        cases hrest : m₁.receiveAll stages c (es ++ [last]) with
        | error s => simp [hrest, Except.map] at hrun
        | ok p =>
            simp only [hrest, Except.map, Except.ok.injEq, Prod.mk.injEq] at hrun
            cases endings with
            | nil => simp at hrun
            | cons r rs =>
                have hr := (List.cons.inj hrun.2).1
                exact absurd (hr ▸ List.mem_cons_self) herror
  · rintro ⟨rfl, hn⟩
    have hlen : last.bytes.length = n := by simpa using hlength
    obtain ⟨m', hrun, hstate⟩ := receive_complete stages h hlast hlast0 hn
      (Nat.le_of_eq hlen.symm)
    refine ⟨m', [], ?_, by simp, hstate⟩
    simp only [List.nil_append, Memory.receiveAll, hrun, Except.bind, Except.map]

/-- A parser that waits for a body of two bytes. -/
def awaitsTwo : Memory Unit where
  parser := { (HttpParser.fresh : HttpParser Unit) with
    connection := some (), method := .METHOD_POST, state := .STATE_RECV_BODY,
    headers := fun name => if name = bytes "Content-length" then some (bytes "2") else none }
  connections _ := Connection.fresh 5

lemma awaitsBody_awaitsTwo : AwaitsBody awaitsTwo () 2 where
  bound := rfl
  state := rfl
  announces := ⟨bytes "2", by simp [awaitsTwo], by decide, by decide, by decide⟩
  connected := rfl
  nonBlocking := rfl

/-- An event with one byte of the body. -/
def oneByte : ReadScript := ⟨[.chunk ⟨[97], by decide, by decide⟩], .wouldBlock⟩

/-- Before the only event there is none. -/
lemma drained_nil : ∀ e ∈ ([] : List ReadScript), e.ending = .wouldBlock := by simp

/-- Both bytes in one event. -/
def inOneEvent : BodyDelivery 2 where
  events := []
  last := ⟨[.chunk ⟨[97, 98], by decide, by decide⟩], .wouldBlock⟩
  drained := drained_nil
  nonempty := by decide
  nulFree := by decide
  length := rfl

/-- One byte in each of two events. -/
def inTwoEvents : BodyDelivery 2 where
  events := [oneByte]
  last := oneByte
  drained := by simp [oneByte]
  nonempty := by decide
  nulFree := by decide
  length := rfl

theorem body_assembled_iff_inOneEvent : Assembles succeeding awaitsTwo () inOneEvent :=
  (body_assembled_iff succeeding awaitsBody_awaitsTwo inOneEvent).mpr ⟨rfl, by decide⟩

/-- The first of two pieces is reported as an error. -/
theorem body_refused_in_two_events :
    ¬ ∀ (stages : Stages Unit) (m : Memory Unit) (n : ℕ) (d : BodyDelivery n),
      AwaitsBody m () n → Assembles stages m () d := by
  intro h
  obtain ⟨m', endings, hrun, herror, -⟩ := h succeeding awaitsTwo 2 inTwoEvents awaitsBody_awaitsTwo
  obtain ⟨m₁, hfirst⟩ := receive_partial succeeding (e := oneByte)
    awaitsBody_awaitsTwo (by decide) (by decide) (by decide) (by decide)
  simp only [inTwoEvents, List.singleton_append, Memory.receiveAll, hfirst, Except.bind] at hrun
  cases hrest : m₁.receive succeeding () oneByte with
  | error s => simp [hrest, Except.map] at hrun
  | ok p =>
      simp only [hrest, Except.map, Except.ok.injEq, Prod.mk.injEq] at hrun
      cases endings with
      | nil => simp at hrun
      | cons r rs => exact herror ((List.cons.inj hrun.2).1 ▸ List.mem_cons_self)

end CppServer.Http
