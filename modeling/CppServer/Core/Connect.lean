import CppServer.Core.Connection

/-!
# `Socket::Connect`

On a non-blocking socket `Connect` repeats the call of `::connect` until it is answered `0`, or
`-1` with another errno than `EINPROGRESS`.  `Handshake` is what the kernel answers: one call that
is decided at once, or `EINPROGRESS`, then `EALREADY` for as long as the handshake is pending, and
then how it went, where success is `0` or `EISCONN`.

* `connect_nonBlocking` — what the loop does on any answers: it passes over those that say
  `EINPROGRESS`, and then does what `Connect` does on a blocking socket with its only answer.
* `connect_agrees_iff` — so `EALREADY` and `EISCONN` are failures to it.  It does as a blocking
  socket would do, if and only if it is answered neither of them or the handshake fails.
-/

namespace CppServer

abbrev Errno.EINPROGRESS : Errno := .other 115

abbrev Errno.EALREADY : Errno := .other 114

abbrev Errno.EISCONN : Errno := .other 106

/-- One answer of `::connect`: `0`, or `-1` with an errno. -/
abbrev ConnectResult := Except Errno Unit

/-- `::connect(…) == -1` -/
def isMinusOne : ConnectResult → Bool
  | .ok () => false
  | .error _ => true

@[simp] lemma isMinusOne_ok : isMinusOne (.ok ()) = false := rfl

@[simp] lemma isMinusOne_error (e : Errno) : isMinusOne (.error e) = true := rfl

namespace Socket

/-- One iteration of the loop of `Connect`, and how the call ends. -/
def connectBody : ConnectResult → Except String Unit × Control
  | .ok () => (.ok (), .stop)
  | .error e =>
      if e = .EINPROGRESS then (.ok (), .again) else (errif true "socket connect error", .stop)

/-- `Socket::Connect`: how the call ends, and the answers it does not wait for; `none` while it
waits for another one. -/
def connect (s : Socket) (script : List ConnectResult) :
    Option (Except String Unit × List ConnectResult) :=
  if s.isNonBlocking then
    whileLoop (fun _ => true) (fun _ res => connectBody res) (.ok ()) script
  else
    match script with
    | [] => none
    | res :: rest => some (errif (isMinusOne res) "socket connect error", rest)

/-- How a handshake ends. -/
inductive Outcome where
  | succeeded
  | failed (e : Errno)
  deriving DecidableEq, Repr

/-- An errno that says that the handshake has failed. -/
def Genuine (e : Errno) : Prop := e ≠ .EINPROGRESS ∧ e ≠ .EALREADY ∧ e ≠ .EISCONN

/-- What the calls are answered once the first one has been answered `EINPROGRESS`. -/
inductive Pending : Outcome → List ConnectResult → Prop
  | pending {o : Outcome} {answers : List ConnectResult} :
      Pending o answers → Pending o (.error .EALREADY :: answers)
  | succeeded : Pending .succeeded [.ok ()]
  | isConnected : Pending .succeeded [.error .EISCONN]
  | failed {e : Errno} : Genuine e → Pending (.failed e) [.error e]

/-- What the calls on a non-blocking socket are answered. -/
inductive Handshake : Outcome → List ConnectResult → Prop
  | succeeded : Handshake .succeeded [.ok ()]
  | failed {e : Errno} : Genuine e → Handshake (.failed e) [.error e]
  | inProgress {o : Outcome} {answers : List ConnectResult} :
      Pending o answers → Handshake o (.error .EINPROGRESS :: answers)

/-- What the one call on a blocking socket is answered. -/
def Outcome.answer : Outcome → ConnectResult
  | .succeeded => .ok ()
  | .failed e => .error e

/-- `Connect` on the answers of a non-blocking socket returns if the handshake succeeded and
throws if it failed, as it does on a blocking socket. -/
def Agrees (s t : Socket) (o : Outcome) (answers : List ConnectResult) : Prop :=
  ∃ ends rest, s.connect answers = some (ends, rest) ∧ (ends = .ok () ↔ o = .succeeded) ∧
    t.connect [o.answer] = some (ends, [])

/-! ## The loop -/

lemma connectBody_of_ne {res : ConnectResult} (h : res ≠ .error .EINPROGRESS) :
    connectBody res = (errif (isMinusOne res) "socket connect error", .stop) := by
  cases res with
  | ok u => rfl
  | error e =>
      have hne : e ≠ .EINPROGRESS := fun he => h (by rw [he])
      simp only [connectBody, if_neg hne]
      rfl

/-- **What the loop does on any answers.**  It passes over `EINPROGRESS`, and then does what the
call on a blocking socket does with its answer.  By induction on the answers. -/
theorem connect_nonBlocking {s t : Socket} (hs : s.nonBlocking = true)
    (ht : t.nonBlocking = false) (answers : List ConnectResult) :
    s.connect answers = t.connect (answers.dropWhile (· = .error .EINPROGRESS)) := by
  simp only [connect, isNonBlocking, hs, ht, if_true, Bool.false_eq_true, if_false]
  induction answers with
  | nil => rfl
  | cons res rest ih =>
      by_cases hres : res = .error .EINPROGRESS
      · have hbody : connectBody res = (.ok (), .again) := by
          rw [hres]
          rfl
        rw [whileLoop_again rfl hbody, ih, List.dropWhile_cons_of_pos (by simpa using hres)]
      · rw [whileLoop_stop rfl (connectBody_of_ne hres),
          List.dropWhile_cons_of_neg (by simpa using hres)]

/-- `Connect` on a blocking socket. -/
lemma connect_blocking {t : Socket} (ht : t.nonBlocking = false) (res : ConnectResult)
    (rest : List ConnectResult) : t.connect (res :: rest)
      = some (errif (isMinusOne res) "socket connect error", rest) := by
  simp [connect, isNonBlocking, ht]

/-! ## The answers of a handshake -/

lemma Genuine.answer_ne {e : Errno} (h : Genuine e) :
    (.error e : ConnectResult) ≠ .error .EINPROGRESS := fun he => h.1 (Except.error.inj he)

/-- The answer the loop ends at: that of a blocking socket if the handshake fails, and if it
succeeds, then `0` exactly if there is neither `EALREADY` nor `EISCONN`. -/
lemma Pending.first {o : Outcome} {answers : List ConnectResult} (h : Pending o answers) :
    ∃ res rest, answers = res :: rest ∧ res ≠ .error .EINPROGRESS ∧
      (isMinusOne res = true ↔ isMinusOne o.answer = true ∨
        .error .EALREADY ∈ answers ∨ .error .EISCONN ∈ answers) := by
  cases h with
  | @pending o answers h => exact ⟨_, _, rfl, by decide, by simp⟩
  | succeeded => exact ⟨_, _, rfl, by decide, by simp [Outcome.answer]⟩
  | isConnected => exact ⟨_, _, rfl, by decide, by simp [Outcome.answer]⟩
  | failed h => exact ⟨_, _, rfl, h.answer_ne, by simp [Outcome.answer]⟩

/-- The same from the first call on. -/
lemma Handshake.first {o : Outcome} {answers : List ConnectResult} (h : Handshake o answers) :
    ∃ res rest, answers.dropWhile (· = .error .EINPROGRESS) = res :: rest ∧
      (isMinusOne res = true ↔ isMinusOne o.answer = true ∨
        .error .EALREADY ∈ answers ∨ .error .EISCONN ∈ answers) := by
  cases h with
  | succeeded => exact ⟨_, _, rfl, by simp [Outcome.answer]⟩
  | failed h =>
      refine ⟨_, _, List.dropWhile_cons_of_neg (by simpa using h.answer_ne), ?_⟩
      simp [Outcome.answer]
  | inProgress h =>
      obtain ⟨res, rest, rfl, hne, hiff⟩ := h.first
      refine ⟨res, rest, ?_, by simpa using hiff⟩
      rw [List.dropWhile_cons_of_pos (by simp), List.dropWhile_cons_of_neg (by simpa using hne)]

/-- **When a non-blocking `Connect` agrees with a blocking one.**  It ends on every series of
answers of a handshake, and it ends as it would on a blocking socket exactly if the handshake
fails, or the answers are `0` or `EINPROGRESS` and `0`. -/
theorem connect_agrees_iff {s t : Socket} (hs : s.nonBlocking = true)
    (ht : t.nonBlocking = false) {o : Outcome} {answers : List ConnectResult}
    (h : Handshake o answers) :
    (s.connect answers).isSome ∧ (Agrees s t o answers ↔
      o ≠ .succeeded ∨ (.error .EALREADY ∉ answers ∧ .error .EISCONN ∉ answers)) := by
  obtain ⟨res, rest, hdrop, hiff⟩ := h.first
  have hends : s.connect answers
      = some (errif (isMinusOne res) "socket connect error", rest) := by
    rw [connect_nonBlocking hs ht, hdrop, connect_blocking ht]
  refine ⟨by rw [hends]; rfl, ?_⟩
  rw [Agrees, hends, connect_blocking ht]
  cases o with
  | failed e =>
      have hminus : isMinusOne res = true := hiff.mpr (.inl rfl)
      simp [hminus, errif, Outcome.answer]
  | succeeded =>
      have hminus : isMinusOne res = true ↔
          .error .EALREADY ∈ answers ∨ .error .EISCONN ∈ answers := by
        rw [hiff, or_iff_right (by simp [Outcome.answer])]
      rw [← not_or, ← hminus]
      by_cases hres : isMinusOne res = true
      · simp [hres, errif, Outcome.answer]
      · simp [hres, errif, Outcome.answer]

/-- A non-blocking socket and a blocking one. -/
def client (nonBlocking : Bool) : Socket := { fd := 3, nonBlocking := nonBlocking }

theorem connect_agrees_iff_twoCalls :
    Agrees (client true) (client false) .succeeded [.error .EINPROGRESS, .ok ()] :=
  (connect_agrees_iff rfl rfl (.inProgress .succeeded)).2.mpr (.inr (by decide))

/-- A handshake that takes a little longer: the second call is answered `EALREADY`. -/
theorem pending_throws :
    ¬ ∀ (s t : Socket) (o : Outcome) (answers : List ConnectResult), s.nonBlocking = true →
      t.nonBlocking = false → Handshake o answers → Agrees s t o answers := by
  intro h
  obtain ⟨ends, rest, hs, -, ht⟩ := h (client true) (client false) .succeeded
    [.error .EINPROGRESS, .error .EALREADY, .ok ()] rfl rfl (.inProgress (.pending .succeeded))
  have hthrows : ends = .error "socket connect error" :=
    (congrArg Prod.fst (Option.some.inj hs)).symm
  have hreturns : ends = .ok () := (congrArg Prod.fst (Option.some.inj ht)).symm
  exact absurd (hthrows.symm.trans hreturns) (by simp)

end Socket

end CppServer
