import CppServer.Http.Body

/-!
# What is accepted as a Content-length

A call of `ParseRequest` that comes to the stage of the body, with any headers whatever and
something in the read buffer.  Whether it accepts is decided by `stoi` alone: by the number the
value starts with.

* `recvBody_none`, `recvBody_threw`, `recvBody_number` — what the stage does, by what `stoi` says.
* `validated_iff` — it does as it should if there is no entry, or the value starts with a number
  and has nothing else to it or announces too much.  Otherwise an exception leaves the call, or
  `5xyz` passes for `5`, and `-1` for a length.
-/

namespace CppServer.Http

variable {κ : Type*}

/-- The call gets to the stage of the body, with memory `m₁`: it starts there, or the header stage
succeeds for a `POST` request. -/
inductive ReachesBody (stages : Stages κ) (m : Memory κ) : Memory κ → Prop
  | recvBody : m.parser.state = .STATE_RECV_BODY → ReachesBody stages m m
  | parseHeaders : m.parser.state = .STATE_PARSE_HEADERS →
      (stages.parseHeaders m).2 = .PARSE_HEADER_SUCCESS →
      (stages.parseHeaders m).1.parser.method = .METHOD_POST →
      ReachesBody stages m ((stages.parseHeaders m).1.setState .STATE_RECV_BODY)

/-- A call on a parser bound to a connection with something to read, which gets to the stage of the
body and still finds the parser bound there, to `c`. -/
structure BodyCall (stages : Stages κ) (m m₁ : Memory κ) (c : κ) : Prop where
  nonempty : ∃ d, m.parser.connection = some d ∧ (m.connections d).readBuffer.size ≠ 0
  reaches : ReachesBody stages m m₁
  bound : m₁.parser.connection = some c

/-- The headers announce a body that has arrived. -/
def Memory.AnnouncesArrived (m : Memory κ) (c : κ) : Prop :=
  ∃ length ≤ (m.connections c).readBuffer.size, Calls.Announces m length

/-- The call finishes the request if the headers announce a body that has arrived, and reports an
error in every other case. -/
structure Validated (stages : Stages κ) (m m₁ : Memory κ) (c : κ) : Prop where
  accepts : (∃ m', m.parseRequest stages = .ok (m', .returned .PARSE_SUCCESS) ∧
    m'.parser.state = .STATE_FINISH) ↔ m₁.AnnouncesArrived c
  rejects : ¬ m₁.AnnouncesArrived c → ∃ m',
    m.parseRequest stages = .ok (m', .returned .PARSE_ERROR) ∧ m'.parser.error = true ∧
      m'.parser.state = .STATE_RECV_BODY ∧ m'.visited = m₁.visited

/-! ## The stage of the body -/

variable {stages : Stages κ} {m m₁ : Memory κ} {c : κ}

lemma ReachesBody.state (h : ReachesBody stages m m₁) : m₁.parser.state = .STATE_RECV_BODY := by
  cases h with
  | recvBody hstate => exact hstate
  | parseHeaders _ _ _ => rfl

/-- The rest of the call is the stage of the body. -/
lemma BodyCall.parseRequest (h : BodyCall stages m m₁ c) :
    m.parseRequest stages = m₁.recvBody := by
  obtain ⟨d, hd, hsize⟩ := h.nonempty
  cases h.reaches with
  | recvBody hstate => simp only [Memory.parseRequest, hd, if_neg hsize, hstate]
  | parseHeaders hstate hheaders hpost =>
      simp only [Memory.parseRequest, hd, if_neg hsize, hstate]
      rw [if_neg (by rw [hheaders]; simp), if_pos hpost]

lemma recvBody_none (hstate : m.parser.state = .STATE_RECV_BODY)
    (hnone : m.parser.headers (bytes "Content-length") = none) :
    m.recvBody = .ok m.parseError := by
  simp only [Memory.recvBody, hstate, if_true, hnone]

lemma recvBody_threw (hstate : m.parser.state = .STATE_RECV_BODY) {value : List UInt8}
    (hvalue : m.parser.headers (bytes "Content-length") = some value) {e : StoiError}
    (hstoi : stoi value = .error e) : m.recvBody = .ok (m, .threw e) := by
  simp only [Memory.recvBody, hstate, if_true, hvalue, hstoi]

/-- Where the value starts with a number, that number decides. -/
lemma recvBody_number (hstate : m.parser.state = .STATE_RECV_BODY)
    (hbound : m.parser.connection = some c) {value : List UInt8}
    (hvalue : m.parser.headers (bytes "Content-length") = some value) {v : ℤ}
    (hstoi : stoi value = .ok v) :
    m.recvBody = if v ≤ (m.connections c).readBuffer.size then
        .ok ((m.setState .STATE_ANALYSIS).setState .STATE_FINISH, .returned .PARSE_SUCCESS)
      else .ok m.parseError := by
  simp only [Memory.recvBody, hstate, if_true, hvalue, hstoi, hbound]
  rfl

/-- Among the values `stoi` can read, those that are decimal numbers announce what they say. -/
lemma announcesArrived_iff {value : List UInt8}
    (hvalue : m.parser.headers (bytes "Content-length") = some value) {v : ℤ}
    (hstoi : stoi value = .ok v) : m.AnnouncesArrived c ↔
      (value ≠ [] ∧ value.all isDigit = true) ∧ v ≤ (m.connections c).readBuffer.size := by
  have hv : ∀ (_ : value ≠ []) (_ : value.all isDigit = true), v = digitsValue value := by
    intro hne hdigits
    rw [stoi_digits hne hdigits] at hstoi
    split at hstoi
    · simp at hstoi
    · exact (Except.ok.inj hstoi).symm
  constructor
  · rintro ⟨length, hle, value', hvalue', hne, hdigits, rfl⟩
    obtain rfl : value' = value := Option.some.inj (hvalue'.symm.trans hvalue)
    exact ⟨⟨hne, hdigits⟩, by rw [hv hne hdigits]; exact_mod_cast hle⟩
  · rintro ⟨⟨hne, hdigits⟩, hle⟩
    rw [hv hne hdigits] at hle
    exact ⟨_, by exact_mod_cast hle, value, hvalue, hne, hdigits, rfl⟩

/-- An error is right where nothing has arrived that is announced. -/
lemma validated_of_parseError (hcall : m.parseRequest stages = .ok m₁.parseError)
    (hstate : m₁.parser.state = .STATE_RECV_BODY) (hnot : ¬ m₁.AnnouncesArrived c) :
    Validated stages m m₁ c where
  accepts := by
    refine iff_of_false ?_ hnot
    rintro ⟨m', hm', -⟩
    simp [hcall, Memory.parseError] at hm'
  rejects _ := ⟨_, hcall, rfl, hstate, rfl⟩

/-- An exception is neither of the two answers. -/
lemma not_validated_of_threw {e : StoiError} (hcall : m.parseRequest stages = .ok (m₁, .threw e)) :
    ¬ Validated stages m m₁ c := by
  intro hval
  by_cases harrived : m₁.AnnouncesArrived c
  · obtain ⟨m', hm', -⟩ := hval.accepts.mpr harrived
    simp [hcall] at hm'
  · obtain ⟨m', hm', -⟩ := hval.rejects harrived
    simp [hcall] at hm'

/-! ## The result -/

/-- **When the Content-length is validated.**  For every call that gets to the stage of the body:
exactly if there is no entry, or `stoi` reads a number from the value, and either the value is that
number in decimal digits or the number is larger than the read buffer. -/
theorem validated_iff (h : BodyCall stages m m₁ c) :
    Validated stages m m₁ c ↔ ∀ value,
      m₁.parser.headers (bytes "Content-length") = some value →
      ∃ v, stoi value = .ok v ∧
        ((value ≠ [] ∧ value.all isDigit = true) ∨ (m₁.connections c).readBuffer.size < v) := by
  have hstate : m₁.parser.state = .STATE_RECV_BODY := h.reaches.state
  cases hvalue : m₁.parser.headers (bytes "Content-length") with
  | none =>
      have hnot : ¬ m₁.AnnouncesArrived c := by
        rintro ⟨_, -, value, hsome, -⟩
        simp [hvalue] at hsome
      have hcall := h.parseRequest.trans (recvBody_none hstate hvalue)
      exact iff_of_true (validated_of_parseError hcall hstate hnot) (by simp)
  | some value =>
      simp only [Option.some.injEq, forall_eq']
      cases hstoi : stoi value with
      | error e =>
          have hcall := h.parseRequest.trans (recvBody_threw hstate hvalue hstoi)
          exact iff_of_false (not_validated_of_threw hcall) (by simp)
      | ok v =>
          have hcall := h.parseRequest.trans (recvBody_number hstate h.bound hvalue hstoi)
          have harrived := announcesArrived_iff (c := c) hvalue hstoi
          simp only [Except.ok.injEq, exists_eq_left']
          by_cases hle : v ≤ (m₁.connections c).readBuffer.size
          · rw [if_pos hle] at hcall
            rw [or_iff_left (Int.not_lt.mpr hle)]
            have hsuccess : ∃ m', m.parseRequest stages = .ok (m', .returned .PARSE_SUCCESS) ∧
                m'.parser.state = .STATE_FINISH := ⟨_, hcall, rfl⟩
            constructor
            · exact fun hval => (harrived.mp (hval.accepts.mp hsuccess)).1
            · intro hdigits
              have hyes : m₁.AnnouncesArrived c := harrived.mpr ⟨hdigits, hle⟩
              exact ⟨iff_of_true hsuccess hyes, fun hnot => absurd hyes hnot⟩
          · rw [if_neg hle] at hcall
            have hnot : ¬ m₁.AnnouncesArrived c := fun hyes => hle (harrived.mp hyes).2
            exact iff_of_true (validated_of_parseError hcall hstate hnot) (.inr (Int.not_le.mp hle))

/-- A parser at the body, with two bytes buffered and the given header. -/
def twoBuffered (value : List UInt8) : Memory Unit where
  parser := { (HttpParser.fresh : HttpParser Unit) with
    connection := some (), method := .METHOD_POST, state := .STATE_RECV_BODY,
    headers := fun name => if name = bytes "Content-length" then some value else none }
  connections _ := { Connection.fresh 5 with readBuffer := { buf := [97, 98] } }

lemma bodyCall_twoBuffered (value : List UInt8) :
    BodyCall succeeding (twoBuffered value) (twoBuffered value) () where
  nonempty := ⟨(), rfl, Nat.succ_ne_zero 1⟩
  reaches := .recvBody rfl
  bound := rfl

theorem validated_iff_two :
    Validated succeeding (twoBuffered (bytes "2")) (twoBuffered (bytes "2")) () :=
  (validated_iff (bodyCall_twoBuffered _)).mpr fun value hvalue => by
    have htwo : bytes "2" = value := by simpa [twoBuffered] using hvalue
    subst htwo
    exact ⟨2, by decide, .inl (by decide)⟩

/-- A negative length is no larger than any buffer. -/
theorem negative_accepted :
    ¬ ∀ (stages : Stages Unit) (m m₁ : Memory Unit), BodyCall stages m m₁ () →
      Validated stages m m₁ () := by
  intro h
  obtain ⟨length, -, value, hvalue, -, hdigits, -⟩ :=
    (h succeeding _ _ (bodyCall_twoBuffered (bytes "-1"))).accepts.mp ⟨_, rfl, rfl⟩
  have hminus : bytes "-1" = value := by simpa [twoBuffered] using hvalue
  rw [← hminus] at hdigits
  exact absurd hdigits (by decide)

end CppServer.Http
