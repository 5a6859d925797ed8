import CppServer.Http.Parser

/-!
# A session: a parser driven by `ParseRequest` calls

A `Session` is a parser bound to its connection and a sequence of calls, each on a non-empty read
buffer, in which every stage that is run reports success.  `Accepts` is what such a session should
come to: no error, the states in their order, and `STATE_FINISH` in the end.

No session does (`never_accepts`): `ParseRequest` tests the enumerator `PARSE_URI_ERROR` where the
header stage compares its result, so the first call fails whatever `ParseURI` reports
(`parseRequest_uri`), and as long as nobody else touches `state_` so does every later one
(`stuck_at_uri`).
-/

namespace CppServer.Http

variable {κ : Type*}

/-! ## One call -/

/-- **The first stage fails whatever it reports.** -/
theorem parseRequest_uri (stages : Stages κ) {m : Memory κ} {c : κ}
    (hc : m.parser.connection = some c) (hbuf : (m.connections c).readBuffer.size ≠ 0)
    (hstate : m.parser.state = .STATE_PARSE_URI) :
    m.parseRequest stages = .ok (stages.parseURI m).1.parseError := by
  have hvalue : URIState.PARSE_URI_ERROR.value ≠ 0 := by simp [URIState.value]
  simp only [Memory.parseRequest, hc, hstate]
  rw [if_neg hbuf, if_pos hvalue]

/-! ## A sequence of calls -/

/-- A parser bound to `conn`, what the read buffer holds at each call, and what the two unknown
stages do at each call. -/
structure Calls (κ : Type*) where
  conn : κ
  connections : κ → Connection
  stages : ℕ → Stages κ
  delivered : ℕ → Buffer
  nonempty : ∀ k, (delivered k).size ≠ 0

namespace Calls

variable [DecidableEq κ]

/-- A freshly constructed parser, bound to the connection. -/
def start (s : Calls κ) : Memory κ where
  parser := { (HttpParser.fresh : HttpParser κ) with connection := some s.conn }
  connections := s.connections

/-- `Connection::Read` has put the data of call `k` into the read buffer. -/
def deliver (s : Calls κ) (k : ℕ) (m : Memory κ) : Memory κ :=
  let conn : Connection := { m.connections s.conn with readBuffer := s.delivered k }
  { m with connections := Function.update m.connections s.conn conn }

/-- Call `k`, in the memory the calls before it have left. -/
def call (s : Calls κ) (k : ℕ) (m : Memory κ) : Except Stuck (Memory κ × Ending) :=
  (s.deliver k m).parseRequest (s.stages k)

/-- The memory before call `k`. -/
def before (s : Calls κ) : ℕ → Except Stuck (Memory κ)
  | 0 => .ok s.start
  | k + 1 => (s.before k).bind fun m => (s.call k m).map Prod.fst

/-- The length a header announces: a non-empty string of decimal digits. -/
def Announces (m : Memory κ) (length : ℕ) : Prop :=
  ∃ value, m.parser.headers (bytes "Content-length") = some value ∧ value ≠ [] ∧
    value.all isDigit = true ∧ digitsValue value = length

/-- Every stage that is run reports success, and a `POST` announces no more than is buffered. -/
structure StagesSucceed (s : Calls κ) : Prop where
  uri : ∀ k m, s.before k = .ok m → m.parser.state = .STATE_PARSE_URI →
    ((s.stages k).parseURI (s.deliver k m)).2 = .PARSE_URI_SUCCESS
  headers : ∀ k m, s.before k = .ok m → m.parser.state = .STATE_PARSE_HEADERS →
    ((s.stages k).parseHeaders (s.deliver k m)).2 = .PARSE_HEADER_SUCCESS
  body : ∀ k m, s.before k = .ok m → m.parser.state = .STATE_PARSE_HEADERS →
    ((s.stages k).parseHeaders (s.deliver k m)).1.parser.method = .METHOD_POST →
    ∃ length ≤ (s.delivered k).size,
      Announces ((s.stages k).parseHeaders (s.deliver k m)).1 length

/-- The states after `STATE_PARSE_URI`, in their order. -/
def stageOrder (method : HttpMethod) : List ProcessState :=
  if method = .METHOD_POST then
    [.STATE_PARSE_HEADERS, .STATE_RECV_BODY, .STATE_ANALYSIS, .STATE_FINISH]
  else [.STATE_PARSE_HEADERS, .STATE_ANALYSIS, .STATE_FINISH]

/-- What a session should come to. -/
structure Accepts (s : Calls κ) : Prop where
  noError : ∀ k m, s.before k = .ok m →
    ∃ m', s.call k m = .ok (m', .returned .PARSE_SUCCESS) ∧ m'.parser.error = false
  forward : ∀ k m, s.before k = .ok m → m.visited <+: stageOrder m.parser.method
  finishes : ∃ k m, s.before k = .ok m ∧ m.parser.state = .STATE_FINISH

end Calls

/-- Calls of `ParseRequest` whose stages all succeed. -/
structure Session (κ : Type*) [DecidableEq κ] extends Calls κ where
  succeed : toCalls.StagesSucceed

variable [DecidableEq κ]

/-- The calls find the parser bound, with something to read. -/
lemma deliver_size (s : Calls κ) (k : ℕ) (m : Memory κ) :
    ((s.deliver k m).connections s.conn).readBuffer.size ≠ 0 := by
  have hbuf : ((s.deliver k m).connections s.conn).readBuffer = s.delivered k := by
    simp [Calls.deliver]
  rw [hbuf]
  exact s.nonempty k

/-- **No session is accepted**: its first call returns `PARSE_ERROR`. -/
theorem never_accepts (s : Session κ) : ¬ s.toCalls.Accepts := by
  intro h
  obtain ⟨m', hcall, -⟩ := h.noError 0 s.start rfl
  have hfirst := parseRequest_uri (m := s.deliver 0 s.start) (c := s.conn) (s.stages 0) rfl
    (deliver_size s.toCalls 0 s.start) rfl
  rw [Calls.call, hfirst] at hcall
  simp [Memory.parseError] at hcall

/-- A stage that leaves `connection_`, `state_` and the history of `state_` alone. -/
def Stages.Quiet (st : Stages κ) : Prop :=
  ∀ m, (st.parseURI m).1.parser.connection = m.parser.connection ∧
    (st.parseURI m).1.parser.state = m.parser.state ∧ (st.parseURI m).1.visited = m.visited

/-- **The parser never leaves its first state** when `ParseURI` does not move it itself: by
induction on the calls, each of which fails in the first stage. -/
theorem stuck_at_uri (s : Calls κ) (hquiet : ∀ k, (s.stages k).Quiet) :
    ∀ k, ∃ m, s.before k = .ok m ∧ m.parser.connection = some s.conn ∧
      m.parser.state = .STATE_PARSE_URI ∧ m.visited = [] := by
  intro k
  induction k with
  | zero => exact ⟨s.start, rfl, rfl, rfl, rfl⟩
  | succ k ih =>
      obtain ⟨m, hbefore, hconn, hstate, hvisited⟩ := ih
      obtain ⟨hc, hs, hv⟩ := hquiet k (s.deliver k m)
      have hcall : s.call k m
          = .ok ((s.stages k).parseURI (s.deliver k m)).1.parseError :=
        parseRequest_uri (s.stages k) hconn (deliver_size s k m) hstate
      refine ⟨((s.stages k).parseURI (s.deliver k m)).1.parseError.1, ?_, ?_, ?_, ?_⟩
      · rw [Calls.before, hbefore]
        simp only [Except.bind, hcall, Except.map]
      · exact hc.trans hconn
      · exact hs.trans hstate
      · exact hv.trans hvisited

/-- Stages that report success and do nothing. -/
def succeeding : Stages Unit where
  parseURI m := (m, .PARSE_URI_SUCCESS)
  parseHeaders m := (m, .PARSE_HEADER_SUCCESS)

/-- One connection with an empty line in its read buffer, at every call. -/
def emptyLines : Calls Unit where
  conn := ()
  connections _ := { readBuffer := {}, writeBuffer := {}, sock := { fd := 5, nonBlocking := true },
                     state := .connected }
  stages _ := succeeding
  delivered _ := { buf := [13, 10] }
  nonempty _ := by decide

lemma emptyLines_succeed : emptyLines.StagesSucceed where
  uri _ _ _ _ := rfl
  headers _ _ _ _ := rfl
  body k m hbefore hstate _ := by
    obtain ⟨m', hbefore', -, hstate', -⟩ :=
      stuck_at_uri emptyLines (fun _ _ => ⟨rfl, rfl, rfl⟩) k
    rw [hbefore', Except.ok.injEq] at hbefore
    rw [← hbefore, hstate'] at hstate
    exact absurd hstate (by simp)

/-- Both stages succeed and the first call returns `PARSE_ERROR`. -/
theorem emptyLines_rejected :
    ¬ ∀ s : Calls Unit, s.StagesSucceed → s.Accepts := by
  intro h
  obtain ⟨m', hcall, -⟩ := (h emptyLines emptyLines_succeed).noError 0 emptyLines.start rfl
  have hfirst := parseRequest_uri (m := emptyLines.deliver 0 emptyLines.start) (c := ())
    succeeding rfl (deliver_size emptyLines 0 emptyLines.start) rfl
  rw [Calls.call, show emptyLines.stages 0 = succeeding from rfl, hfirst] at hcall
  simp [Memory.parseError] at hcall

end CppServer.Http
