import CppServer.Core.Connection

/-!
# `HttpParser`

The parser's fields, and `ParseRequest` as the source has it, including the test that is made of
the enumerator `PARSE_URI_ERROR` itself.  A `std::string` is its bytes.

`ParseURI` and `ParseHeaders` are declared and never defined.  They are a parameter, `Stages`:
functions of everything a member function can reach, the parser's fields and the connections.

`std::stoi` throws on a string that does not start with a number, or starts with one that an `int`
cannot hold; a call of `ParseRequest` that such an exception leaves keeps what it had done to the
parser.  Dereferencing an unset `connection_` is undefined.
-/

namespace CppServer.Http

/-! ## The enumerations of `http_class.h` -/

inductive ProcessState where
  | STATE_PARSE_URI
  | STATE_PARSE_HEADERS
  | STATE_RECV_BODY
  | STATE_ANALYSIS
  | STATE_FINISH
  deriving DecidableEq, Repr

inductive URIState where
  | PARSE_URI_SUCCESS
  | PARSE_URI_ERROR
  deriving DecidableEq, Repr

/-- The value of an enumerator; it is what a condition tests for zero. -/
def URIState.value : URIState → ℕ
  | .PARSE_URI_SUCCESS => 1
  | .PARSE_URI_ERROR => 2

inductive HeaderState where
  | PARSE_HEADER_SUCCESS
  | PARSE_HEADER_ERROR
  deriving DecidableEq, Repr

inductive AnalysisState where
  | ANALYSIS_SUCCESS
  | ANALYSIS_ERROR
  deriving DecidableEq, Repr

inductive ParseResult where
  | PARSE_SUCCESS
  | PARSE_ERROR
  deriving DecidableEq, Repr

inductive ParseState where
  | H_START
  | H_KEY
  | H_COLON
  | H_SPACES_AFTER_COLON
  | H_VALUE
  | H_CR
  | H_LF
  | H_END_CR
  | H_END_LF
  deriving DecidableEq, Repr

inductive ConnectionState where
  | H_CONNECTED
  | H_DISCONNECTING
  | H_DISCONNECTED
  deriving DecidableEq, Repr

inductive HttpMethod where
  | METHOD_POST
  | METHOD_GET
  | METHOD_HEAD
  deriving DecidableEq, Repr

inductive HttpVersion where
  | HTTP_10
  | HTTP_11
  deriving DecidableEq, Repr

/-! ## `std::stoi` -/

/-- The bytes of a string literal. -/
def bytes (literal : String) : List UInt8 := literal.toList.map fun c => c.toNat.toUInt8

/-- `isspace` in the C locale -/
def isSpace (c : UInt8) : Bool := c = 32 || (9 ≤ c && c ≤ 13)

/-- `isdigit` -/
def isDigit (c : UInt8) : Bool := 48 ≤ c && c ≤ 57

/-- The number a series of decimal digits denotes. -/
def digitsValue (digits : List UInt8) : ℕ := digits.foldl (fun n c => 10 * n + (c.toNat - 48)) 0

/-- What `std::stoi` throws. -/
inductive StoiError where
  | invalidArgument
  | outOfRange
  deriving DecidableEq, Repr

/-- A sign in front of a number: whether it is negative, and what follows. -/
def splitSign : List UInt8 → Bool × List UInt8
  | 45 :: rest => (true, rest)
  | 43 :: rest => (false, rest)
  | rest => (false, rest)

/-- `std::stoi(str)`: white space, a sign, digits; what follows them is ignored. -/
def stoi (str : List UInt8) : Except StoiError ℤ :=
  let signed := splitSign (str.dropWhile isSpace)
  let digits := signed.2.takeWhile isDigit
  let n : ℤ := if signed.1 then -(digitsValue digits : ℤ) else digitsValue digits
  if digits = [] then .error .invalidArgument
  else if n < -2 ^ 31 ∨ 2 ^ 31 ≤ n then .error .outOfRange
  else .ok n

/-! ## The parser -/

/-- `HttpParser`; connections are known by their addresses, in `κ`. -/
structure HttpParser (κ : Type*) where
  connection : Option κ
  error : Bool
  connectionState : ConnectionState
  method : HttpMethod
  httpVersion : HttpVersion
  fileName : List UInt8
  path : List UInt8
  nowReadPos : ℤ
  state : ProcessState
  hState : ParseState
  keepAlive : Bool
  headers : List UInt8 → Option (List UInt8)

/-- `HttpParser::HttpParser`, which leaves `connection_` unset. -/
def HttpParser.fresh {κ : Type*} : HttpParser κ where
  connection := none
  error := false
  connectionState := .H_CONNECTED
  method := .METHOD_GET
  httpVersion := .HTTP_11
  fileName := []
  path := []
  nowReadPos := 0
  state := .STATE_PARSE_URI
  hState := .H_START
  keepAlive := false
  headers := fun _ => none

/-- What a member function of the parser can reach, and the history of the values given to
`state_`. -/
structure Memory (κ : Type*) where
  parser : HttpParser κ
  connections : κ → Connection
  visited : List ProcessState := []

/-- The two stages that are declared and not defined. -/
structure Stages (κ : Type*) where
  parseURI : Memory κ → Memory κ × URIState
  parseHeaders : Memory κ → Memory κ × HeaderState

/-- How a call of `ParseRequest` ends. -/
inductive Ending where
  | returned (r : ParseResult)
  | threw (e : StoiError)
  deriving DecidableEq, Repr

namespace Memory

variable {κ : Type*}

/-- An assignment to `state_`. -/
def setState (m : Memory κ) (st : ProcessState) : Memory κ :=
  { m with parser := { m.parser with state := st }, visited := m.visited ++ [st] }

/-- `error_ = true; return PARSE_ERROR;` -/
def parseError (m : Memory κ) : Memory κ × Ending :=
  ({ m with parser := { m.parser with error := true } }, .returned .PARSE_ERROR)

/-- `HttpParser::AnalysisRequest` -/
def analysisRequest (_ : Memory κ) : AnalysisState := .ANALYSIS_SUCCESS

/-- The last stage of `ParseRequest`. -/
def analyse (m : Memory κ) : Memory κ × Ending :=
  if m.parser.state = .STATE_ANALYSIS then
    if m.analysisRequest = .ANALYSIS_SUCCESS then
      (m.setState .STATE_FINISH, .returned .PARSE_SUCCESS)
    else m.parseError
  else (m, .returned .PARSE_SUCCESS)

/-- The stage of `ParseRequest` that looks at the body, and what follows it. -/
def recvBody (m : Memory κ) : Except Stuck (Memory κ × Ending) :=
  if m.parser.state = .STATE_RECV_BODY then
    match m.parser.headers (bytes "Content-length") with
    | none => .ok m.parseError
    | some value =>
        match stoi value with
        | .error e => .ok (m, .threw e)
        | .ok length =>
            match m.parser.connection with
            | none => .error .undefined
            | some c =>
                if length ≤ (m.connections c).readBuffer.size then
                  .ok (m.setState .STATE_ANALYSIS).analyse
                else .ok m.parseError
  else .ok m.analyse

/-- `HttpParser::ParseRequest` -/
def parseRequest (stages : Stages κ) (m : Memory κ) : Except Stuck (Memory κ × Ending) :=
  match m.parser.connection with
  | none => .error .undefined
  | some c =>
      if (m.connections c).readBuffer.size = 0 then .ok m.parseError
      else
        match m.parser.state with
        | .STATE_PARSE_URI =>
            let (m, _uriState) := stages.parseURI m
            -- the condition is the enumerator, not a comparison with `uri_state`
            if URIState.PARSE_URI_ERROR.value ≠ 0 then .ok m.parseError
            else (m.setState .STATE_PARSE_HEADERS).recvBody
        | .STATE_PARSE_HEADERS =>
            let (m, headerState) := stages.parseHeaders m
            if headerState = .PARSE_HEADER_ERROR then .ok m.parseError
            else if m.parser.method = .METHOD_POST then (m.setState .STATE_RECV_BODY).recvBody
            else (m.setState .STATE_ANALYSIS).recvBody
        | _ => m.recvBody

end Memory

end CppServer.Http
