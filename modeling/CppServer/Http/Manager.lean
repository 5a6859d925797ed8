import Mathlib.Logic.Function.Basic
import CppServer.Core.ReadPath
import CppServer.Http.Session

/-!
# `HttpManager`

`http_connections_`, and the calls of `OnConnection` and `OnMessage` that a server makes.  Between
two calls the connections change in any way; a call finds them as they are then.

`RegisterConn` makes a parser, and nobody sets the `connection_` of it.  So an entry is never
bound (`Unbound`), and the first thing `HandleRequest` does is undefined
(`onMessage_undefined`): a run of the manager is well bound exactly if nothing is ever registered
(`wellBound_iff`).
-/

namespace CppServer.Http

open Function (update)

/-- A number, as `operator<<` prints it. -/
def decimal (n : ℕ) : List UInt8 := bytes (toString n)

/-- The reply of `HandleError`: its header and its body. -/
def errorReply (errorNum : ℕ) (msg : String) : List UInt8 :=
  let msg := bytes (" " ++ msg)
  let body := bytes "<html><title>something is wrong</title>" ++
    bytes "<body bgcolor=\"ffffff\">" ++ decimal errorNum ++ msg ++
    bytes "<hr><em> CppServer</em>\n</body></html>"
  bytes "HTTP/1.1 " ++ decimal errorNum ++ msg ++ bytes "\r\n" ++
    bytes "Content-Type: text/html\r\n" ++ bytes "Connection: Close\r\n" ++
    bytes "Content-Length: " ++ decimal body.length ++ bytes "\r\n" ++
    bytes "Server: LinYa's Web Server\r\n" ++ bytes "\r\n" ++ body

namespace Memory

variable {κ : Type*} [DecidableEq κ]

/-- `HttpParser::HandleError`, given the answers its `Write` gets. -/
def handleError (m : Memory κ) (errorNum : ℕ) (msg : String) (writes : List WriteResult) :
    Except Stuck (Memory κ) :=
  match m.parser.connection with
  | none => .error .undefined
  | some c =>
      (((m.connections c).setWriteBuffer (errorReply errorNum msg ++ [0])).write writes).map
        fun o => { m with connections := update m.connections c o.conn }

/-- `HttpParser::HandleRequest`.  An exception of `ParseRequest` leaves it; what
`AnalysisRequest` returns makes no difference. -/
def handleRequest (stages : Stages κ) (writes : List WriteResult) (m : Memory κ) :
    Except Stuck (Memory κ) :=
  (m.parseRequest stages).bind fun
    | (m', .returned .PARSE_ERROR) => m'.handleError 400 "Bad Request" writes
    | (m', .returned .PARSE_SUCCESS) => .ok m'
    | (m', .threw _) => .ok m'

end Memory

/-! ## The manager -/

/-- `HttpManager`: the parser of each connection that has one. -/
abbrev Manager (κ : Type*) := κ → Option (HttpParser κ)

namespace Manager

variable {κ : Type*} [DecidableEq κ]

/-- `HttpManager::RegisterConn` -/
def registerConn (http : Manager κ) (conn : κ) : Manager κ :=
  update http conn (some HttpParser.fresh)

/-- `HttpManager::OnConnection` -/
def onConnection (http : Manager κ) (conn : κ) : Manager κ := http.registerConn conn

lemma onConnection_self (http : Manager κ) (conn : κ) :
    http.onConnection conn conn = some HttpParser.fresh := by
  simp [onConnection, registerConn]

lemma onConnection_of_ne (http : Manager κ) {conn d : κ} (h : d ≠ conn) :
    http.onConnection conn d = http d := by
  simp [onConnection, registerConn, h]

/-- `HttpManager::OnMessage`, with what `HandleRequest` makes of a parser. -/
def onMessage (http : Manager κ) (conn : κ)
    (handle : HttpParser κ → Except Stuck (HttpParser κ)) : Except Stuck (Manager κ) :=
  match http conn with
  | some parser => (handle parser).map fun parser' => update http conn (some parser')
  | none => .ok http

end Manager

/-- What a call of `OnMessage` finds: the connections, the two unknown stages, and the answers of
the kernel. -/
structure Surroundings (κ : Type*) where
  connections : κ → Connection
  stages : Stages κ
  writes : List WriteResult

/-- A call of the manager. -/
inductive Call (κ : Type*) where
  | onConnection (conn : κ)
  | onMessage (conn : κ) (found : Surroundings κ)

variable {κ : Type*} [DecidableEq κ]

/-- `HandleRequest` on a parser, as to the parser. -/
def Surroundings.handle (found : Surroundings κ) (parser : HttpParser κ) :
    Except Stuck (HttpParser κ) :=
  (Memory.handleRequest found.stages found.writes
    { parser, connections := found.connections }).map Memory.parser

namespace Manager

/-- What one call does. -/
def call (http : Manager κ) : Call κ → Except Stuck (Manager κ)
  | .onConnection conn => .ok (http.onConnection conn)
  | .onMessage conn found => http.onMessage conn found.handle

/-- What a series of calls does. -/
def run : Manager κ → List (Call κ) → Except Stuck (Manager κ)
  | http, [] => .ok http
  | http, c :: cs => (http.call c).bind fun http' => run http' cs

/-- Each entry's parser is bound to the entry's connection. -/
def Bound (http : Manager κ) : Prop :=
  ∀ conn parser, http conn = some parser → parser.connection = some conn

/-- In every state of the run the entries are bound, and no call of it is undefined. -/
def WellBound : Manager κ → List (Call κ) → Prop
  | http, [] => http.Bound
  | http, c :: cs => http.Bound ∧ http.call c ≠ .error .undefined ∧
      ∀ http', http.call c = .ok http' → WellBound http' cs

/-- No entry's parser is bound to anything. -/
def Unbound (http : Manager κ) : Prop :=
  ∀ conn parser, http conn = some parser → parser.connection = none

/-! ## What the calls do -/

omit [DecidableEq κ] in
/-- Without a connection there is no read buffer to look at. -/
lemma parseRequest_unset (stages : Stages κ) {m : Memory κ} (h : m.parser.connection = none) :
    m.parseRequest stages = .error .undefined := by
  rw [Memory.parseRequest, h]

/-- **A registered connection cannot be served.**  `OnMessage` dereferences the unset
`connection_` of its parser, whatever the connection has sent. -/
theorem onMessage_undefined {http : Manager κ} (h : http.Unbound) {conn : κ}
    {parser : HttpParser κ} (hc : http conn = some parser) (found : Surroundings κ) :
    http.call (.onMessage conn found) = .error .undefined := by
  have hparse : Memory.handleRequest found.stages found.writes
      { parser, connections := found.connections } = .error .undefined := by
    rw [Memory.handleRequest, parseRequest_unset found.stages (h conn parser hc)]
    rfl
  rw [call, onMessage, hc]
  simp only [Surroundings.handle, hparse]
  rfl

/-- A call that does anything leaves the entries unbound. -/
lemma unbound_call {http http' : Manager κ} (h : http.Unbound) {c : Call κ}
    (hcall : http.call c = .ok http') : http'.Unbound := by
  cases c with
  | onConnection conn =>
      simp only [call, Except.ok.injEq] at hcall
      subst hcall
      intro d parser hd
      by_cases hdc : d = conn
      · subst hdc
        rw [onConnection_self, Option.some.injEq] at hd
        rw [← hd]
        rfl
      · rw [onConnection_of_ne http hdc] at hd
        exact h d parser hd
  | onMessage conn found =>
      cases hc : http conn with
      | some parser =>
          rw [onMessage_undefined h hc found] at hcall
          simp at hcall
      | none =>
          simp only [call, onMessage, hc, Except.ok.injEq] at hcall
          exact hcall ▸ h

/-! ## The result -/

/-- The manager at its construction. -/
def start : Manager κ := fun _ => none

lemma unbound_run {http' : Manager κ} :
    ∀ {http : Manager κ} (cs : List (Call κ)), http.Unbound → http.run cs = .ok http' →
      http'.Unbound
  | http, [], h, hrun => by
      simp only [run, Except.ok.injEq] at hrun
      exact hrun ▸ h
  | http, c :: cs, h, hrun => by
      cases hcall : http.call c with
      | error s => simp [run, hcall, Except.bind] at hrun
      | ok t =>
          simp only [run, hcall, Except.bind] at hrun
          exact unbound_run cs (unbound_call h hcall) hrun

/-- The state after a registration is the end of a well bound run, at best. -/
lemma not_bound_of_registered {http : Manager κ} (conn : κ) :
    ¬ (http.onConnection conn).Bound := by
  intro h
  have hbound := h conn HttpParser.fresh (onConnection_self http conn)
  simp [HttpParser.fresh] at hbound

lemma bound_of_wellBound {http : Manager κ} {cs : List (Call κ)} (h : http.WellBound cs) :
    http.Bound := by
  cases cs with
  | nil => exact h
  | cons c cs => exact h.1

/-- **When the dispatch is well bound.**  Exactly in the runs that register nothing.  In every
other run the next message of a registered connection is undefined behaviour. -/
theorem wellBound_iff (cs : List (Call κ)) :
    ((start : Manager κ).WellBound cs ↔ ∀ conn, Call.onConnection conn ∉ cs) ∧
    ∀ http, (start : Manager κ).run cs = .ok http → ∀ conn found,
      (http conn).isSome → http.call (.onMessage conn found) = .error .undefined := by
  constructor
  · induction cs with
    | nil => exact iff_of_true (fun _ _ h => by simp [start] at h) (by simp)
    | cons c cs ih =>
        cases c with
        | onConnection conn =>
            refine iff_of_false (fun h => ?_) (fun h => h conn List.mem_cons_self)
            exact not_bound_of_registered conn (bound_of_wellBound (h.2.2 _ rfl))
        | onMessage conn found =>
            have hsame : (start : Manager κ).call (.onMessage conn found) = .ok start := rfl
            have hrest : (∀ d, Call.onConnection d ∉ Call.onMessage conn found :: cs) ↔
                ∀ d, Call.onConnection d ∉ cs := by simp
            rw [hrest, ← ih]
            constructor
            · exact fun h => h.2.2 start hsame
            · refine fun h => ⟨bound_of_wellBound h, by simp [hsame], fun http' hcall => ?_⟩
              rw [hsame, Except.ok.injEq] at hcall
              exact hcall ▸ h
  · intro http hrun conn found hsome
    obtain ⟨parser, hc⟩ := Option.isSome_iff_exists.mp hsome
    have hunbound : http.Unbound :=
      unbound_run cs (fun _ _ h => by simp [start] at h) hrun
    exact onMessage_undefined hunbound hc found

/-- A connection is registered, and sends a request. -/
def oneRequest (found : Surroundings Unit) : List (Call Unit) :=
  [.onConnection (), .onMessage () found]

/-- The first request after a registration is undefined behaviour. -/
theorem request_undefined :
    ¬ ∀ cs : List (Call Unit), (start : Manager Unit).WellBound cs := by
  intro h
  let found : Surroundings Unit := ⟨fun _ => Connection.fresh 5, succeeding, []⟩
  have hrest := (h (oneRequest found)).2.2 ((start : Manager Unit).onConnection ()) rfl
  have hunbound : ((start : Manager Unit).onConnection ()).Unbound :=
    unbound_call (c := .onConnection ()) (fun _ _ h => by simp [start] at h) rfl
  exact hrest.2.1 (onMessage_undefined hunbound (onConnection_self _ ()) found)

end Manager

end CppServer.Http
