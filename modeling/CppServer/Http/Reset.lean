import CppServer.Lib.Machine
import CppServer.Core.ReadPath
import CppServer.Http.Session

/-!
# `Reset`

A parser in use: calls of `ParseRequest`, each in surroundings of its own, and calls of `Reset`.
`Reset` assigns six of the eleven fields that the constructor sets or leaves empty.  The other five,
`kept`, stay as they are, so a parser is as new after a `Reset` exactly if they were as new before
(`asNew_iff`), and if they were not the next requests can tell (`outcomes_eq_iff`).

The first call of `ParseRequest` sets `error_` whatever it finds (`parse_sets_error`).  A parser
whose stages never clear `error_` is therefore as new after no `Reset` but those before that call.
-/

namespace CppServer.Http

variable {κ : Type*}

/-! ## The parser and its calls -/

namespace HttpParser

/-- `HttpParser::Reset` -/
def reset (p : HttpParser κ) : HttpParser κ :=
  { p with
    fileName := []
    path := []
    nowReadPos := 0
    state := .STATE_PARSE_URI
    hState := .H_START
    headers := fun _ => none }

/-- A freshly constructed parser whose `connection_` is `conn`. -/
def freshOn (conn : Option κ) : HttpParser κ := { (fresh : HttpParser κ) with connection := conn }

/-- The fields that `Reset` does not assign, `connection_` apart. -/
def kept (p : HttpParser κ) : Bool × ConnectionState × HttpMethod × HttpVersion × Bool :=
  (p.error, p.connectionState, p.method, p.httpVersion, p.keepAlive)

end HttpParser

open HttpParser (freshOn)

/-- What a call of `ParseRequest` finds: the connections with what their read buffers hold, and
what the two unknown stages will do. -/
structure Found (κ : Type*) where
  connections : κ → Connection
  stages : Stages κ

/-- A call of `ParseRequest`: what it leaves, with the states it has gone through, and how it
ends. -/
def Found.parse (found : Found κ) (p : HttpParser κ) : Except Stuck (Memory κ × Ending) :=
  Memory.parseRequest found.stages { parser := p, connections := found.connections }

/-- What comes of a series of calls, until one of them is undefined. -/
def outcomes : HttpParser κ → List (Found κ) → List (Except Stuck (Memory κ × Ending))
  | _, [] => []
  | p, found :: later =>
      match found.parse p with
      | .error s => [.error s]
      | .ok o => .ok o :: outcomes o.1.parser later

inductive Use (κ : Type*) where
  | parse (found : Found κ)
  | reset

/-- A parser in use. -/
def use : Machine (HttpParser κ) (Use κ) where
  Init p := ∃ conn, p = freshOn conn
  step p
    | .parse found => match found.parse p with
        | .ok o => some o.1.parser
        | .error _ => none
    | .reset => some p.reset

/-- After a `Reset` every field but `connection_` is as the constructor leaves it, and later
requests see no difference to a new parser on the same connection. -/
structure AsNew (p : HttpParser κ) : Prop where
  fields : p.reset = freshOn p.connection
  later : ∀ later, outcomes p.reset later = outcomes (freshOn p.connection) later

/-- The fields that `Reset` does not assign are as the constructor leaves them. -/
def Untouched (p : HttpParser κ) : Prop := p.kept = (HttpParser.fresh : HttpParser κ).kept

/-- A stage that leaves `error_` set where it is set. -/
def Stages.KeepsError (st : Stages κ) : Prop :=
  ∀ m : Memory κ, m.parser.error = true →
    (st.parseURI m).1.parser.error = true ∧ (st.parseHeaders m).1.parser.error = true

/-! ## What a `Reset` does -/

lemma reset_eq_iff (p : HttpParser κ) : p.reset = freshOn p.connection ↔ Untouched p := by
  cases p
  simp [HttpParser.reset, freshOn, HttpParser.fresh, Untouched, HttpParser.kept]

/-- **As new after a `Reset`** is what has all of the kept fields untouched. -/
theorem asNew_iff (p : HttpParser κ) : AsNew p ↔ Untouched p := by
  refine ⟨fun h => (reset_eq_iff p).mp h.fields, fun h => ?_⟩
  have hfields := (reset_eq_iff p).mpr h
  exact ⟨hfields, fun later => by rw [hfields]⟩

/-- A stage that shows `error_` to whoever looks at `file_name_`. -/
def telling : Stages κ where
  parseURI m := ({ m with parser :=
    { m.parser with fileName := if m.parser.error then [1] else [] } }, .PARSE_URI_SUCCESS)
  parseHeaders m := (m, .PARSE_HEADER_SUCCESS)

/-- A request of one byte. -/
def oneByteRequest : Found κ where
  connections _ := { Connection.fresh 5 with readBuffer := { buf := [71] } }
  stages := telling

/-- **A kept field shows**: as long as the parser is bound, later requests go as on a new parser
only if no kept field has been touched. -/
theorem outcomes_eq_iff {p : HttpParser κ} {c : κ} (hc : p.connection = some c) :
    (∀ later, outcomes p.reset later = outcomes (freshOn p.connection) later) ↔ Untouched p := by
  refine ⟨fun h => ?_, fun h => ((asNew_iff p).mpr h).later⟩
  have hparse : ∀ q : HttpParser κ, q.connection = some c → q.state = .STATE_PARSE_URI →
      oneByteRequest.parse q = .ok
        ((telling.parseURI { parser := q, connections := oneByteRequest.connections }).1.parseError) :=
    fun q hq hstate => parseRequest_uri telling hq (Nat.succ_ne_zero 0) hstate
  have hone := h [oneByteRequest]
  simp only [outcomes, hparse p.reset hc rfl, hparse (freshOn p.connection) hc rfl] at hone
  have hshown := congrArg (fun o : Memory κ × Ending => (o.1.parser.fileName, o.1.parser.kept))
    (Except.ok.inj (List.cons.inj hone).1)
  simp only [telling, Memory.parseError, HttpParser.reset, freshOn, HttpParser.fresh,
    HttpParser.kept, Prod.mk.injEq, Bool.false_eq_true, if_false, true_and] at hshown
  obtain ⟨herror, hkept⟩ := hshown
  have hfalse : p.error = false := by
    cases he : p.error with
    | false => rfl
    | true => simp [he] at herror
  simp only [Untouched, HttpParser.kept, HttpParser.fresh, Prod.mk.injEq]
  exact ⟨hfalse, hkept⟩

/-! ## What a call does to `error_` -/

/-- A parser with nothing done to it comes to the stage of the URI, or finds nothing to read. -/
lemma parse_sets_error {found : Found κ} {p : HttpParser κ} (hstate : p.state = .STATE_PARSE_URI)
    {o : Memory κ × Ending} (h : found.parse p = .ok o) : o.1.parser.error = true := by
  cases hc : p.connection with
  | none => simp [Found.parse, Memory.parseRequest, hc] at h
  | some c =>
      by_cases hbuf : (found.connections c).readBuffer.size = 0
      · simp only [Found.parse, Memory.parseRequest, hc, hbuf, if_true, Except.ok.injEq] at h
        exact h ▸ rfl
      · have huri := parseRequest_uri found.stages
          (m := { parser := p, connections := found.connections }) hc hbuf hstate
        rw [Found.parse, huri, Except.ok.injEq] at h
        exact h ▸ rfl

lemma analyse_keeps_error {m : Memory κ} (h : m.parser.error = true) :
    m.analyse.1.parser.error = true := by
  unfold Memory.analyse
  split
  · split
    · exact h
    · rfl
  · exact h

lemma recvBody_keeps_error {m : Memory κ} (h : m.parser.error = true) {o : Memory κ × Ending}
    (hcall : m.recvBody = .ok o) : o.1.parser.error = true := by
  unfold Memory.recvBody at hcall
  split at hcall
  · split at hcall
    · exact Except.ok.inj hcall ▸ rfl
    · split at hcall
      · exact Except.ok.inj hcall ▸ h
      · split at hcall
        · simp at hcall
        · split at hcall
          · refine Except.ok.inj hcall ▸ analyse_keeps_error ?_
            exact h
          · exact Except.ok.inj hcall ▸ rfl
  · exact Except.ok.inj hcall ▸ analyse_keeps_error h

/-- Nothing in `ParseRequest` itself clears `error_`. -/
lemma parse_keeps_error {found : Found κ} (hstages : found.stages.KeepsError) {p : HttpParser κ}
    (h : p.error = true) {o : Memory κ × Ending} (hcall : found.parse p = .ok o) :
    o.1.parser.error = true := by
  by_cases huri : p.state = .STATE_PARSE_URI
  · exact parse_sets_error huri hcall
  cases hc : p.connection with
  | none => simp [Found.parse, Memory.parseRequest, hc] at hcall
  | some c =>
      by_cases hbuf : (found.connections c).readBuffer.size = 0
      · simp only [Found.parse, Memory.parseRequest, hc, hbuf, if_true, Except.ok.injEq] at hcall
        exact hcall ▸ rfl
      · cases hstate : p.state with
        | STATE_PARSE_URI => exact absurd hstate huri
        | STATE_PARSE_HEADERS =>
            have hheaders := (hstages { parser := p, connections := found.connections } h).2
            cases hp : found.stages.parseHeaders
              { parser := p, connections := found.connections } with
            | mk m headerState =>
                rw [hp] at hheaders
                simp only [Found.parse, Memory.parseRequest, hc, hbuf, if_false, hstate, hp] at hcall
                split at hcall
                · exact Except.ok.inj hcall ▸ rfl
                · have herror : m.parser.error = true := hheaders
                  split at hcall
                  · exact recvBody_keeps_error (m := m.setState .STATE_RECV_BODY) herror hcall
                  · exact recvBody_keeps_error (m := m.setState .STATE_ANALYSIS) herror hcall
        | STATE_RECV_BODY | STATE_ANALYSIS | STATE_FINISH =>
            simp only [Found.parse, Memory.parseRequest, hc, hbuf, if_false, hstate] at hcall
            exact recvBody_keeps_error h hcall

/-! ## A parser in use -/

/-- A `Reset` in a run does its work. -/
def ResetAsNew (p : HttpParser κ) (u : Use κ) : Prop := u = .reset → AsNew p

/-- A `Reset` in a run finds the kept fields untouched. -/
def ResetUntouched (p : HttpParser κ) (u : Use κ) : Prop := u = .reset → Untouched p

/-- A step that is a call. -/
lemma step_parse {found : Found κ} {p q : HttpParser κ} (h : use.step p (.parse found) = some q) :
    ∃ o, found.parse p = .ok o ∧ o.1.parser = q := by
  simp only [use] at h
  split at h
  · rename_i o hcall
    exact ⟨o, hcall, Option.some.inj h⟩
  · simp at h

/-- Once `error_` is set, every `Reset` comes too late. -/
lemma along_untouched_of_error : ∀ {p q : HttpParser κ} (us : List (Use κ)), p.error = true →
    (∀ found, .parse found ∈ us → found.stages.KeepsError) → use.run p us = some q →
      (use.Along ResetUntouched p us ↔ .reset ∉ us)
  | _, _, [], _, _, _ => iff_of_true trivial (by simp)
  | p, q, .reset :: us, h, _, _ => by
      refine iff_of_false (fun hall => ?_) (by simp)
      have huntouched : Untouched p := hall.1 rfl
      simp [Untouched, HttpParser.kept, HttpParser.fresh, h] at huntouched
  | p, q, .parse found :: us, h, hstages, hrun => by
      obtain ⟨t, hst, hrest⟩ := Machine.run_cons_eq_some.mp hrun
      have ht : t.error = true := by
        obtain ⟨o, hcall, rfl⟩ := step_parse hst
        exact parse_keeps_error (hstages found List.mem_cons_self) h hcall
      have hskip : ResetUntouched p (.parse found) := fun hu => nomatch hu
      rw [Machine.along_cons hst, along_untouched_of_error us ht
        (fun f hf => hstages f (List.mem_cons_of_mem _ hf)) hrest, and_iff_right hskip]
      simp

/-- No `Reset` comes behind a call of `ParseRequest`. -/
def ResetsFirst (us : List (Use κ)) : Prop := us.Pairwise fun u v => u = .reset ∨ v ≠ .reset

/-- From a new parser on: by induction on the calls of `Reset` before the first request. -/
lemma along_untouched_of_fresh {conn : Option κ} : ∀ {q : HttpParser κ} (us : List (Use κ)),
    (∀ found, .parse found ∈ us → found.stages.KeepsError) → use.run (freshOn conn) us = some q →
      (use.Along ResetUntouched (freshOn conn) us ↔ ResetsFirst us)
  | _, [], _, _ => iff_of_true trivial .nil
  | q, .reset :: us, hstages, hrun => by
      obtain ⟨t, hst, hrest⟩ := Machine.run_cons_eq_some.mp hrun
      obtain rfl : freshOn conn = t := Option.some.inj hst
      have hnew : ResetUntouched (freshOn conn) .reset := fun _ => rfl
      rw [Machine.along_cons hst, along_untouched_of_fresh us
        (fun f hf => hstages f (List.mem_cons_of_mem _ hf)) hrest, and_iff_right hnew]
      simp [ResetsFirst]
  | q, .parse found :: us, hstages, hrun => by
      obtain ⟨t, hst, hrest⟩ := Machine.run_cons_eq_some.mp hrun
      have ht : t.error = true := by
        obtain ⟨o, hcall, rfl⟩ := step_parse hst
        exact parse_sets_error rfl hcall
      have hskip : ResetUntouched (freshOn conn) (.parse found) := fun hu => nomatch hu
      rw [Machine.along_cons hst, along_untouched_of_error us ht
        (fun f hf => hstages f (List.mem_cons_of_mem _ hf)) hrest, and_iff_right hskip]
      simp only [ResetsFirst, List.pairwise_cons, reduceCtorEq, false_or]
      constructor
      · intro hno
        have hnot : ∀ v ∈ us, v ≠ .reset := fun v hv he => hno (he ▸ hv)
        exact ⟨hnot, List.pairwise_of_forall_mem_list fun _ _ v hv => .inr (hnot v hv)⟩
      · exact fun h hmem => h.1 _ hmem rfl

/-! ## The result -/

/-- **When `Reset` makes a parser as new.**  In every use of a parser each `Reset` does so exactly
if it finds the five kept fields as the constructor left them.  Where no stage clears `error_`, it
comes to this: no `Reset` behind a request is as it should be, for the first call of `ParseRequest`
sets `error_`. -/
theorem reset_asNew_iff {conn : Option κ} {p : HttpParser κ} (us : List (Use κ))
    (hrun : use.run (freshOn conn) us = some p) :
    (use.Along ResetAsNew (freshOn conn) us ↔ use.Along ResetUntouched (freshOn conn) us) ∧
    ((∀ found, .parse found ∈ us → found.stages.KeepsError) →
      (use.Along ResetAsNew (freshOn conn) us ↔ ResetsFirst us)) := by
  have hiff : use.Along ResetAsNew (freshOn conn) us
      ↔ use.Along ResetUntouched (freshOn conn) us :=
    Machine.along_iff (fun q _ _ => imp_congr_right fun _ => asNew_iff q) us (.init ⟨conn, rfl⟩)
  exact ⟨hiff, fun hstages => hiff.trans (along_untouched_of_fresh us hstages hrun)⟩

/-- Stages that take the parser on to the headers, where `error_` is cleared. -/
def clearing : Stages Unit where
  parseURI m := ({ m with parser := { m.parser with state := .STATE_PARSE_HEADERS } },
    .PARSE_URI_SUCCESS)
  parseHeaders m := ({ m with parser := { m.parser with error := false } }, .PARSE_HEADER_SUCCESS)

/-- A byte on connection 5, for such stages. -/
def clearedRequest : Found Unit where
  connections _ := { Connection.fresh 5 with readBuffer := { buf := [71] } }
  stages := clearing

/-- The second call has cleared what the first one set, and another one follows the `Reset`. -/
theorem reset_asNew_iff_cleared :
    use.Along ResetAsNew (freshOn (some ()))
      [.parse clearedRequest, .parse clearedRequest, .reset, .parse clearedRequest] := by
  have hfirst : use.step (freshOn (some ())) (.parse clearedRequest) = some
      { freshOn (some ()) with state := .STATE_PARSE_HEADERS, error := true } := rfl
  have hsecond : use.step { freshOn (some ()) with state := .STATE_PARSE_HEADERS, error := true }
      (.parse clearedRequest) = some { freshOn (some ()) with state := .STATE_FINISH } := rfl
  have hreset : use.step { freshOn (some ()) with state := .STATE_FINISH } .reset
      = some (freshOn (some ())) := rfl
  refine (reset_asNew_iff
    (p := { freshOn (some ()) with state := .STATE_PARSE_HEADERS, error := true }) _ rfl).1.mpr ?_
  rw [Machine.along_cons hfirst, Machine.along_cons hsecond, Machine.along_cons hreset,
    Machine.along_cons hfirst]
  exact ⟨by simp [ResetUntouched], by simp [ResetUntouched], fun _ => rfl,
    by simp [ResetUntouched], trivial⟩

/-- An empty line on connection 5, and stages that report success. -/
def emptyLine : Found Unit where
  connections _ := { Connection.fresh 5 with readBuffer := { buf := [13, 10] } }
  stages := succeeding

/-- The error of the first request survives the `Reset`. -/
theorem error_survives_reset :
    ¬ ∀ (conn : Option Unit) (history : List (Found Unit)) (p : HttpParser Unit),
      use.run (freshOn conn) (history.map .parse) = some p → AsNew p := by
  intro h
  have hfields := (h (some ()) [emptyLine] { freshOn (some ()) with error := true } rfl).fields
  have herror := congrArg HttpParser.error hfields
  simp [HttpParser.reset, freshOn, HttpParser.fresh] at herror

end CppServer.Http
