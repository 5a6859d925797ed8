import CppServer.Core.Delivery

/-!
# Which callbacks are set

The function objects of a connection and of its channel, from the end of the connection's
construction on: who has set them, and who calls them.  Calling an empty one throws
`std::bad_function_call` and leaves every function up to the application.

Nothing sets `write_callback_`, and nothing listens for what would call it.  The
`on_connect_callback_` of a connection is called by nobody, and `NewConnection` looks at the
server's on_connection callback before it calls it.  The others are called without a look:
`BusinessLogic` calls `on_message_callback_`, and `Close` calls `delete_connection_callback_`, which
only `NewConnection` sets.

* `perform_functions` — the functions stay as the construction has set them.
* `noEmptyCall_iff_supports` — which step calls an empty one.
* `no_empty_call_iff` — over every run.
-/

namespace CppServer.Callbacks

/-- The function objects that are called somewhere. -/
inductive FunctionObject where
  | readCallback
  | writeCallback
  | deleteConnectionCallback
  | onMessageCallback
  | onConnectionCallback
  deriving DecidableEq, Repr

/-- The channel of a connection, if it has one, with the two callbacks in it; and whether the two
callbacks of the connection are set. -/
structure Functions where
  channel : Option Channel := none
  deleteConnectionCallback : Bool := false
  onMessageCallback : Bool := false
  deriving DecidableEq, Repr

/-- A connection and its functions. -/
structure Endpoint where
  conn : Connection
  functions : Functions
  deriving DecidableEq, Repr

/-! ## Construction -/

namespace Functions

/-- The part of `Connection::Connection` that is about the channel; `loop` says whether the event
loop is not null. -/
def ofLoop (loop : Bool) (fd : ℕ) : Functions where
  channel := if loop then some (({ fd } : Channel).enableRead.2.useET).2 else none

/-- `Connection::SetDeleteConnectionCallBack`, with a function that is not empty. -/
def setDeleteConnectionCallBack (f : Functions) : Functions :=
  { f with deleteConnectionCallback := true }

/-- `Connection::SetOnMessageCallBack`, with a function that may be empty, on a connection that has a
channel. -/
def setOnMessageCallBack (f : Functions) (func : Bool) : Functions :=
  { f with onMessageCallback := func, channel := f.channel.map Channel.setReadCallBack }

end Functions

/-- Who has made a connection. -/
inductive Origin where
  /-- `Server::NewConnection`; whether the server's two callbacks were set -/
  | newConnection (onConnection onMessage : Bool)
  /-- a client, with a null event loop -/
  | client
  deriving DecidableEq, Repr

/-- The functions of a connection when its construction has finished. -/
def Origin.functions (fd : ℕ) : Origin → Functions
  | .newConnection _ onMessage =>
      ((Functions.ofLoop true fd).setDeleteConnectionCallBack).setOnMessageCallBack onMessage
  | .client => Functions.ofLoop false fd

/-- A connection when its construction has finished. -/
def Origin.make (origin : Origin) (fd : ℕ) (nonBlocking : Bool) : Endpoint where
  conn :=
    { readBuffer := {}, writeBuffer := {}, sock := { fd, nonBlocking }, state := .connected }
  functions := origin.functions fd

/-! ## What is done with a connection -/

/-- What is left of the connection, and the empty function that was called, if there was one. -/
abbrev Outcome := Endpoint × Option FunctionObject

/-- The call of a function object. -/
def invoke (e : Endpoint) (function : FunctionObject) (isSet : Bool) (call : Option Outcome) :
    Option Outcome :=
  if isSet then call else some (e, some function)

/-- What the application does with a connection, given what the kernel answers. -/
inductive Op where
  | read (answers : List ReadResult)
  | setWriteBuffer (str : List UInt8)
  | write (answers : List WriteResult)
  | close

/-- One operation; `none` if it needs other answers. -/
def Op.apply (e : Endpoint) : Op → Option Outcome
  | .read answers =>
      match e.conn.read answers with
      | some (c, []) => some ({ e with conn := c }, none)
      | _ => none
  | .setWriteBuffer str => some ({ e with conn := e.conn.setWriteBuffer str }, none)
  | .write answers =>
      match e.conn.write answers with
      | .ok ⟨c, _, []⟩ => some ({ e with conn := c }, none)
      | _ => none
  -- `Connection::Close`; `Server::DeleteConnection` changes the registry and not the connection
  | .close => invoke e .deleteConnectionCallback e.functions.deleteConnectionCallback (some (e, none))

/-- Operations one after the other, up to an exception. -/
def applyAll : Endpoint → List Op → Option Outcome
  | e, [] => some (e, none)
  | e, op :: ops =>
      (op.apply e).bind fun o => match o.2 with
        | none => applyAll o.1 ops
        | some f => some (o.1, some f)

/-- `Connection::BusinessLogic`, given what the application's callback does. -/
def businessLogic (e : Endpoint) (answers : List ReadResult) (callback : List Op) :
    Option Outcome :=
  (Op.apply e (.read answers)).bind fun o =>
    invoke o.1 .onMessageCallback o.1.functions.onMessageCallback (applyAll o.1 callback)

/-- `Channel::HandleEvent`.  An exception of the read callback leaves it. -/
def handleEvent (e : Endpoint) (ch : Channel) (readyEvents : UInt32) (answers : List ReadResult)
    (callback : List Op) : Option Outcome :=
  (if wantsRead readyEvents then
      invoke e .readCallback ch.readCallback (businessLogic e answers callback)
    else some (e, none)).bind fun o =>
      match o.2 with
      | some f => some (o.1, some f)
      | none =>
          if wantsWrite readyEvents then
            invoke o.1 .writeCallback ch.writeCallback (some (o.1, none))
          else some (o.1, none)

/-- What happens to a connection. -/
inductive Action where
  /-- ready events are dispatched, with the answers `BusinessLogic` gets and what the on_message
  callback does -/
  | dispatch (readyEvents : UInt32) (answers : List ReadResult) (callback : List Op)
  /-- the last statement of `NewConnection`, and what the on_connection callback does -/
  | announce (callback : List Op)
  | op (op : Op)

/-- What comes of an action; `none` if it cannot happen: only a registered channel is dispatched,
with events it listens for. -/
def perform (origin : Origin) (e : Endpoint) : Action → Option Outcome
  | .dispatch readyEvents answers callback =>
      e.functions.channel.bind fun ch =>
        if reportable ch.listenEvents readyEvents then
          handleEvent e ch readyEvents answers callback
        else none
  | .announce callback =>
      match origin with
      | .newConnection onConnection _ =>
          if onConnection then
            invoke e .onConnectionCallback onConnection (applyAll e callback)
          else some (e, none)
      | .client => none
  | .op op => op.apply e

/-- A connection after its construction.  An exception leaves it as it is at that point, and the
application may go on with it. -/
def machine (origin : Origin) : Machine Endpoint Action where
  Init e := ∃ (fd : ℕ) (nonBlocking : Bool), e = origin.make fd nonBlocking
  step e a := (perform origin e a).map Prod.fst

/-- The action calls no empty function. -/
def NoEmptyCall (origin : Origin) (e : Endpoint) (a : Action) : Prop :=
  (perform origin e a).bind Prod.snd = none

instance (origin : Origin) (e : Endpoint) (a : Action) : Decidable (NoEmptyCall origin e a) :=
  inferInstanceAs (Decidable (_ = _))

/-- What a connection of this origin may be used for. -/
def Origin.Supports : Origin → Action → Prop
  | .newConnection _ false, .dispatch readyEvents _ _ => wantsRead readyEvents = false
  | .client, .op .close => False
  | _, _ => True

/-! ## The functions stay as they are -/

section Steps

variable {e : Endpoint} {o : Outcome}

lemma Op.apply_functions {op : Op} (h : op.apply e = some o) :
    o.1.functions = e.functions := by
  cases op with
  | read answers =>
      simp only [Op.apply] at h
      split at h
      · exact Option.some.inj h ▸ rfl
      · simp at h
  | setWriteBuffer str => exact Option.some.inj h ▸ rfl
  | write answers =>
      simp only [Op.apply] at h
      split at h
      · exact Option.some.inj h ▸ rfl
      · simp at h
  | close =>
      simp only [Op.apply, invoke] at h
      split at h <;> exact Option.some.inj h ▸ rfl

/-- An operation throws only if it is `Close`. -/
lemma Op.apply_snd {op : Op} (h : op.apply e = some o) :
    o.2 = none ↔ (op = .close → e.functions.deleteConnectionCallback = true) := by
  cases op with
  | read answers =>
      simp only [Op.apply] at h
      split at h
      · exact Option.some.inj h ▸ by simp
      · simp at h
  | setWriteBuffer str => exact Option.some.inj h ▸ by simp
  | write answers =>
      simp only [Op.apply] at h
      split at h
      · exact Option.some.inj h ▸ by simp
      · simp at h
  | close =>
      simp only [Op.apply, invoke] at h
      split at h
      · rename_i hset
        exact Option.some.inj h ▸ by simp [hset]
      · rename_i hset
        exact Option.some.inj h ▸ by simp [hset]

/-- What a callback does: it can close the connection as often as it likes, if that can be done. -/
lemma applyAll_spec : ∀ {e : Endpoint} (ops : List Op), applyAll e ops = some o →
    o.1.functions = e.functions ∧ (e.functions.deleteConnectionCallback = true → o.2 = none)
  | e, [], h => Option.some.inj h ▸ ⟨rfl, fun _ => rfl⟩
  | e, op :: ops, h => by
      obtain ⟨p, hop, hrest⟩ := Option.bind_eq_some_iff.mp h
      have hfun := Op.apply_functions hop
      split at hrest
      · obtain ⟨hfun', hnone⟩ := applyAll_spec ops hrest
        exact ⟨hfun'.trans hfun, fun hset => hnone (by rw [hfun]; exact hset)⟩
      · rename_i f hthrown
        refine ⟨Option.some.inj hrest ▸ hfun, fun hset => ?_⟩
        have hnone := (Op.apply_snd hop).mpr fun _ => hset
        rw [hnone] at hthrown
        simp at hthrown

lemma businessLogic_spec {answers : List ReadResult} {callback : List Op}
    (h : businessLogic e answers callback = some o) :
    o.1.functions = e.functions ∧ (e.functions.deleteConnectionCallback = true →
      (o.2 = none ↔ e.functions.onMessageCallback = true)) := by
  obtain ⟨p, hread, hrest⟩ := Option.bind_eq_some_iff.mp h
  have hfun := Op.apply_functions hread
  simp only [invoke] at hrest
  split at hrest
  · rename_i hset
    obtain ⟨hfun', hnone⟩ := applyAll_spec callback hrest
    refine ⟨hfun'.trans hfun, fun hdelete => ?_⟩
    rw [hfun] at hset hnone
    simp [hset, hnone hdelete]
  · rename_i hset
    rw [hfun] at hset
    obtain rfl := Option.some.inj hrest
    exact ⟨hfun, fun _ => by simp [hset]⟩

lemma handleEvent_spec {ch : Channel} {readyEvents : UInt32} {answers : List ReadResult}
    {callback : List Op} (h : handleEvent e ch readyEvents answers callback = some o) :
    o.1.functions = e.functions ∧ (ch.readCallback = true → wantsWrite readyEvents = false →
      e.functions.deleteConnectionCallback = true →
        (o.2 = none ↔ (wantsRead readyEvents = true → e.functions.onMessageCallback = true))) := by
  obtain ⟨p, hread, hrest⟩ := Option.bind_eq_some_iff.mp h
  -- the end of the first half: what is called for a read, if it is asked for
  have hfirst : p.1.functions = e.functions ∧ (ch.readCallback = true →
      e.functions.deleteConnectionCallback = true →
        (p.2 = none ↔ (wantsRead readyEvents = true → e.functions.onMessageCallback = true))) := by
    by_cases hwants : wantsRead readyEvents = true
    · rw [if_pos hwants, invoke] at hread
      split at hread
      · obtain ⟨hfun, hiff⟩ := businessLogic_spec hread
        exact ⟨hfun, fun _ hdelete => by rw [hiff hdelete]; simp [hwants]⟩
      · rename_i hunset
        exact ⟨Option.some.inj hread ▸ rfl, fun hset => absurd hset hunset⟩
    · rw [if_neg hwants] at hread
      exact ⟨Option.some.inj hread ▸ rfl, fun _ _ => Option.some.inj hread ▸ by simp [hwants]⟩
  obtain ⟨hfun, hiff⟩ := hfirst
  split at hrest
  · rename_i f hthrown
    obtain rfl := Option.some.inj hrest
    refine ⟨hfun, fun hset _ hdelete => ?_⟩
    rw [← hiff hset hdelete, hthrown]
  · rename_i hnone
    by_cases hwrite : wantsWrite readyEvents = true
    · rw [if_pos hwrite, invoke] at hrest
      refine ⟨?_, fun _ hno => absurd hwrite (by simp [hno])⟩
      split at hrest <;> exact Option.some.inj hrest ▸ hfun
    · rw [if_neg hwrite] at hrest
      obtain rfl := Option.some.inj hrest
      refine ⟨hfun, fun hset _ hdelete => ?_⟩
      rw [← hiff hset hdelete, hnone]

/-- **Nothing that happens sets or unsets a function.** -/
theorem perform_functions {origin : Origin} {a : Action} (h : perform origin e a = some o) :
    o.1.functions = e.functions := by
  cases a with
  | dispatch readyEvents answers callback =>
      obtain ⟨ch, -, hhandle⟩ := Option.bind_eq_some_iff.mp h
      split at hhandle
      · exact (handleEvent_spec hhandle).1
      · simp at hhandle
  | announce callback =>
      cases origin with
      | newConnection onConnection onMessage =>
          simp only [perform, invoke] at h
          split at h
          · exact (applyAll_spec callback h).1
          · exact Option.some.inj h ▸ rfl
      | client => simp [perform] at h
  | op op => exact Op.apply_functions h

end Steps

/-! ## Which step calls an empty function -/

/-- The server's connections have a channel that listens for reads and has something to call. -/
lemma newConnection_functions (fd : ℕ) (onConnection onMessage : Bool) :
    (∃ ch, ((Origin.newConnection onConnection onMessage).functions fd).channel = some ch ∧
      ch.readCallback = true ∧ ch.listenEvents = CONNECTION_EVENTS) ∧
    ((Origin.newConnection onConnection onMessage).functions fd).deleteConnectionCallback = true ∧
    ((Origin.newConnection onConnection onMessage).functions fd).onMessageCallback = onMessage := by
  have hlisten : (0 ||| (EPOLLIN ||| EPOLLPRI)) ||| EPOLLET = CONNECTION_EVENTS := by decide
  exact ⟨⟨_, rfl, rfl, hlisten⟩, rfl, rfl⟩

lemma noEmptyCall_iff {origin : Origin} {e : Endpoint} {a : Action} {o : Outcome}
    (h : perform origin e a = some o) : NoEmptyCall origin e a ↔ o.2 = none := by
  rw [NoEmptyCall, h, Option.bind_some]

/-- A connection of the server can be closed, by the application and in a callback.  It has no
on_message callback if the server had none. -/
lemma supports_newConnection {onConnection onMessage : Bool} {fd : ℕ} {e : Endpoint}
    (he : e.functions = (Origin.newConnection onConnection onMessage).functions fd) {a : Action}
    {o : Outcome} (h : perform (.newConnection onConnection onMessage) e a = some o) :
    o.2 = none ↔ (Origin.newConnection onConnection onMessage).Supports a := by
  obtain ⟨⟨ch, hch, hread, hlisten⟩, hdelete, hmessage⟩ :=
    newConnection_functions fd onConnection onMessage
  rw [← he] at hch hdelete hmessage
  cases a with
  | dispatch readyEvents answers callback =>
      simp only [perform, hch, Option.bind_some] at h
      split at h
      · rename_i hreport
        rw [hlisten] at hreport
        rw [(handleEvent_spec h).2 hread (wantsWrite_of_reportable hreport) hdelete, hmessage]
        cases onMessage <;> simp [Origin.Supports]
      · simp at h
  | announce callback =>
      have hnone : o.2 = none := by
        simp only [perform, invoke] at h
        split at h
        · exact (applyAll_spec callback h).2 hdelete
        · exact Option.some.inj h ▸ rfl
      cases onMessage <;> simp [Origin.Supports, hnone]
  | op op =>
      have hnone : o.2 = none := (Op.apply_snd h).mpr fun _ => hdelete
      cases onMessage <;> simp [Origin.Supports, hnone]

/-- A connection of a client has no channel to be dispatched, and cannot be closed. -/
lemma supports_client {fd : ℕ} {e : Endpoint} (he : e.functions = Origin.client.functions fd)
    {a : Action} {o : Outcome} (h : perform .client e a = some o) :
    o.2 = none ↔ Origin.client.Supports a := by
  have hchannel : e.functions.channel = none := by
    rw [he]
    rfl
  have hdelete : e.functions.deleteConnectionCallback = false := by
    rw [he]
    rfl
  cases a with
  | dispatch readyEvents answers callback => simp [perform, hchannel] at h
  | announce callback => simp [perform] at h
  | op op =>
      rw [Op.apply_snd h, hdelete]
      cases op <;> simp [Origin.Supports]

/-- **Which step calls an empty function**: one that the connection does not support. -/
theorem noEmptyCall_iff_supports {origin : Origin} {fd : ℕ} {e : Endpoint}
    (he : e.functions = origin.functions fd) {a : Action} {o : Outcome}
    (h : perform origin e a = some o) : NoEmptyCall origin e a ↔ origin.Supports a := by
  rw [noEmptyCall_iff h]
  cases origin with
  | newConnection onConnection onMessage => exact supports_newConnection he h
  | client => exact supports_client he h

/-- No step of a run sets or unsets a function. -/
lemma functions_step {origin : Origin} {fd : ℕ} {e e' : Endpoint} {a : Action}
    (he : e.functions = origin.functions fd) (hst : (machine origin).step e a = some e') :
    e'.functions = origin.functions fd := by
  obtain ⟨o, hperform, rfl⟩ := Option.map_eq_some_iff.mp hst
  exact (perform_functions hperform).trans he

/-- What the server has made can be closed, in every state. -/
lemma close_iff {origin : Origin} {fd : ℕ} {e : Endpoint}
    (he : e.functions = origin.functions fd) :
    NoEmptyCall origin e (.op .close) ↔ origin ≠ .client := by
  have hclose : ∃ o, perform origin e (.op .close) = some o := by
    simp only [perform, Op.apply, invoke]
    split <;> exact ⟨_, rfl⟩
  obtain ⟨o, ho⟩ := hclose
  rw [noEmptyCall_iff_supports he ho]
  cases origin with
  | newConnection onConnection onMessage => cases onMessage <;> simp [Origin.Supports]
  | client => simp [Origin.Supports]

/-! ## The result -/

/-- **When no empty function is called.**  In every run exactly if the connection is used for what
it supports: one that the server has made without an on_message callback is not dispatched for a
read, and one that a client has made is not closed.  A connection whose state is `Closed` can be
closed exactly if the server has made it. -/
theorem no_empty_call_iff (origin : Origin) (fd : ℕ) (nonBlocking : Bool) {e : Endpoint}
    (as : List Action) (hrun : (machine origin).run (origin.make fd nonBlocking) as = some e) :
    ((machine origin).Along (NoEmptyCall origin) (origin.make fd nonBlocking) as
      ↔ ∀ a ∈ as, origin.Supports a) ∧
    (e.conn.state = .closed → (NoEmptyCall origin e (.op .close) ↔ origin ≠ .client)) := by
  constructor
  · rw [Machine.along_congr (Q := fun _ a => origin.Supports a)
      (fun s a s' hs _ hst => functions_step hs hst) ?_ as rfl hrun, Machine.along_iff_forall as hrun]
    intro s a s' hs hst
    obtain ⟨o, hperform, -⟩ := Option.map_eq_some_iff.mp hst
    exact noEmptyCall_iff_supports hs hperform
  · intro _
    refine close_iff (Machine.run_rel
      (R := fun s s' : Endpoint => s.functions = origin.functions fd →
        s'.functions = origin.functions fd) (fun _ => id) ?_ as hrun rfl)
    exact fun s a t s' hst ht hs => ht (functions_step hs hst)

/-- A client whose server has gone: its next write fails with ECONNRESET, and it closes the
connection, as the clients of the repository do. -/
def serverGone : List Action := [.op (.setWriteBuffer [120, 0]), .op (.write [.error (.other 104)])]

lemma run_serverGone : ∃ e, (machine .client).run (Origin.client.make 3 false) serverGone = some e ∧
    e.conn.state = .closed ∧ ¬ NoEmptyCall .client e (.op .close) :=
  ⟨_, rfl, rfl, by decide⟩

theorem no_empty_call_iff_serverGone :
    (machine .client).Along (NoEmptyCall .client) (Origin.client.make 3 false) serverGone := by
  obtain ⟨e, hrun, -⟩ := run_serverGone
  exact (no_empty_call_iff .client 3 false serverGone hrun).1.mpr (by simp [serverGone, Origin.Supports])

/-- The clients of the repository call `Close` on a closed connection, which calls nothing. -/
theorem close_calls_nothing :
    ¬ ∀ (origin : Origin) (fd : ℕ) (nonBlocking : Bool) (as : List Action) (e : Endpoint),
      (machine origin).run (origin.make fd nonBlocking) as = some e →
        (machine origin).Along (NoEmptyCall origin) (origin.make fd nonBlocking) as ∧
        (e.conn.state = .closed → NoEmptyCall origin e (.op .close)) := by
  intro h
  obtain ⟨e, hrun, hclosed, hempty⟩ := run_serverGone
  exact hempty ((h .client 3 false serverGone e hrun).2 hclosed)

end CppServer.Callbacks
