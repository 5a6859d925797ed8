import Mathlib.Data.Finset.Basic
import CppServer.Core.CloseState
import CppServer.Core.ReadPath

/-!
# Who removes a dead connection

The connections of `connections_` as they are between two events.  The handling of an event is
one step: `BusinessLogic` reads, and then the application's callback does what it likes with the
connections that are registered.  Operations on a connection that is not do not concern the
registry, and are left out.

`Read` and `Write` set the state to `Closed` at end of file and at a fatal error, and nothing else
happens: `DeleteConnection` is only ever called by `Connection::Close`, and that only by the
application.  `unclosed` reads off the answers of the kernel and the calls of `Close` which
connections are dead and registered; `dead_connections_stay` says that it is right in every run.
-/

namespace CppServer.DeadConnections

open Function (update update_self update_of_ne)

/-- What a callback does with a connection, given what the kernel answers. -/
inductive Op where
  | read (fd : ℕ) (script : ReadScript)
  | setWriteBuffer (fd : ℕ) (str : List UInt8)
  /-- the answers are those this `Write` gets, and no others -/
  | write (fd : ℕ) (answers : List WriteResult)
  | close (fd : ℕ)

inductive Action where
  /-- an accept that returns `fd`, and `NewConnection` -/
  | accept (fd : ℕ)
  /-- an event on `fd`, with the answers `BusinessLogic`'s `Read` gets and what the on_message
  callback does -/
  | event (fd : ℕ) (script : ReadScript) (callback : List Op)

structure State where
  connections : ℕ → Option Connection := fun _ => none

/-- The registered connection `fd` goes on as `c`. -/
def State.set (s : State) (fd : ℕ) (c : Connection) : State :=
  { connections := update s.connections fd (some c) }

/-- `Connection::Close`, which calls `Server::DeleteConnection`. -/
def State.close (s : State) (fd : ℕ) : State :=
  { connections := update s.connections fd none }

@[simp] lemma set_self (s : State) (fd : ℕ) (c : Connection) :
    (s.set fd c).connections fd = some c := update_self _ _ _

@[simp] lemma set_of_ne (s : State) {fd g : ℕ} (h : g ≠ fd) (c : Connection) :
    (s.set fd c).connections g = s.connections g := update_of_ne h _ _

@[simp] lemma close_self (s : State) (fd : ℕ) : (s.close fd).connections fd = none :=
  update_self _ _ _

@[simp] lemma close_of_ne (s : State) {fd g : ℕ} (h : g ≠ fd) :
    (s.close fd).connections g = s.connections g := update_of_ne h _ _

/-- What one operation does; `none` if it cannot be done with these answers. -/
def Op.apply (s : State) : Op → Option State
  | .read fd script =>
      (s.connections fd).bind fun c => (c.read script.results).map fun p => s.set fd p.1
  | .setWriteBuffer fd str => (s.connections fd).map fun c => s.set fd (c.setWriteBuffer str)
  | .write fd answers =>
      (s.connections fd).bind fun c =>
        match c.write answers with
        | .ok o => if o.rest = [] then some (s.set fd o.conn) else none
        | .error _ => none
  | .close fd => (s.connections fd).map fun _ => s.close fd

def applyAll : State → List Op → Option State
  | s, [] => some s
  | s, op :: ops => (op.apply s).bind fun s' => applyAll s' ops

/-- The operations of the handling of an event. -/
def Action.ops : Action → List Op
  | .accept _ => []
  | .event fd script callback => .read fd script :: callback

/-- What a step does; `none` if it cannot be taken. -/
def step (s : State) : Action → Option State
  | .accept fd => if s.connections fd = none then some (s.set fd (Connection.fresh fd)) else none
  | .event fd script callback =>
      if (s.connections fd).isSome then applyAll s (.read fd script :: callback) else none

/-- The server before the first accept. -/
def machine : Machine State Action where
  Init s := s = {}
  step := step

/-! ## What the kernel has said -/

/-- An answer of `::write` that closes the connection. -/
def fatal : WriteResult → Bool
  | .error (.other _) => true
  | _ => false

/-- The connections that are dead and have not been closed, after an operation. -/
def Op.mark (dead : Finset ℕ) : Op → Finset ℕ
  | .read fd script => if script.ending = .wouldBlock then dead else insert fd dead
  | .setWriteBuffer _ _ => dead
  | .write fd answers => if answers.any fatal then insert fd dead else dead
  | .close fd => dead.erase fd

/-- The connections on which end of file or a fatal error has been observed, and that no callback
has closed since. -/
def unclosed (as : List Action) : Finset ℕ := (as.flatMap Action.ops).foldl Op.mark ∅

/-- Every connection that the event finds dead is closed by its callback. -/
def Action.ClosesDead (a : Action) : Prop := a.ops.foldl Op.mark ∅ = ∅

/-! ## One operation -/

/-- The states of the registered connections are those the history says. -/
structure Tracks (s : State) (dead : Finset ℕ) : Prop where
  nonBlocking : ∀ fd c, s.connections fd = some c → c.sock.nonBlocking = true
  state : ∀ fd c, s.connections fd = some c → c.state = if fd ∈ dead then .closed else .connected
  registered : ∀ fd ∈ dead, (s.connections fd).isSome

lemma fatal_eq : fatal = CloseState.fails true := by
  funext r
  cases r with
  | ok k => rfl
  | error e => cases e <;> rfl

/-- A `Write` closes the connection exactly if it gets a fatal answer. -/
lemma write_state {c : Connection} (hn : c.sock.nonBlocking = true) {answers : List WriteResult}
    {o : Connection.WriteOutcome} (h : c.write answers = .ok o) (hrest : o.rest = []) :
    o.conn.sock = c.sock ∧
      o.conn.state = if answers.any fatal then .closed else c.state := by
  by_cases hc : c.state = .connected
  · have hwrite := CloseState.write_state hc h hrest
    rwa [if_pos hn, ← fatal_eq] at hwrite
  · have hwrite : c.write answers = .ok ⟨c, [], answers⟩ := by
      rw [Connection.write, if_pos hc]
    rw [hwrite, Except.ok.injEq] at h
    subst h
    have hnil : answers = [] := hrest
    simp [hnil]

/-- A `Read` closes the connection exactly if it does not end in EAGAIN. -/
lemma read_state {c c' : Connection} (hn : c.sock.nonBlocking = true) {script : ReadScript}
    {rest : List ReadResult} (h : c.read script.results = some (c', rest)) :
    c'.sock = c.sock ∧
      c'.state = if c.state = .connected ∧ script.ending ≠ .wouldBlock then .closed
        else c.state := by
  by_cases hc : c.state = .connected
  · have hread := Connection.read_eq hc hn script []
    rw [List.append_nil, h, Option.some.injEq, Prod.mk.injEq] at hread
    rw [hread.1, hc]
    refine ⟨rfl, ?_⟩
    cases script.ending <;> simp [ReadEnding.leaves]
  · rw [Connection.read, if_pos hc, Option.some.injEq, Prod.mk.injEq] at h
    rw [← h.1, if_neg fun hand => hc hand.1]
    exact ⟨rfl, rfl⟩

section Steps

variable {s s' : State} {dead : Finset ℕ}

/-- A registered connection goes on, dead or not. -/
lemma tracks_set (h : Tracks s dead) {fd : ℕ} {c : Connection} {dead' : Finset ℕ}
    (hn : c.sock.nonBlocking = true)
    (hstate : c.state = if fd ∈ dead' then .closed else .connected)
    (hothers : ∀ g, g ≠ fd → (g ∈ dead' ↔ g ∈ dead)) : Tracks (s.set fd c) dead' where
  nonBlocking g d hd := by
    by_cases hg : g = fd
    · subst hg
      rw [set_self, Option.some.injEq] at hd
      exact hd ▸ hn
    · exact h.nonBlocking g d (by rwa [set_of_ne s hg] at hd)
  state g d hd := by
    by_cases hg : g = fd
    · subst hg
      rw [set_self, Option.some.injEq] at hd
      exact hd ▸ hstate
    · rw [set_of_ne s hg] at hd
      simp only [hothers g hg]
      exact h.state g d hd
  registered g hdead := by
    by_cases hg : g = fd
    · subst hg
      simp
    · rw [set_of_ne s hg]
      exact h.registered g ((hothers g hg).mp hdead)

lemma tracks_close (h : Tracks s dead) (fd : ℕ) : Tracks (s.close fd) (dead.erase fd) where
  nonBlocking g d hd := by
    by_cases hg : g = fd
    · subst hg
      simp at hd
    · exact h.nonBlocking g d (by rwa [close_of_ne s hg] at hd)
  state g d hd := by
    by_cases hg : g = fd
    · subst hg
      simp at hd
    · rw [close_of_ne s hg] at hd
      simpa [hg] using h.state g d hd
  registered g hdead := by
    obtain ⟨hg, hdead⟩ := Finset.mem_erase.mp hdead
    rw [close_of_ne s hg]
    exact h.registered g hdead

/-- **One operation**: what the answers say is what becomes of the state. -/
lemma tracks_apply (h : Tracks s dead) {op : Op} (hop : op.apply s = some s') :
    Tracks s' (op.mark dead) := by
  cases op with
  | read fd script =>
      simp only [Op.apply, Option.bind_eq_some_iff, Option.map_eq_some_iff] at hop
      obtain ⟨c, hc, ⟨c', rest⟩, hread, rfl⟩ := hop
      obtain ⟨hsock, hstate⟩ := read_state (h.nonBlocking fd c hc) hread
      have hold := h.state fd c hc
      refine tracks_set h (by rw [hsock]; exact h.nonBlocking fd c hc) ?_ fun g hg => ?_
      · rw [hstate, hold]
        by_cases he : script.ending = .wouldBlock
        · simp [Op.mark, he]
        · by_cases hd : fd ∈ dead <;> simp [Op.mark, he, hd]
      · by_cases he : script.ending = .wouldBlock <;> simp [Op.mark, he, hg]
  | setWriteBuffer fd str =>
      simp only [Op.apply, Option.map_eq_some_iff] at hop
      obtain ⟨c, hc, rfl⟩ := hop
      exact tracks_set h (h.nonBlocking fd c hc) (h.state fd c hc) fun _ _ => Iff.rfl
  | write fd answers =>
      simp only [Op.apply, Option.bind_eq_some_iff] at hop
      obtain ⟨c, hc, hop⟩ := hop
      cases hw : c.write answers with
      | error e => simp [hw] at hop
      | ok o =>
          simp only [hw] at hop
          split at hop
          · rename_i hrest
            simp only [Option.some.injEq] at hop
            subst hop
            obtain ⟨hsock, hstate⟩ := write_state (h.nonBlocking fd c hc) hw hrest
            have hold := h.state fd c hc
            refine tracks_set h (by rw [hsock]; exact h.nonBlocking fd c hc) ?_ fun g hg => ?_
            · rw [hstate, hold]
              by_cases hf : answers.any fatal = true <;> simp only [Op.mark, hf] <;> simp
            · by_cases hf : answers.any fatal = true <;> simp only [Op.mark, hf] <;> simp [hg]
          · simp at hop
  | close fd =>
      simp only [Op.apply, Option.map_eq_some_iff] at hop
      obtain ⟨c, hc, rfl⟩ := hop
      exact tracks_close h fd

/-- A series of operations: by induction on it. -/
lemma tracks_applyAll :
    ∀ {s : State} {dead : Finset ℕ} (ops : List Op), Tracks s dead → applyAll s ops = some s' →
      Tracks s' (ops.foldl Op.mark dead)
  | s, dead, [], h, happ => by
      simp only [applyAll, Option.some.injEq] at happ
      exact happ ▸ h
  | s, dead, op :: ops, h, happ => by
      simp only [applyAll, Option.bind_eq_some_iff] at happ
      obtain ⟨t, hop, hops⟩ := happ
      exact tracks_applyAll ops (tracks_apply h hop) hops

lemma tracks_step {a : Action} (h : Tracks s dead) (hst : step s a = some s') :
    Tracks s' (a.ops.foldl Op.mark dead) := by
  cases a with
  | accept fd =>
      simp only [step] at hst
      split at hst
      · rename_i hnone
        simp only [Option.some.injEq] at hst
        subst hst
        have hfd : fd ∉ dead := fun hd => by simpa [hnone] using h.registered fd hd
        refine tracks_set h rfl ?_ fun _ _ => Iff.rfl
        show ConnState.connected = if fd ∈ dead then .closed else .connected
        rw [if_neg hfd]
      · simp at hst
  | event fd script callback =>
      simp only [step] at hst
      split at hst
      · exact tracks_applyAll _ h hst
      · simp at hst

lemma tracks_run :
    ∀ {s : State} {dead : Finset ℕ} (as : List Action), Tracks s dead →
      machine.run s as = some s' → Tracks s' ((as.flatMap Action.ops).foldl Op.mark dead)
  | s, dead, [], h, hr => by
      rw [Machine.run_nil, Option.some.injEq] at hr
      exact hr ▸ h
  | s, dead, a :: as, h, hr => by
      obtain ⟨t, hst, hrun⟩ := Machine.run_cons_eq_some.mp hr
      rw [List.flatMap_cons, List.foldl_append]
      exact tracks_run as (tracks_step h hst) hrun

end Steps

/-! ## The result -/

/-- Every connection in `connections_` is in state `Connected`. -/
def State.AllConnected (s : State) : Prop :=
  ∀ fd c, s.connections fd = some c → c.state = .connected

lemma Tracks.allConnected_iff {s : State} {dead : Finset ℕ} (h : Tracks s dead) :
    s.AllConnected ↔ dead = ∅ := by
  constructor
  · intro hall
    refine Finset.eq_empty_iff_forall_notMem.mpr fun fd hd => ?_
    obtain ⟨c, hc⟩ := Option.isSome_iff_exists.mp (h.registered fd hd)
    have hstate := h.state fd c hc
    rw [if_pos hd, hall fd c hc] at hstate
    simp at hstate
  · rintro rfl fd c hc
    simpa using h.state fd c hc

lemma tracks_start : Tracks {} ∅ where
  nonBlocking := by simp
  state := by simp
  registered := by simp

/-- Along a run from a state in which all are connected: the next state is again such a state if
its event closed what it found dead. -/
lemma allConnected_along {s s' : State} (as : List Action) (h : Tracks s ∅)
    (hrun : machine.run s as = some s') :
    machine.Along (fun s a => ∀ t, machine.step s a = some t → t.AllConnected) s as
      ↔ ∀ a ∈ as, a.ClosesDead := by
  rw [Machine.entered_iff (I := fun s => ∃ dead, Tracks s dead) (P := State.AllConnected)
      (Q := fun _ a => a.ClosesDead) ?_ ?_ as ⟨∅, h⟩ (h.allConnected_iff.mpr rfl) hrun,
    Machine.along_iff_forall as hrun]
  · rintro s a t ⟨dead, ht⟩ hst
    exact ⟨_, tracks_step ht hst⟩
  · rintro s a t ⟨dead, ht⟩ hall hst
    obtain rfl := ht.allConnected_iff.mp hall
    exact (tracks_step ht hst).allConnected_iff

/-- **A dead connection stays until the application closes it.**  At the end of every run a
registered connection is `Closed` if end of file or a fatal error has been observed on it and no
callback has closed it since, and `Connected` otherwise.  All connections are `Connected` after
every step exactly if every event's callback closes what the event finds dead. -/
theorem dead_connections_stay {s : State} (as : List Action)
    (hrun : machine.run {} as = some s) :
    (∀ fd c, s.connections fd = some c →
      c.state = if fd ∈ unclosed as then .closed else .connected) ∧
    (∀ fd ∈ unclosed as, (s.connections fd).isSome) ∧
    (machine.Along (fun s a => ∀ t, machine.step s a = some t → t.AllConnected) {} as
      ↔ ∀ a ∈ as, a.ClosesDead) := by
  have h := tracks_run as tracks_start hrun
  exact ⟨h.state, h.registered, allConnected_along as tracks_start hrun⟩

/-- The peer of a connection closes it, and the callback takes no notice. -/
def ignoresEof : List Action := [.accept 5, .event 5 ⟨[], .eof⟩ []]

lemma run_ignoresEof : ∃ s, machine.run {} ignoresEof = some s ∧
    (s.connections 5).map Connection.state = some .closed :=
  ⟨_, rfl, rfl⟩

theorem dead_connections_stay_ignoresEof :
    ∃ s, machine.run {} ignoresEof = some s ∧
      ∀ c, s.connections 5 = some c → c.state = .closed := by
  obtain ⟨s, hrun, -⟩ := run_ignoresEof
  refine ⟨s, hrun, fun c hc => ?_⟩
  rw [(dead_connections_stay ignoresEof hrun).1 5 c hc, if_pos]
  decide

/-- A connection that has met end of file is still registered after the event. -/
theorem dead_connection_registered :
    ¬ ∀ (s : State) (as : List Action), machine.run {} as = some s → s.AllConnected := by
  intro h
  obtain ⟨s, hrun, hclosed⟩ := run_ignoresEof
  obtain ⟨c, hc, hstate⟩ := Option.map_eq_some_iff.mp hclosed
  rw [h s ignoresEof hrun 5 c hc] at hstate
  simp at hstate

end CppServer.DeadConnections
