import Mathlib.Logic.Relation
import CppServer.Core.ReadPath
import CppServer.Server.Confinement
import CppServer.Server.NotStranded

/-!
# An event is one call of `Read`

The results about a single connection take a readiness event as one step: `Read`, with all the
answers of its read loop, and then the callback.  Here the steps are single calls of `::read`, with
arrivals and the steps of all other loops in between.  A run is seen through one connection at a
time (`View`): its own step list is `View.Step`, and every step of the system is, for each
connection, one of these or nothing (`view_step`).

* `events_atomic` — at each call of the on_message callback, the connection is what `Read` makes of
  it with the answers since the event began.
* `delivered_in_order` — what the callbacks have been shown, what the event under way has read and
  what the kernel still holds are, in this order, what the peer has sent.

Both are about runs in which a callback closes connections of its own sub reactor only.  Nothing
is locked, so one that closes another's may do so in the middle of its read loop.
-/

namespace CppServer.EdgeTriggered

open Function (update update_self update_of_ne)

/-! ## What is written down -/

/-- The history of a run, for each connection. -/
structure Log where
  /-- the bytes its peer has sent -/
  sent : ℕ → List UInt8 := fun _ => []
  /-- the read buffer at each call of the on_message callback, one after the other -/
  presented : ℕ → List UInt8 := fun _ => []
  /-- the connection as its last event found it -/
  began : ℕ → Option Connection := fun _ => none
  /-- the answers of `::read` since -/
  answers : ℕ → List ReadResult := fun _ => []

def record (s : State) : Action → Log → Log
  | .newConnection c _ queue _, log =>
      { log with sent := update log.sent c queue, presented := update log.presented c [] }
  | .send c data, log => { log with sent := update log.sent c (log.sent c ++ data) }
  | .handle _ c mask _, log =>
      if wantsRead mask then
        { log with began := update log.began c ((s.peer c).map Peer.conn),
                   answers := update log.answers c [] }
      else log
  | .read _ c _ answer, log =>
      { log with answers := update log.answers c (log.answers c ++ [answer]) }
  | .message _ c _ _ _, log =>
      let shown := (s.peer c).elim [] fun p => p.conn.readBuffer.buf
      { log with presented := update log.presented c (log.presented c ++ shown) }
  | _, log => log

/-- The reactors, with the history of each connection. -/
abbrev logged (n : ℕ) : Machine (State × Log) Action := (machine n).recorded {} record

/-- A callback closes connections of its own sub reactor only. -/
def Local (s : State) : Action → Prop
  | .message r _ _ closes _ => ∀ d ∈ closes, ∀ p, s.peer d = some p → p.loop = r
  | _ => True

instance decidableLocal (s : State) : ∀ a, Decidable (Local s a)
  | .message r _ _ closes _ =>
      inferInstanceAs (Decidable (∀ d ∈ closes, ∀ p, s.peer d = some p → p.loop = r))
  | .newConnection _ _ _ _ => isTrue trivial
  | .send _ _ => isTrue trivial
  | .shutdown _ => isTrue trivial
  | .poll _ _ => isTrue trivial
  | .dropEdge _ _ => isTrue trivial
  | .handle _ _ _ _ => isTrue trivial
  | .read _ _ _ _ => isTrue trivial
  | .endOfBatch _ => isTrue trivial

/-! ## One connection -/

inductive Phase where
  | idle
  | reading
  | messaging
  deriving DecidableEq, Repr

/-- A connection and its history. -/
structure View where
  phase : Phase
  conn : Connection
  queue : List UInt8
  sent : List UInt8
  presented : List UInt8
  began : Option Connection
  answers : List ReadResult

/-- Where the read loop is after an answer. -/
def Phase.after : Control → Phase
  | .again => .reading
  | .stop => .messaging

/-- What happens to one connection. -/
inductive View.Step : View → View → Prop
  | arrive (v : View) (data : List UInt8) :
      Step v { v with queue := v.queue ++ data, sent := v.sent ++ data }
  | begins (v : View) : v.phase = .idle → v.conn.state = .connected →
      Step v { v with phase := .reading, began := some v.conn, answers := [],
                      conn := { v.conn with readBuffer := v.conn.readBuffer.clearBuffer } }
  | refuses (v : View) : v.phase = .idle → v.conn.state ≠ .connected →
      Step v { v with phase := .messaging, began := some v.conn, answers := [] }
  | reads (v : View) (answer : ReadResult) : v.phase = .reading →
      (∀ data, answer = .ok data → data <+: v.queue ∧ data.length ≤ BUFFER_SIZE) →
      Step v { v with phase := .after (v.conn.readBody answer).2,
                      conn := (v.conn.readBody answer).1,
                      queue := v.queue.drop (answer.toOption.getD []).length,
                      answers := v.answers ++ [answer] }
  | presents (v : View) : v.phase = .messaging →
      Step v { v with phase := .idle, presented := v.presented ++ v.conn.readBuffer.buf }
  | closes (v : View) : v.phase = .idle →
      Step v { v with conn := { v.conn with state := .closed } }

/-- What holds of a connection at each point of its events. -/
structure View.Sound (v : View) : Prop where
  nonBlocking : v.conn.sock.nonBlocking = true
  idle : v.phase = .idle → v.conn.state = .connected → 0 ∉ v.sent →
    v.presented ++ v.queue = v.sent
  reading : v.phase = .reading → ∃ c₀, v.began = some c₀ ∧
    (∀ more, c₀.read (v.answers ++ more) = v.conn.readNonBlocking more) ∧
    (0 ∉ v.sent → v.presented ++ v.conn.readBuffer.buf ++ v.queue = v.sent)
  messaging : v.phase = .messaging → ∃ c₀, v.began = some c₀ ∧
    c₀.read v.answers = some (v.conn, []) ∧
    (c₀.state = .connected → 0 ∉ v.sent →
      v.presented ++ v.conn.readBuffer.buf ++ v.queue = v.sent)

/-- An iteration of the read loop moves bytes from the kernel to the read buffer. -/
lemma readBody_conserves {c : Connection} {answer : ReadResult} {queue : List UInt8}
    (h0 : 0 ∉ queue) (hanswer : ∀ data, answer = .ok data → data <+: queue ∧
      data.length ≤ BUFFER_SIZE) :
    (c.readBody answer).1.readBuffer.buf ++ queue.drop (answer.toOption.getD []).length
      = c.readBuffer.buf ++ queue := by
  match answer with
  | .error .EINTR => rfl
  | .error .EAGAIN => rfl
  | .error (.other _) => rfl
  | .ok [] => rfl
  | .ok (b :: bs) =>
      obtain ⟨⟨rest, rfl⟩, hfits⟩ := hanswer _ rfl
      have hpull := Connection.readBody_pull c (.chunk ⟨b :: bs, List.cons_ne_nil _ _, hfits⟩)
      have hcut : cString (b :: bs) = b :: bs :=
        (cString_eq_self_iff _).mpr fun h => h0 (List.mem_append_left _ h)
      rw [show Pull.result (.chunk ⟨b :: bs, List.cons_ne_nil _ _, hfits⟩) = .ok (b :: bs) from rfl]
        at hpull
      rw [hpull]
      simp [Pull.bytes, hcut, Except.toOption]

variable {v v' : View}

/-- The bytes the event under way has read. -/
def View.inHand (v : View) : List UInt8 :=
  match v.phase with
  | .idle => []
  | _ => v.conn.readBuffer.buf

namespace View

lemma Sound.arrive (h : v.Sound) (data : List UInt8) :
    Sound { v with queue := v.queue ++ data, sent := v.sent ++ data } where
  nonBlocking := h.nonBlocking
  idle hphase hconn h0 := by
    rw [← List.append_assoc, h.idle hphase hconn fun hin => h0 (List.mem_append_left _ hin)]
  reading hphase := by
    obtain ⟨c₀, hbegan, hread, hsent⟩ := h.reading hphase
    refine ⟨c₀, hbegan, hread, fun h0 => ?_⟩
    rw [← List.append_assoc, hsent fun hin => h0 (List.mem_append_left _ hin)]
  messaging hphase := by
    obtain ⟨c₀, hbegan, hread, hsent⟩ := h.messaging hphase
    refine ⟨c₀, hbegan, hread, fun hconn h0 => ?_⟩
    rw [← List.append_assoc, hsent hconn fun hin => h0 (List.mem_append_left _ hin)]

lemma Sound.begins (h : v.Sound) (hphase : v.phase = .idle) (hconn : v.conn.state = .connected) :
    Sound { v with phase := .reading, began := some v.conn, answers := [],
                   conn := { v.conn with readBuffer := v.conn.readBuffer.clearBuffer } } where
  nonBlocking := h.nonBlocking
  idle hidle := by simp at hidle
  reading _ := by
    refine ⟨v.conn, rfl, fun more => ?_, fun h0 => ?_⟩
    · simp [Connection.read, hconn, Socket.isNonBlocking, h.nonBlocking]
    · rw [Buffer.clearBuffer_buf, List.append_nil]
      exact h.idle hphase hconn h0
  messaging hmsg := by simp at hmsg

lemma Sound.refuses (h : v.Sound) (hconn : v.conn.state ≠ .connected) :
    Sound { v with phase := .messaging, began := some v.conn, answers := [] } where
  nonBlocking := h.nonBlocking
  idle hidle := by simp at hidle
  reading hreading := by simp at hreading
  messaging _ := ⟨v.conn, rfl, by simp [Connection.read, hconn], fun h => absurd h hconn⟩

/-- An answer of the kernel keeps `Read` on its course, whether the loop goes on or not. -/
lemma Sound.reads (h : v.Sound) (answer : ReadResult) (hphase : v.phase = .reading)
    (hanswer : ∀ data, answer = .ok data → data <+: v.queue ∧ data.length ≤ BUFFER_SIZE) :
    Sound { v with phase := .after (v.conn.readBody answer).2,
                   conn := (v.conn.readBody answer).1,
                   queue := v.queue.drop (answer.toOption.getD []).length,
                   answers := v.answers ++ [answer] } := by
  obtain ⟨c₀, hbegan, hread, hsent⟩ := h.reading hphase
  have hconserved : 0 ∉ v.sent → v.presented ++ (v.conn.readBody answer).1.readBuffer.buf ++
      v.queue.drop (answer.toOption.getD []).length = v.sent := by
    intro h0
    have hqueue : 0 ∉ v.queue := by
      rw [← hsent h0] at h0
      exact fun hin => h0 (List.mem_append_right _ hin)
    rw [List.append_assoc, readBody_conserves hqueue hanswer, ← List.append_assoc, hsent h0]
  have hsock : (v.conn.readBody answer).1.sock.nonBlocking = true := by
    rw [readBody_sock]
    exact h.nonBlocking
  cases hbody : v.conn.readBody answer with
  | mk conn control =>
      rw [hbody] at hconserved hsock
      cases control with
      | again =>
          refine ⟨hsock, nofun, fun _ => ⟨c₀, hbegan, fun more => ?_, hconserved⟩, nofun⟩
          rw [List.append_assoc, hread, List.singleton_append]
          exact whileLoop_again rfl hbody more
      | stop =>
          refine ⟨hsock, nofun, nofun, fun _ => ⟨c₀, hbegan, ?_, fun _ => hconserved⟩⟩
          rw [hread]
          exact whileLoop_stop rfl hbody []

/-- A connection that comes out of `Read` connected was connected before. -/
lemma Sound.connected (h : v.Sound) (hphase : v.phase = .messaging)
    (hconn : v.conn.state = .connected) (h0 : 0 ∉ v.sent) :
    v.presented ++ v.conn.readBuffer.buf ++ v.queue = v.sent := by
  obtain ⟨c₀, -, hread, hsent⟩ := h.messaging hphase
  refine hsent ?_ h0
  by_contra hne
  simp only [Connection.read, hne, not_false_eq_true, ne_eq, if_true, Option.some.injEq,
    Prod.mk.injEq] at hread
  rw [hread.1] at hne
  exact hne hconn

lemma Sound.presents (h : v.Sound) (hphase : v.phase = .messaging) :
    Sound { v with phase := .idle, presented := v.presented ++ v.conn.readBuffer.buf } where
  nonBlocking := h.nonBlocking
  idle _ hconn h0 := h.connected hphase hconn h0
  reading := nofun
  messaging := nofun

lemma Sound.closes (h : v.Sound) (hphase : v.phase = .idle) :
    Sound { v with conn := { v.conn with state := .closed } } where
  nonBlocking := h.nonBlocking
  idle _ hconn := by simp at hconn
  reading hreading := by simp [hphase] at hreading
  messaging hmsg := by simp [hphase] at hmsg

/-- **What one step keeps.** -/
theorem Sound.step (h : v.Sound) (hstep : Step v v') : v'.Sound := by
  cases hstep with
  | arrive data => exact h.arrive data
  | begins hphase hconn => exact h.begins hphase hconn
  | refuses hphase hconn => exact h.refuses hconn
  | reads answer hphase hanswer => exact h.reads answer hphase hanswer
  | presents hphase => exact h.presents hphase
  | closes hphase => exact h.closes hphase

/-- **What a run keeps.** -/
theorem Sound.steps (h : v.Sound) (hsteps : Relation.ReflTransGen Step v v') : v'.Sound := by
  induction hsteps with
  | refl => exact h
  | tail _ hstep ih => exact ih.step hstep

/-- Nothing is lost, doubled or put in another order. -/
theorem Sound.in_order (h : v.Sound) (hconn : v.conn.state = .connected) (h0 : 0 ∉ v.sent) :
    v.presented ++ v.inHand ++ v.queue = v.sent := by
  cases hphase : v.phase with
  | idle =>
      rw [inHand, hphase, List.append_nil]
      exact h.idle hphase hconn h0
  | reading =>
      obtain ⟨c₀, -, -, hsent⟩ := h.reading hphase
      rw [inHand, hphase]
      exact hsent h0
  | messaging =>
      rw [inHand, hphase]
      exact h.connected hphase hconn h0

end View

/-! ## One connection of the system -/

/-- Where a loop is in the event of connection `c`. -/
def SubPc.phase (c : ℕ) : SubPc → Phase
  | .reading d _ => if d = c then .reading else .idle
  | .messaging d _ => if d = c then .messaging else .idle
  | _ => .idle

def view (s : State) (log : Log) (c : ℕ) (p : Peer) : View where
  phase := (s.sub p.loop).phase c
  conn := p.conn
  queue := p.queue
  sent := log.sent c
  presented := log.presented c
  began := log.began c
  answers := log.answers c

variable {n : ℕ} {s s' : State} {a : Action} {log log' : Log} {c d r : ℕ} {p q : Peer}

/-- The history of a connection is the same in two logs. -/
structure Log.Same (log log' : Log) (d : ℕ) : Prop where
  sent : log'.sent d = log.sent d
  presented : log'.presented d = log.presented d
  began : log'.began d = log.began d
  answers : log'.answers d = log.answers d

lemma Log.Same.refl (log : Log) (d : ℕ) : log.Same log d := ⟨rfl, rfl, rfl, rfl⟩

/-- What a step touches of a connection's event loop. -/
lemma phase_update {pc : SubPc} (hpc : pc.phase d = (s.sub r).phase d) (t : ℕ) :
    (update s.sub r pc t).phase d = (s.sub t).phase d := by
  by_cases ht : t = r
  · rw [ht, update_self, hpc]
  · rw [update_of_ne ht]

/-- A step that does not concern a connection. -/
lemma view_same (hphase : (s'.sub q.loop).phase d = (s.sub p.loop).phase d)
    (hconn : q.conn = p.conn) (hqueue : q.queue = p.queue) (hlog : log.Same log' d) :
    Relation.ReflTransGen View.Step (view s log d p) (view s' log' d q) := by
  have heq : view s' log' d q = view s log d p := by
    simp only [view, hphase, hconn, hqueue, hlog.sent, hlog.presented, hlog.began, hlog.answers]
  rw [heq]

/-- A step of one connection. -/
lemma view_single {v : View} (heq : view s' log' d q = v)
    (hstep : View.Step (view s log d p) v) :
    Relation.ReflTransGen View.Step (view s log d p) (view s' log' d q) :=
  heq ▸ .single hstep

/-- The views of a connection before and after. -/
abbrev Follows (s : State) (log : Log) (s' : State) (log' : Log) (d : ℕ) (p' : Peer) : Prop :=
  ∃ p, s.peer d = some p ∧ Relation.ReflTransGen View.Step (view s log d p) (view s' log' d p')

/-- One connection is changed, and no loop moves. -/
lemma modify_follows {f : Peer → Peer} (hp' : (s.modify c f).peer d = some q)
    (hother : d ≠ c → log.Same log' d)
    (hthis : ∀ p, d = c → q = f p →
      Relation.ReflTransGen View.Step (view s log d p) (view (s.modify c f) log' d q)) :
    Follows s log (s.modify c f) log' d q := by
  rcases modify_peer hp' with ⟨hd, hp⟩ | ⟨hd, p, hp, hq⟩
  · exact ⟨q, hp, view_same rfl rfl rfl (hother hd)⟩
  · exact ⟨p, by rw [hd, hp], hthis p hd hq⟩

/-- The loop of a channel it has in hand is that of the connection's own reactor. -/
lemma Confined.loop (h : Confined n s) (hc : c ∈ (s.sub r).channels) (hp : s.peer c = some p) :
    p.loop = r := by
  obtain ⟨p', hp', hloop⟩ := h.own r c hc
  rw [hp, Option.some.injEq] at hp'
  rw [hp', hloop]

/-- Either the event begins, or the callback is run at once, or the channel is passed over. -/
lemma handle_follows (h : Confined n s) {mask : UInt32} {rest : List (ℕ × UInt32)}
    (hg : guard n s (.handle r c mask rest))
    (hp' : (effect n s (.handle r c mask rest)).peer d = some q) :
    Follows s log (effect n s (.handle r c mask rest)) (record s (.handle r c mask rest) log)
      d q := by
  have hsub := hg.1
  have idle : ∀ e, (s.sub r).phase e = .idle := by
    intro e
    rw [hsub]
    rfl
  simp only [effect, State.handle, record] at hp' ⊢
  split
  · rename_i hmask
    rw [if_pos hmask] at hp'
    by_cases hd : d = c
    · subst hd
      split
      · rename_i hconn
        rw [if_pos hconn] at hp'
        rcases modify_peer hp' with ⟨hne, -⟩ | ⟨-, p, hp, rfl⟩
        · exact absurd rfl hne
        have hloop : p.loop = r := h.loop (by rw [hsub]; exact List.mem_cons_self) hp
        rw [hp, Option.any_some, decide_eq_true_eq] at hconn
        refine ⟨p, hp, view_single ?_ (.begins _ (by rw [view, hloop]; exact idle d) hconn)⟩
        simp [view, hloop, SubPc.phase, hp]
      · rename_i hconn
        rw [if_neg hconn] at hp'
        have hp : s.peer d = some q := hp'
        have hloop : q.loop = r := h.loop (by rw [hsub]; exact List.mem_cons_self) hp
        rw [hp, Option.any_some, decide_eq_true_eq] at hconn
        refine ⟨q, hp, view_single ?_ (.refuses _ (by rw [view, hloop]; exact idle d) hconn)⟩
        simp [view, hloop, SubPc.phase, hp]
    · have hlog : log.Same
          { log with began := update log.began c ((s.peer c).map Peer.conn),
                     answers := update log.answers c [] } d :=
        ⟨rfl, rfl, update_of_ne hd _ _, update_of_ne hd _ _⟩
      have hphase : ∀ pc : SubPc, pc = .reading c rest ∨ pc = .messaging c rest →
          pc.phase d = (s.sub r).phase d := by
        rintro pc (rfl | rfl)
        · exact (if_neg (Ne.symm hd)).trans (idle d).symm
        · exact (if_neg (Ne.symm hd)).trans (idle d).symm
      split
      · rename_i hconn
        rw [if_pos hconn] at hp'
        rcases modify_peer hp' with ⟨-, hold⟩ | ⟨heq, -⟩
        · exact ⟨q, hold, view_same (phase_update (hphase _ (.inl rfl)) _) rfl rfl hlog⟩
        · exact absurd heq hd
      · rename_i hconn
        rw [if_neg hconn] at hp'
        exact ⟨q, hp', view_same (phase_update (hphase _ (.inr rfl)) _) rfl rfl hlog⟩
  · rename_i hmask
    rw [if_neg hmask] at hp'
    exact ⟨q, hp', view_same (phase_update (by rw [idle]; rfl) _) rfl rfl (.refl log d)⟩

/-- The read loop gets an answer. -/
lemma read_follows (h : Confined n s) {rest : List (ℕ × UInt32)} {answer : ReadResult}
    (hg : guard n s (.read r c rest answer))
    (hp' : (effect n s (.read r c rest answer)).peer d = some q) :
    Follows s log (effect n s (.read r c rest answer)) (record s (.read r c rest answer) log)
      d q := by
  obtain ⟨hsub, hlive⟩ := hg
  cases hpeer : s.peer c with
  | none => simp [State.live, hpeer] at hlive
  | some p =>
      have hk := (live_peer hlive hpeer).2
      simp only [effect, hpeer, record] at hp' ⊢
      rcases modify_peer hp' with ⟨hd, hold⟩ | ⟨rfl, p', hp, rfl⟩
      · have hphase : (afterAnswer p answer c rest).phase d = (s.sub r).phase d := by
          rw [hsub]
          unfold afterAnswer
          split <;> simp [SubPc.phase, Ne.symm hd]
        exact ⟨q, hold, view_same (phase_update hphase _) rfl rfl
          ⟨rfl, rfl, rfl, update_of_ne hd _ _⟩⟩
      · rw [hpeer, Option.some.injEq] at hp
        subst hp
        have hloop : p.loop = r := h.loop (by rw [hsub]; exact List.mem_cons_self) hpeer
        have hanswer : ∀ data, answer = .ok data →
            data <+: p.queue ∧ data.length ≤ BUFFER_SIZE := by
          rintro data rfl
          cases data with
          | nil => exact ⟨List.nil_prefix, Nat.zero_le _⟩
          | cons b bs =>
              simp only [Peer.mayAnswer, Bool.and_eq_true, decide_eq_true_eq,
                List.isPrefixOf_iff_prefix] at hk
              exact hk
        have hphase : (s.sub p.loop).phase d = .reading := by
          rw [hloop, hsub]
          exact if_pos rfl
        refine ⟨p, hpeer, view_single ?_ (.reads _ answer hphase hanswer)⟩
        have hafter : (afterAnswer p answer d rest).phase d
            = .after (p.conn.readBody answer).2 := by
          unfold afterAnswer
          split
          · rename_i hctl
            rw [hctl]
            exact if_pos rfl
          · rename_i hctl
            rw [hctl]
            exact if_pos rfl
        simp [view, Peer.step, hloop, hafter]

/-- The callback is run, and may close the connection. -/
lemma message_follows (h : Confined n s) {rest : List (ℕ × UInt32)} {closes deletes : List ℕ}
    (hg : guard n s (.message r c rest closes deletes))
    (hlocal : Local s (.message r c rest closes deletes))
    (hp' : (effect n s (.message r c rest closes deletes)).peer d = some q) :
    Follows s log (effect n s (.message r c rest closes deletes))
      (record s (.message r c rest closes deletes) log) d q := by
  have hsub := hg.1
  simp only [effect, Option.map_eq_some_iff] at hp'
  obtain ⟨p, hp, rfl⟩ := hp'
  -- the view after the callback has returned, before what it closed is looked at
  have hpresented : ∃ v, Relation.ReflTransGen View.Step (view s log d p) v ∧
      v = { view (effect n s (.message r c rest closes deletes))
              (record s (.message r c rest closes deletes) log) d (p.touched closes deletes d) with
            conn := p.conn } := by
    by_cases hd : d = c
    · subst hd
      have hloop : p.loop = r := h.loop (by rw [hsub]; exact List.mem_cons_self) hp
      have hphase : (s.sub p.loop).phase d = .messaging := by
        rw [hloop, hsub]
        exact if_pos rfl
      refine ⟨_, .single (.presents _ hphase), ?_⟩
      simp [view, effect, record, Peer.touched, hloop, hp, SubPc.phase]
    · have hphase : (update s.sub r (.dispatching rest) p.loop).phase d
          = (s.sub p.loop).phase d :=
        phase_update (by rw [hsub]; exact (if_neg (Ne.symm hd)).symm) _
      refine ⟨_, .refl, ?_⟩
      simp [view, effect, record, Peer.touched, hphase, update_of_ne hd]
  obtain ⟨v, hsteps, rfl⟩ := hpresented
  refine ⟨p, hp, ?_⟩
  by_cases hclosed : d ∈ closes
  · have hloop : p.loop = r := hlocal d hclosed p hp
    refine hsteps.tail ?_
    have hphase : ((effect n s (.message r c rest closes deletes)).sub p.loop).phase d = .idle := by
      simp [effect, hloop, SubPc.phase]
    have hstep := View.Step.closes _
      (show ({ view (effect n s (.message r c rest closes deletes))
          (record s (.message r c rest closes deletes) log) d (p.touched closes deletes d) with
          conn := p.conn } : View).phase = .idle from hphase)
    simpa [view, Peer.touched, hclosed] using hstep
  · simpa [view, Peer.touched, hclosed] using hsteps

/-- **The steps of the system, seen from one connection.**  It is new, or what happens to it is one
of its own steps, two of them if the callback closes it, or nothing. -/
theorem view_step (log : Log) (h : Confined n s) (hg : guard n s a) (hlocal : Local s a)
    (hp' : (effect n s a).peer d = some q) :
    (∃ fd queue fin, a = .newConnection d fd queue fin ∧ q = .new n fd queue fin) ∨
      Follows s log (effect n s a) (record s a log) d q := by
  cases a with
  | newConnection c fd queue fin =>
      simp only [effect] at hp'
      by_cases hd : d = c
      · rw [← hd, update_self, Option.some.injEq] at hp'
        exact .inl ⟨fd, queue, fin, by rw [hd], hp'.symm⟩
      · rw [update_of_ne hd] at hp'
        exact .inr ⟨q, hp', view_same rfl rfl rfl
          ⟨update_of_ne hd _ _, update_of_ne hd _ _, rfl, rfl⟩⟩
  | send c data =>
      refine .inr (modify_follows hp' (fun hd => ⟨update_of_ne hd _ _, rfl, rfl, rfl⟩) ?_)
      rintro p rfl rfl
      refine view_single ?_ (.arrive _ data)
      simp [view, record, Peer.arrive, State.modify]
  | shutdown c =>
      refine .inr (modify_follows hp' (fun _ => .refl log d) ?_)
      rintro p - rfl
      exact view_same rfl rfl (List.append_nil _) (.refl log d)
  | poll r batch =>
      simp only [effect, Option.map_eq_some_iff] at hp'
      obtain ⟨p, hp, rfl⟩ := hp'
      have hkept := Peer.polled_kept batch d p
      have hsame : (p.polled batch d).conn = p.conn ∧ (p.polled batch d).queue = p.queue := by
        simp only [Peer.polled]
        split
        · exact ⟨rfl, rfl⟩
        · exact ⟨rfl, rfl⟩
      refine .inr ⟨p, hp, view_same ?_ hsame.1 hsame.2 (.refl log d)⟩
      rw [hkept.loop]
      exact phase_update (by rw [hg.1]; rfl) _
  | dropEdge r c =>
      refine .inr (modify_follows hp' (fun _ => .refl log d) ?_)
      rintro p - rfl
      exact view_same rfl rfl rfl (.refl log d)
  | handle r c mask rest => exact .inr (handle_follows h hg hp')
  | read r c rest answer => exact .inr (read_follows h hg hp')
  | message r c rest closes deletes => exact .inr (message_follows h hg hlocal hp')
  | endOfBatch r =>
      exact .inr ⟨q, hp', view_same (phase_update (by rw [show s.sub r = _ from hg]; rfl) _) rfl
        rfl (.refl log d)⟩

/-! ## Every run -/

/-- Each connection is where its events have brought it. -/
structure Traced (n : ℕ) (x : State × Log) : Prop where
  confined : Confined n x.1
  sound : ∀ c p, x.1.peer c = some p → (view x.1 x.2 c p).Sound

theorem traced_init : Traced n ({}, {}) where
  confined := confined_init
  sound := by simp

/-- A connection that has just been accepted has no event under way. -/
lemma sound_new (h : Confined n s) {fd : ℕ} {queue : List UInt8} {fin : Bool}
    (hg : guard n s (.newConnection d fd queue fin)) :
    (view (effect n s (.newConnection d fd queue fin))
      (record s (.newConnection d fd queue fin) log) d (.new n fd queue fin)).Sound := by
  have hphase : (s.sub (fd % n)).phase d = .idle := by
    have hnone : d ∉ (s.sub (fd % n)).channels := by
      intro hd
      obtain ⟨p, hp, -⟩ := h.own _ d hd
      rw [hg.1] at hp
      simp at hp
    cases hsub : s.sub (fd % n) with
    | polling => rfl
    | dispatching batch => rfl
    | reading c rest =>
        rw [hsub] at hnone
        refine if_neg fun heq => hnone ?_
        rw [heq]
        exact List.mem_cons_self
    | messaging c rest =>
        rw [hsub] at hnone
        refine if_neg fun heq => hnone ?_
        rw [heq]
        exact List.mem_cons_self
  have hidle : (view (effect n s (.newConnection d fd queue fin))
      (record s (.newConnection d fd queue fin) log) d (.new n fd queue fin)).phase = .idle :=
    hphase
  refine ⟨rfl, fun _ _ _ => ?_, fun hreading => ?_, fun hmsg => ?_⟩
  · simp [view, record, Peer.new]
  · rw [hidle] at hreading
    simp at hreading
  · rw [hidle] at hmsg
    simp at hmsg

theorem traced_step {x x' : State × Log} (h : Traced n x) (hlocal : Local x.1 a)
    (hst : (logged n).step x a = some x') : Traced n x' := by
  obtain ⟨s, log⟩ := x
  obtain ⟨s', log'⟩ := x'
  obtain ⟨hstep, rfl⟩ := Machine.recorded_step_eq_some.mp hst
  obtain ⟨hg, rfl⟩ := Machine.guarded_step_eq_some.mp hstep
  refine ⟨confined_step h.confined hg, fun c q hq => ?_⟩
  rcases view_step log h.confined hg hlocal hq with ⟨fd, queue, fin, rfl, rfl⟩ |
    ⟨p, hp, hsteps⟩
  · exact sound_new h.confined hg
  · exact (h.sound c p hp).steps hsteps

/-- A run in which the callbacks close connections of their own sub reactor only. -/
def LocalRun (n : ℕ) (as : List Action) (s : State) (log : Log) : Prop :=
  (logged n).Along (fun x => Local x.1) ({}, {}) as ∧ (logged n).run ({}, {}) as = some (s, log)

lemma LocalRun.traced {as : List Action} (h : LocalRun n as s log) : Traced n (s, log) :=
  Machine.run_guarded (fun _ _ _ => traced_step) as traced_init h.1 h.2

/-- A schedule that is taken, and what a test says of the state it ends in. -/
lemma exists_localRun (n : ℕ) (as : List Action) (P : State × Log → Bool)
    (hlocal : (logged n).Along (fun x => Local x.1) ({}, {}) as)
    (hP : ((logged n).run ({}, {}) as).any P = true) :
    ∃ s log, LocalRun n as s log ∧ P (s, log) = true := by
  obtain ⟨⟨s, log⟩, hrun, hp⟩ := (Option.any_eq_true _ _).mp hP
  exact ⟨s, log, ⟨hlocal, hrun⟩, hp⟩

/-- **Events are atomic.**  In every such run, whenever a loop is about to call the on_message
callback of a connection, the connection is what `Read` makes of the connection that the event
found, given the answers of `::read` since.  What has been going on in between, on other loops,
at the peers and in the kernel, makes no difference. -/
theorem events_atomic {as : List Action} (hrun : LocalRun n as s log)
    {rest : List (ℕ × UInt32)} (hsub : s.sub r = .messaging c rest) :
    ∃ p c₀, s.peer c = some p ∧ log.began c = some c₀ ∧
      c₀.read (log.answers c) = some (p.conn, []) := by
  have h := hrun.traced
  obtain ⟨p, hp, hloop⟩ := h.confined.own r c (by rw [hsub]; exact List.mem_cons_self)
  have hphase : (view s log c p).phase = .messaging := by
    simp [view, hloop, hsub, SubPc.phase]
  obtain ⟨c₀, hbegan, hread, -⟩ := (h.sound c p hp).messaging hphase
  exact ⟨p, c₀, hp, hbegan, hread⟩

/-- A byte arrives in the middle of the event before, and another connection has its own event
open all the while. -/
def interleaved : List Action :=
  [.newConnection 0 5 [104] false, .newConnection 1 6 [] false, .poll 1 [(0, EPOLLIN)],
    .handle 1 0 EPOLLIN [], .read 1 0 [] (.ok [104]), .send 1 [7], .poll 2 [(1, EPOLLIN)],
    .handle 2 1 EPOLLIN [], .send 0 [105], .read 2 1 [] (.error .EINTR), .read 1 0 [] (.ok [105]),
    .read 1 0 [] (.error .EAGAIN), .send 0 [106]]

theorem events_atomic_interleaved :
    ∃ s log, LocalRun 4 interleaved s log ∧ s.sub 1 = .messaging 0 [] ∧
      ∃ p c₀, s.peer 0 = some p ∧ log.began 0 = some c₀ ∧
        c₀.read (log.answers 0) = some (p.conn, []) := by
  obtain ⟨s, log, hrun, hsub⟩ := exists_localRun 4 interleaved
    (fun x => decide (x.1.sub 1 = .messaging 0 [])) (by decide +kernel) (by decide +kernel)
  have hsub : s.sub 1 = .messaging 0 [] := of_decide_eq_true hsub
  exact ⟨s, log, hrun, hsub, events_atomic hrun hsub⟩

/-- **What arrives is delivered once and in order.**  In every such run, as long as a connection
is connected and its peer has sent no NUL: what the on_message callback has been shown, what the
event under way has in the read buffer and what the kernel has still to hand out are together,
in this order, what the peer has sent. -/
theorem delivered_in_order {as : List Action} (hrun : LocalRun n as s log)
    (hp : s.peer c = some p) (hconn : p.conn.state = .connected) (h0 : 0 ∉ log.sent c) :
    log.presented c ++ (view s log c p).inHand ++ p.queue = log.sent c :=
  (hrun.traced.sound c p hp).in_order hconn h0

theorem delivered_in_order_interleaved :
    ∃ s log p, LocalRun 4 interleaved s log ∧ s.peer 0 = some p ∧
      log.presented 0 ++ (view s log 0 p).inHand ++ p.queue = [104, 105, 106] := by
  obtain ⟨s, log, hrun, hlast⟩ := exists_localRun 4 interleaved
    (fun x => (x.1.peer 0).any fun p : Peer =>
      decide (p.conn.state = .connected ∧ x.2.sent 0 = [104, 105, 106]))
    (by decide +kernel) (by decide +kernel)
  obtain ⟨p, hp, hlast⟩ := (Option.any_eq_true _ _).mp hlast
  obtain ⟨hconn, hsent⟩ := of_decide_eq_true hlast
  refine ⟨s, log, p, hrun, hp, ?_⟩
  rw [delivered_in_order hrun hp hconn (by rw [hsent]; decide), hsent]

end CppServer.EdgeTriggered
