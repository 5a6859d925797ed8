import CppServer.Server.Answering
import CppServer.Server.Drained

/-!
# The page server answers events

`http_echo_server.cpp` does not look at what it is sent: each call of its on_message callback on a
connected connection sends the page.  So it answers readiness events, not requests.  A request may
arrive in several segments, and how many events those make is up to the scheduler: a segment that
arrives before the loop has taken up the edge of the one before shares its event.

A page may be cut off where the kernel has no room, and a `::write` that fails closes the
connection.  `serving` is the server with the answers of `::write`, and `paged` the part of it
where the kernel always has room (`exists_serving`).

* `Step.pays` — each page is paid for by a segment, through the edge that the segment brings.
* `turn_step` — a run is seen through one connection at a time, as in `EventAtomicity.lean`.
* `pages_bounded` — no connection is sent more pages than segments have arrived on it.
-/

namespace CppServer

namespace Connection

/-- The string `response` of `http_echo_server.cpp`, with the file it has read. -/
def response (html : List UInt8) : List UInt8 :=
  ofLiteral "HTTP/1.1 200 OK\r\nConnection: keep-alive\r\nContent-Type: text\r\n\r\n" ++ html

/-- The on_message callback of `http_echo_server.cpp`. -/
def pageMessage (html : List UInt8) : MessageCallback := fun c writes =>
  if c.state = .connected then (c.setWriteBuffer (response html ++ [0])).write writes
  else .ok ⟨c, [], writes⟩

/-- What `c_str()` lets through of the response. -/
def page (html : List UInt8) : List UInt8 := cString (response html)

variable {html : List UInt8} {c : Connection}

lemma pageMessage_eq_answering : pageMessage html = answering fun _ => response html ++ [0] := rfl

/-- The page is sent whole, if the kernel has room for it, and nothing else of the connection is
changed but the write buffer. -/
theorem pageMessage_eq (hc : c.state = .connected) (hn : c.sock.nonBlocking = true)
    (hfit : (page html).length < 2 ^ 31) :
    ∃ rest, pageMessage html c [.ok (page html).length]
      = .ok ⟨{ c with writeBuffer := {} }, page html, rest⟩ := by
  have hbuf : (c.setWriteBuffer (response html ++ [0])).writeBuffer.buf = page html :=
    cString_append_zero _
  have hsize : (c.setWriteBuffer (response html ++ [0])).writeBuffer.size = (page html).length :=
    congrArg List.length hbuf
  obtain ⟨rest, hwrite⟩ := write_in_full (c := c.setWriteBuffer (response html ++ [0])) hc hn
    (by rw [hsize]; exact hfit)
  refine ⟨rest, ?_⟩
  rw [hsize, hbuf] at hwrite
  rw [pageMessage, if_pos hc, hwrite]
  rfl

/-- The page is not empty: it begins with the status line. -/
lemma page_ne_nil : page html ≠ [] := by
  have hhead : ∃ rest, response html = 72 :: rest := ⟨_, rfl⟩
  obtain ⟨rest, hrest⟩ := hhead
  rw [page, hrest, cString_cons (by decide)]
  exact List.cons_ne_nil _ _

end Connection

namespace PageServer

open Answering (Move Own act may_iff move_eq act_reply act_net act_own reactors)
open EdgeTriggered
open Connection (pageMessage page response replyOf WriteOutcome)
open Function (update update_self update_of_ne)

/-! ## What is written down -/

/-- The bytes the callback sends, if the kernel has room for them. -/
def pageFor (html : List UInt8) (c : Connection) : List UInt8 :=
  match pageMessage html c [.ok (page html).length] with
  | .ok o => o.accepted
  | .error _ => []

/-- The history of a run, for each connection. -/
structure Log where
  /-- the data that has arrived, as it arrived -/
  segments : ℕ → List (List UInt8) := fun _ => []
  /-- the calls of the callback that found it connected -/
  answered : ℕ → ℕ := fun _ => 0
  /-- the bytes that were sent back -/
  received : ℕ → List UInt8 := fun _ => []

/-- The callback has been called on a connection. -/
def Log.answer (html : List UInt8) (log : Log) (c : ℕ) (conn : Connection) : Log :=
  if conn.state = .connected then
    { log with answered := update log.answered c (log.answered c + 1),
               received := update log.received c (log.received c ++ pageFor html conn) }
  else log

def record (html : List UInt8) (s : State) : Action → Log → Log
  -- what has arrived before the registration makes one edge
  | .newConnection c _ queue _, log =>
      if queue = [] then log
      else { log with segments := update log.segments c (log.segments c ++ [queue]) }
  | .send c data, log =>
      { log with segments := update log.segments c (log.segments c ++ [data]) }
  | .message _ c _ _ _, log => (s.peer c).elim log fun p => log.answer html c p.conn
  | _, log => log

/-- The reactors, with the history of each connection, where a page is always sent whole. -/
abbrev paged (n : ℕ) (html : List UInt8) : Machine (State × Log) Action :=
  (machine n).recorded {} (record html)

/-- What one call of the callback sends. -/
def sentBy (html : List UInt8) (s : State) (c : ℕ) (writes : List WriteResult) : List UInt8 :=
  ((s.peer c).bind fun p => replyOf (fun _ => response html ++ [0]) p.conn writes).elim []
    WriteOutcome.accepted

/-- The same history, but with the bytes that `::write` has accepted. -/
def note (html : List UInt8) (s : State) : Move → Log → Log
  | .net a, log => record html s a log
  | .reply r c rest writes, log =>
      { record html s (.message r c rest [] []) log with
        received := update log.received c (log.received c ++ sentBy html s c writes) }

/-- **The page server**, with the history of each connection. -/
abbrev serving (n : ℕ) (html : List UInt8) : Machine (State × Log) Move :=
  (reactors (fun _ => response html ++ [0]) n).recorded {} (note html)

/-- The callback closes and deletes nothing. -/
def Keeps : Action → Prop
  | .message _ _ _ closes deletes => closes = [] ∧ deletes = []
  | _ => True

instance : DecidablePred Keeps
  | .message _ _ _ closes deletes => inferInstanceAs (Decidable (closes = [] ∧ deletes = []))
  | .newConnection _ _ _ _ => isTrue trivial
  | .send _ _ => isTrue trivial
  | .shutdown _ => isTrue trivial
  | .poll _ _ => isTrue trivial
  | .dropEdge _ _ => isTrue trivial
  | .handle _ _ _ _ => isTrue trivial
  | .read _ _ _ _ => isTrue trivial
  | .endOfBatch _ => isTrue trivial

lemma Keeps.own {a : Action} (h : Keeps a) : Own a := by
  cases a with
  | message r c rest closes deletes =>
      obtain ⟨rfl, rfl⟩ := h
      exact ⟨List.nil_subset _, rfl⟩
  | _ => trivial

/-- The peer of connection `c` stays, and no `::read` on it fails. -/
def Spares (c : ℕ) : Action → Prop
  | .newConnection d _ _ fin => d = c → fin = false
  | .shutdown d => d ≠ c
  | .read _ d _ answer => d = c → notBroken answer = true
  | _ => True

/-! ## One connection -/

/-- What a loop is about to do with a connection. -/
inductive Stage where
  | idle
  | queued
  | reading
  | messaging
  deriving DecidableEq, Repr

/-- A connection of the batch waits for its turn. -/
def Stage.ofBatch (c : ℕ) (batch : List (ℕ × UInt32)) : Stage :=
  if c ∈ batch.map Prod.fst then .queued else .idle

def stage (c : ℕ) : SubPc → Stage
  | .polling => .idle
  | .dispatching batch => .ofBatch c batch
  | .reading d rest => if d = c then .reading else .ofBatch c rest
  | .messaging d rest => if d = c then .messaging else .ofBatch c rest

/-- What the number of pages for a connection depends on. -/
structure Turn where
  stage : Stage
  state : ConnState
  queue : List UInt8
  fin : Bool
  edge : Bool
  deleted : Bool
  segments : ℕ
  answered : ℕ

/-- What happens to one connection; it is `spared` if it is not shut down or broken. -/
inductive Turn.Step (spared : Prop) : Turn → Turn → Prop
  | arrives (t : Turn) (data : List UInt8) : data ≠ [] → t.fin = false →
      Step spared t { t with queue := t.queue ++ data, edge := true, segments := t.segments + 1 }
  | ends (t : Turn) : ¬ spared → Step spared t { t with fin := true, edge := true }
  | polled (t : Turn) : t.stage = .idle → t.edge = true →
      Step spared t { t with stage := .queued, edge := false }
  | drops (t : Turn) : Step spared t { t with edge := false }
  | skips (t : Turn) : t.stage = .queued → Step spared t { t with stage := .idle }
  | begins (t : Turn) : t.stage = .queued → t.state = .connected →
      Step spared t { t with stage := .reading }
  | refuses (t : Turn) : t.stage = .queued → t.state ≠ .connected →
      Step spared t { t with stage := .messaging }
  | reads (t : Turn) (queue : List UInt8) : t.stage = .reading → Step spared t { t with queue }
  | finishes (t : Turn) : t.stage = .reading → t.queue = [] → t.fin = false →
      Step spared t { t with stage := .messaging }
  | breaks (t : Turn) : t.stage = .reading → (spared → t.queue = [] ∧ t.fin = true) →
      Step spared t { t with stage := .messaging, state := .closed }
  | answers (t : Turn) : t.stage = .messaging → t.state = .connected →
      Step spared t { t with stage := .idle, answered := t.answered + 1 }
  | closes (t : Turn) : ¬ spared → Step spared t { t with state := .closed }
  | passes (t : Turn) : t.stage = .messaging → t.state ≠ .connected →
      Step spared t { t with stage := .idle }

namespace Turn

variable {spared : Prop} {t t' : Turn} {k : ℕ}

/-- The page that a queued edge will bring, unless end of file comes first. -/
def ahead (t : Turn) : ℕ := if t.edge = true ∧ t.fin = false then 1 else 0

/-- The page that the event under way will bring, unless it finds end of file. -/
def inHand (t : Turn) : ℕ :=
  match t.stage with
  | .idle => 0
  | .messaging => if t.state = .connected then 1 else 0
  | _ => if t.fin = false then 1 else 0

/-- The pages a connection will get at most, if nothing more arrives. -/
def due (t : Turn) : ℕ := t.ahead + t.inHand

/-- **Each page is paid for** by a segment. -/
lemma Step.pays (h : Step spared t t') :
    t'.answered + t'.due + t.segments ≤ t.answered + t.due + t'.segments := by
  cases h with
  | arrives data hne hfin => simp only [due, ahead, inHand, hfin]; grind
  | ends => simp only [due, ahead, inHand]; grind
  | polled hs he => simp only [due, ahead, inHand, hs, he]; grind
  | drops => simp only [due, ahead, inHand]; grind
  | skips hs => simp only [due, ahead, inHand, hs]; omega
  | begins hs hc => simp only [due, ahead, inHand, hs]; omega
  | refuses hs hc => simp only [due, ahead, inHand, hs, if_neg hc]; omega
  | reads queue hs => simp only [due, ahead, inHand, hs]; omega
  | finishes hs hq hf => simp only [due, ahead, inHand, hs, hf]; grind
  | breaks hs hb => simp only [due, ahead, inHand, hs]; grind
  | answers hs hc => simp only [due, ahead, inHand, hs, if_pos hc]; omega
  | closes => simp only [due, ahead, inHand]; grind
  | passes hs hc => simp only [due, ahead, inHand, hs]; omega

/-- A connection that is closed, or left as it is. -/
lemma closing (t : Turn) {P : Prop} [Decidable P] (hP : P → ¬ spared) :
    Relation.ReflTransGen (Step spared) t { t with state := if P then .closed else t.state } := by
  by_cases h : P
  · simpa [h] using Relation.ReflTransGen.single (Step.closes t (hP h))
  · simpa [h] using Relation.ReflTransGen.refl

/-- There is something for which page number `k + 1` will be sent, unless the connection goes. -/
def Owes (k : ℕ) (t : Turn) : Prop :=
  k ≤ t.answered ∧ (t.state = .connected → k < t.answered ∨ t.queue ≠ [] ∨ t.fin = true ∨
    t.stage = .reading ∨ t.stage = .messaging)

lemma Step.owes (h : Step spared t t') (howes : t.Owes k) : t'.Owes k := by
  obtain ⟨hle, hattended⟩ := howes
  cases h with
  | arrives data hne hfin =>
      exact ⟨hle, fun _ => .inr (.inl (List.append_ne_nil_of_right_ne_nil _ hne))⟩
  | ends => exact ⟨hle, fun _ => .inr (.inr (.inl rfl))⟩
  | polled hs he => exact ⟨hle, by simpa [hs] using hattended⟩
  | drops => exact ⟨hle, hattended⟩
  | skips hs => exact ⟨hle, by simpa [hs] using hattended⟩
  | begins hs hc => exact ⟨hle, fun _ => .inr (.inr (.inr (.inl rfl)))⟩
  | refuses hs hc => exact ⟨hle, fun _ => .inr (.inr (.inr (.inr rfl)))⟩
  | reads queue hs => exact ⟨hle, fun _ => .inr (.inr (.inr (.inl hs)))⟩
  | finishes hs hq hf => exact ⟨hle, fun _ => .inr (.inr (.inr (.inr rfl)))⟩
  | breaks hs hb => exact ⟨hle, by simp⟩
  | answers hs hc => exact ⟨Nat.le_succ_of_le hle, fun _ => .inl (Nat.lt_succ_of_le hle)⟩
  | closes => exact ⟨hle, by simp⟩
  | passes hs hc => exact ⟨hle, fun hconn => absurd hconn hc⟩

/-- What holds of a connection in every run. -/
structure Sound (t : Turn) : Prop where
  kept : t.deleted = false
  paid : t.answered + t.due ≤ t.segments
  owed : t.segments = 0 ∨ t.Owes 0

/-- **What one step keeps.** -/
theorem Sound.step (h : t.Sound) (hstep : Step spared t t') : t'.Sound where
  kept := by cases hstep <;> exact h.kept
  paid := by
    have hpays := hstep.pays
    have hpaid := h.paid
    omega
  owed := by
    rcases h.owed with hnone | howes
    · cases hstep with
      | arrives data hne hfin =>
          exact .inr ⟨Nat.zero_le _, fun _ =>
            .inr (.inl (List.append_ne_nil_of_right_ne_nil _ hne))⟩
      | _ => exact .inl hnone
    · exact .inr (hstep.owes howes)

theorem Sound.steps (h : t.Sound) (hsteps : Relation.ReflTransGen (Step spared) t t') :
    t'.Sound := by
  induction hsteps with
  | refl => exact h
  | tail _ hstep ih => exact ih.step hstep

/-- Nobody has given the connection up. -/
def Open (t : Turn) : Prop := t.state = .connected ∧ t.fin = false

/-- Where nothing is left and nothing in hand, what was owed has been sent. -/
lemma Open.answered (hopen : t.Open) (howes : t.Owes k) (hstage : t.stage = .idle)
    (hqueue : t.queue = []) : k < t.answered := by
  have hmust := howes.2 hopen.1
  simp only [hqueue, hopen.2, hstage, ne_eq, not_true_eq_false, Bool.false_eq_true, reduceCtorEq,
    or_self, or_false] at hmust
  exact hmust

lemma Step.keepsOpen (h : Step spared t t') (hspared : spared) (hopen : t.Open) : t'.Open := by
  cases h with
  | ends hnot => exact absurd hspared hnot
  | breaks hs hb => simp [hopen.2] at hb; exact absurd hspared hb
  | closes hnot => exact absurd hspared hnot
  | _ => exact hopen

/-- **What a run makes of a connection that nobody gives up**: no page without a segment, and a
page for what is there. -/
theorem Open.steps (hopen : t.Open) (hsteps : Relation.ReflTransGen (Step True) t t') :
    t'.Open ∧ t'.answered + t'.due + t.segments ≤ t.answered + t.due + t'.segments ∧
      ∀ k, t.Owes k → t'.Owes k := by
  induction hsteps with
  | refl => exact ⟨hopen, le_rfl, fun _ => id⟩
  | tail _ hstep ih =>
      obtain ⟨hbefore, hpaid, howes⟩ := ih
      have hpays := hstep.pays
      exact ⟨hstep.keepsOpen trivial hbefore, by omega, fun k hk => hstep.owes (howes k hk)⟩

end Turn

/-! ## One connection of the system -/

def turn (s : State) (log : Log) (c : ℕ) (p : Peer) : Turn where
  stage := stage c (s.sub p.loop)
  state := p.conn.state
  queue := p.queue
  fin := p.fin
  edge := p.edge
  deleted := p.deleted
  segments := (log.segments c).length
  answered := log.answered c

variable {n : ℕ} {html : List UInt8} {s s' : State} {a : Action} {log log' : Log} {c d r : ℕ}
  {p q : Peer} {spared : Prop}

/-- The history of a connection is the same in two logs, but for the bytes. -/
structure Log.Same (log log' : Log) (d : ℕ) : Prop where
  segments : log'.segments d = log.segments d
  answered : log'.answered d = log.answered d

lemma Log.Same.refl (log : Log) (d : ℕ) : log.Same log d := ⟨rfl, rfl⟩

/-- The turns of a connection before and after. -/
abbrev Turns (spared : Prop) (s : State) (log : Log) (s' : State) (log' : Log) (d : ℕ)
    (p' : Peer) : Prop :=
  ∃ p, s.peer d = some p ∧
    Relation.ReflTransGen (Turn.Step spared) (turn s log d p) (turn s' log' d p')

/-- A step that does not concern a connection. -/
lemma turns_same (hp : s.peer d = some p)
    (hstage : stage d (s'.sub p.loop) = stage d (s.sub p.loop)) (hlog : log.Same log' d) :
    Turns spared s log s' log' d p := by
  refine ⟨p, hp, ?_⟩
  have heq : turn s' log' d p = turn s log d p := by
    simp only [turn, hstage, hlog.segments, hlog.answered]
  rw [heq]

/-- A step of one connection. -/
lemma turns_single {t : Turn} (hp : s.peer d = some p) (heq : turn s' log' d q = t)
    (hstep : Turn.Step spared (turn s log d p) t) : Turns spared s log s' log' d q :=
  ⟨p, hp, heq ▸ .single hstep⟩

/-- A loop that goes from one point to another with the same in hand for a connection. -/
lemma stage_update {pc : SubPc} (hpc : stage d pc = stage d (s.sub r)) (t : ℕ) :
    stage d (update s.sub r pc t) = stage d (s.sub t) := by
  by_cases ht : t = r
  · rw [ht, update_self, hpc]
  · rw [update_of_ne ht]

lemma ofBatch_cons_ne (hd : d ≠ c) (mask : UInt32) (rest : List (ℕ × UInt32)) :
    Stage.ofBatch d ((c, mask) :: rest) = Stage.ofBatch d rest := by
  simp [Stage.ofBatch, hd]

/-- One connection is changed, and no loop moves. -/
lemma modify_turns {f : Peer → Peer} (hp' : (s.modify c f).peer d = some q)
    (hother : d ≠ c → log.Same log' d)
    (hthis : ∀ p, s.peer d = some p → d = c → q = f p →
      Turns spared s log (s.modify c f) log' d q) :
    Turns spared s log (s.modify c f) log' d q := by
  rcases modify_peer hp' with ⟨hd, hp⟩ | ⟨rfl, p, hp, hq⟩
  · exact turns_same hp rfl (hother hd)
  · exact hthis p hp rfl hq

/-- A connection that is handled is in nobody's hands but its own loop's, and once. -/
lemma stage_handled (h : Confined n s) {mask : UInt32} {rest : List (ℕ × UInt32)}
    (hsub : s.sub r = .dispatching ((c, mask) :: rest)) (hp : s.peer c = some p) :
    p.loop = r ∧ stage c (s.sub r) = .queued ∧ Stage.ofBatch c rest = .idle := by
  have honce := h.once r
  rw [hsub] at honce
  refine ⟨h.loop (by rw [hsub]; exact List.mem_cons_self) hp, ?_, ?_⟩
  · simp [hsub, stage, Stage.ofBatch]
  · exact if_neg (List.nodup_cons.mp honce).1

/-- A batch is taken: its edges are queued no longer. -/
lemma poll_turns {batch : List (ℕ × UInt32)} (hg : guard n s (.poll r batch))
    (hp' : (effect n s (.poll r batch)).peer d = some q) :
    Turns spared s log (effect n s (.poll r batch)) log d q := by
  simp only [effect, Option.map_eq_some_iff] at hp'
  obtain ⟨p, hp, rfl⟩ := hp'
  by_cases hd : d ∈ batch.map Prod.fst
  · obtain ⟨event, hmem, hevent⟩ := List.mem_map.mp hd
    have hreport := List.all_eq_true.mp hg.2.2.2 event hmem
    rw [hevent, hp, Option.any_some] at hreport
    simp only [Peer.mayReport, Bool.and_eq_true, beq_iff_eq] at hreport
    obtain ⟨⟨⟨⟨hedge, -⟩, hloop⟩, -⟩, -⟩ := hreport
    have hidle : stage d (s.sub p.loop) = .idle := by rw [hloop, hg.1]; rfl
    refine turns_single hp ?_ (.polled _ hidle hedge)
    simp [turn, effect, Peer.polled, hd, hloop, stage, Stage.ofBatch]
  · rw [Peer.polled, if_neg hd]
    refine turns_same hp (stage_update ?_ _) (.refl log d)
    rw [hg.1]
    exact if_neg hd

/-- The channel is read, or refused, or passed over. -/
lemma handle_turns (h : Confined n s) {mask : UInt32} {rest : List (ℕ × UInt32)}
    (hg : guard n s (.handle r c mask rest))
    (hp' : (effect n s (.handle r c mask rest)).peer d = some q) :
    Turns spared s log (effect n s (.handle r c mask rest)) log d q := by
  have hsub := hg.1
  -- whatever the loop does next, it keeps the rest of the batch
  have other : d ≠ c → ∀ pc, pc = .dispatching rest ∨ pc = .reading c rest ∨
      pc = .messaging c rest → stage d pc = stage d (s.sub r) := by
    intro hd pc hpc
    rw [hsub, stage, ofBatch_cons_ne hd]
    rcases hpc with rfl | rfl | rfl
    · rfl
    · exact if_neg (Ne.symm hd)
    · exact if_neg (Ne.symm hd)
  simp only [effect, State.handle] at hp' ⊢
  split
  · rename_i hmask
    rw [if_pos hmask] at hp'
    split
    · rename_i hconn
      rw [if_pos hconn] at hp'
      rcases modify_peer hp' with ⟨hd, hp⟩ | ⟨rfl, p, hp, rfl⟩
      · exact turns_same hp (stage_update (other hd _ (.inr (.inl rfl))) _) (.refl log d)
      · obtain ⟨hloop, hqueued, -⟩ := stage_handled h hsub hp
        rw [hp, Option.any_some, decide_eq_true_eq] at hconn
        refine turns_single hp ?_ (.begins _ (by rw [turn, hloop]; exact hqueued) hconn)
        simp [turn, hloop, stage]
    · rename_i hconn
      rw [if_neg hconn] at hp'
      have hp : s.peer d = some q := hp'
      by_cases hd : d = c
      · subst hd
        obtain ⟨hloop, hqueued, -⟩ := stage_handled h hsub hp
        rw [hp, Option.any_some, decide_eq_true_eq] at hconn
        refine turns_single hp ?_ (.refuses _ (by rw [turn, hloop]; exact hqueued) hconn)
        simp [turn, hloop, stage]
      · exact turns_same hp (stage_update (other hd _ (.inr (.inr rfl))) _) (.refl log d)
  · rename_i hmask
    rw [if_neg hmask] at hp'
    have hp : s.peer d = some q := hp'
    by_cases hd : d = c
    · subst hd
      obtain ⟨hloop, hqueued, hidle⟩ := stage_handled h hsub hp
      refine turns_single hp ?_ (.skips _ (by rw [turn, hloop]; exact hqueued))
      simp [turn, hloop, stage, hidle]
    · exact turns_same hp (stage_update (other hd _ (.inl rfl)) _) (.refl log d)

/-- The read loop gets an answer. -/
lemma read_turns (h : Confined n s) {rest : List (ℕ × UInt32)} {answer : ReadResult}
    (hg : guard n s (.read r c rest answer)) (hspares : spared → Spares d (.read r c rest answer))
    (hp' : (effect n s (.read r c rest answer)).peer d = some q) :
    Turns spared s log (effect n s (.read r c rest answer)) log d q := by
  obtain ⟨hsub, hlive⟩ := hg
  obtain ⟨p, hp, -, hk⟩ := exists_peer_of_live hlive
  simp only [effect, hp] at hp' ⊢
  rcases modify_peer hp' with ⟨hd, hold⟩ | ⟨rfl, p', hsame, rfl⟩
  · refine turns_same hold (stage_update ?_ _) (.refl log d)
    rw [hsub]
    unfold afterAnswer
    split <;> simp [stage, Ne.symm hd]
  · rw [hp, Option.some.injEq] at hsame
    subst hsame
    have hloop : p.loop = r := h.loop (by rw [hsub]; exact List.mem_cons_self) hp
    have hreading : (turn s log d p).stage = .reading := by
      rw [turn, hloop, hsub]
      exact if_pos rfl
    cases answer with
    | ok data =>
        cases data with
        | nil =>
            simp only [Peer.mayAnswer, Bool.and_eq_true, List.isEmpty_iff] at hk
            refine turns_single hp ?_ (.breaks _ hreading fun _ => hk)
            simp [turn, Peer.step, hloop, afterAnswer, Connection.readBody, stage,
              Except.toOption]
        | cons b bs =>
            refine turns_single hp ?_ (.reads _ (p.queue.drop (b :: bs).length) hreading)
            simp [turn, Peer.step, hloop, afterAnswer, Connection.readBody, stage, hsub,
              Except.toOption]
    | error e =>
        cases e with
        | EINTR =>
            refine turns_single hp ?_ (.reads _ p.queue hreading)
            simp [turn, Peer.step, hloop, afterAnswer, Connection.readBody, stage, hsub,
              Except.toOption]
        | EAGAIN =>
            simp only [Peer.mayAnswer, Bool.and_eq_true, Bool.not_eq_true', List.isEmpty_iff] at hk
            refine turns_single hp ?_ (.finishes _ hreading hk.1 hk.2)
            simp [turn, Peer.step, hloop, afterAnswer, Connection.readBody, stage,
              Except.toOption]
        | other code =>
            refine turns_single hp ?_ (.breaks _ hreading fun hs => ?_)
            · simp [turn, Peer.step, hloop, afterAnswer, Connection.readBody, stage,
                Except.toOption]
            · exact absurd (hspares hs rfl) (by simp [notBroken])

/-- The callback answers, if it finds the connection connected, and may close it. -/
lemma message_turns (h : Confined n s) {rest : List (ℕ × UInt32)} {closes : List ℕ}
    (hg : guard n s (.message r c rest closes [])) (hown : closes ⊆ [c])
    (hspares : spared → closes = [])
    (hp' : (effect n s (.message r c rest closes [])).peer d = some q) :
    Turns spared s log (effect n s (.message r c rest closes []))
      (record html s (.message r c rest closes []) log) d q := by
  have hsub := hg.1
  obtain ⟨p, hp, -⟩ := exists_peer_of_live hg.2
  simp only [effect, Option.map_eq_some_iff] at hp'
  obtain ⟨q, hq, rfl⟩ := hp'
  simp only [record, hp, Option.elim_some, Log.answer]
  by_cases hd : d = c
  · subst hd
    rw [hp, Option.some.injEq] at hq
    subst hq
    have hloop : p.loop = r := h.loop (by rw [hsub]; exact List.mem_cons_self) hp
    have hmessaging : (turn s log d p).stage = .messaging := by
      rw [turn, hloop, hsub]
      exact if_pos rfl
    have honce := h.once r
    rw [hsub] at honce
    have hidle : Stage.ofBatch d rest = .idle := if_neg (List.nodup_cons.mp honce).1
    have hturn : ∀ log', turn (effect n s (.message r d rest closes [])) log' d
        (p.touched closes [] d) =
          { turn s log' d p with
            stage := .idle, state := if d ∈ closes then .closed else p.conn.state } := by
      intro log'
      simp only [turn, effect, Peer.touched, hloop, update_self, stage, hidle]
      split <;> simp
    have hclosing : d ∈ closes → ¬ spared := fun hin hs => by simp [hspares hs] at hin
    -- the answer is one step, and the closing another
    refine ⟨p, hp, ?_⟩
    rw [hturn]
    split
    · rename_i hconn
      refine .head (.answers _ hmessaging hconn) ?_
      simpa [turn] using Turn.closing
        { turn s log d p with stage := .idle, answered := log.answered d + 1 } hclosing
    · rename_i hconn
      exact .head (.passes _ hmessaging hconn) (Turn.closing { turn s log d p with stage := .idle } hclosing)
  · have htouched : q.touched closes [] d = q := by
      have hcloses : d ∉ closes := fun hin => hd (List.mem_singleton.mp (hown hin))
      simp [Peer.touched, hcloses]
    rw [htouched]
    refine turns_same hq (stage_update ?_ _) ?_
    · rw [hsub]
      exact (if_neg (Ne.symm hd)).symm
    · split
      · exact ⟨rfl, update_of_ne hd _ _⟩
      · exact .refl log d

/-- **The steps of the system, seen from one connection.**  It is new, or what happens to it is one
of its own steps, or nothing. -/
theorem turn_step (spared : Prop) (html : List UInt8) (log : Log) (h : Confined n s)
    (hg : guard n s a) (hown : Own a) (hspares : spared → Keeps a ∧ Spares d a)
    (hp' : (effect n s a).peer d = some q) :
    (∃ fd queue fin, a = .newConnection d fd queue fin ∧ q = .new n fd queue fin) ∨
      Turns spared s log (effect n s a) (record html s a log) d q := by
  cases a with
  | newConnection c fd queue fin =>
      simp only [effect] at hp'
      by_cases hd : d = c
      · rw [← hd, update_self, Option.some.injEq] at hp'
        exact .inl ⟨fd, queue, fin, by rw [hd], hp'.symm⟩
      · rw [update_of_ne hd] at hp'
        refine .inr (turns_same hp' rfl ?_)
        simp only [record]
        split
        · exact .refl log d
        · exact ⟨update_of_ne hd _ _, rfl⟩
  | send c data =>
      refine .inr (modify_turns hp' (fun hd => ⟨update_of_ne hd _ _, rfl⟩) ?_)
      rintro p hp rfl rfl
      have hfin := (live_peer hg.2 hp).2
      rw [Bool.not_eq_true'] at hfin
      refine turns_single hp ?_ (.arrives _ data hg.1 hfin)
      simp [turn, record, Peer.arrive, State.modify]
  | shutdown c =>
      refine .inr (modify_turns hp' (fun _ => .refl log d) ?_)
      rintro p hp rfl rfl
      refine turns_single hp ?_ (.ends _ fun hs => (hspares hs).2 rfl)
      simp [turn, record, Peer.arrive, State.modify]
  | poll r batch => exact .inr (poll_turns hg hp')
  | dropEdge r c =>
      refine .inr (modify_turns hp' (fun _ => .refl log d) ?_)
      rintro p hp rfl rfl
      refine turns_single hp ?_ (.drops _)
      simp [turn, record, State.modify]
  | handle r c mask rest => exact .inr (handle_turns h hg hp')
  | read r c rest answer => exact .inr (read_turns h hg (fun hs => (hspares hs).2) hp')
  | message r c rest closes deletes =>
      obtain ⟨hcloses, rfl⟩ := hown
      exact .inr (message_turns h hg hcloses (fun hs => (hspares hs).1.1) hp')
  | endOfBatch r =>
      have hsub : s.sub r = .dispatching [] := hg
      exact .inr (turns_same hp' (stage_update (by rw [hsub]; rfl) _) (.refl log d))

/-! ## Every run -/

lemma stage_idle {pc : SubPc} (h : c ∉ pc.channels) : stage c pc = .idle := by
  cases pc with
  | polling => rfl
  | dispatching batch => exact if_neg h
  | reading d rest =>
      rw [SubPc.channels, List.mem_cons, not_or] at h
      exact (if_neg (Ne.symm h.1)).trans (if_neg h.2)
  | messaging d rest =>
      rw [SubPc.channels, List.mem_cons, not_or] at h
      exact (if_neg (Ne.symm h.1)).trans (if_neg h.2)

/-! ## What is sent -/

/-- On a connection that is connected, a beginning of the page is sent; on another, nothing. -/
lemma sentBy_eq (h : Confined n s) {writes : List WriteResult} {o : WriteOutcome}
    (hp : s.peer c = some p)
    (ho : replyOf (fun _ => response html ++ [0]) p.conn writes = some o) :
    (p.conn.state = .connected → sentBy html s c writes <+: page html ∧
      (writes.all takes = true → (page html).length < 2 ^ 31 → sentBy html s c writes = page html)) ∧
    (p.conn.state ≠ .connected → sentBy html s c writes = []) := by
  have hsent : sentBy html s c writes = o.accepted := by
    rw [sentBy, hp, Option.bind_some, ho, Option.elim_some]
  have htext : cString (response html ++ [0]) = page html := cString_append_zero _
  rw [hsent]
  constructor
  · intro hconn
    obtain ⟨hbegins, -, hwhole⟩ := Connection.replyOf_connected hconn (h.nonBlocking c p hp) ho
    rw [htext] at hbegins hwhole
    exact ⟨hbegins, fun htakes hfit => (hwhole htakes hfit).1⟩
  · intro hconn
    exact (Connection.replyOf_closed hconn ho).2

/-- Each connection is where its turns have brought it. -/
structure Counted (n : ℕ) (x : State × Log) : Prop where
  confined : Confined n x.1
  fresh : ∀ c, x.1.peer c = none → x.2.segments c = [] ∧ x.2.answered c = 0
  sound : ∀ c p, x.1.peer c = some p → (turn x.1 x.2 c p).Sound

theorem counted_init : Counted n ({}, {}) where
  confined := confined_init
  fresh := by simp
  sound := by simp

/-- Nothing has arrived on a connection that there is not. -/
lemma fresh_step (hg : guard n s a)
    (hfresh : ∀ c, s.peer c = none → log.segments c = [] ∧ log.answered c = 0) :
    ∀ c, (effect n s a).peer c = none →
      (record html s a log).segments c = [] ∧ (record html s a log).answered c = 0 := by
  intro c hc
  have hnone : s.peer c = none := by
    cases hp : s.peer c with
    | none => rfl
    | some p =>
        obtain ⟨p', hp', -⟩ := peer_step hg hp
        rw [hc] at hp'
        simp at hp'
  have absent : ∀ d P, s.live d P = true → c ≠ d := by
    rintro d P hlive rfl
    simp [State.live, hnone] at hlive
  obtain ⟨hsegments, hanswered⟩ := hfresh c hnone
  cases a with
  | newConnection d fd queue fin =>
      have hd : c ≠ d := by
        rintro rfl
        simp [effect] at hc
      simp only [record]
      split
      · exact ⟨hsegments, hanswered⟩
      · exact ⟨(update_of_ne hd _ _).trans hsegments, hanswered⟩
  | send d data => exact ⟨(update_of_ne (absent d _ hg.2) _ _).trans hsegments, hanswered⟩
  | message r d rest closes deletes =>
      obtain ⟨p, hp, -⟩ := exists_peer_of_live hg.2
      simp only [record, hp, Option.elim_some, Log.answer]
      split
      · exact ⟨hsegments, (update_of_ne (absent d _ hg.2) _ _).trans hanswered⟩
      · exact ⟨hsegments, hanswered⟩
  | _ => exact ⟨hsegments, hanswered⟩

/-- A connection that has just been accepted is due one page, if it comes with data. -/
lemma sound_new (html : List UInt8) (h : Confined n s) {fd : ℕ} {queue : List UInt8} {fin : Bool}
    (hg : guard n s (.newConnection d fd queue fin))
    (hfresh : log.segments d = [] ∧ log.answered d = 0) :
    (turn (effect n s (.newConnection d fd queue fin))
      (record html s (.newConnection d fd queue fin) log) d (.new n fd queue fin)).Sound := by
  have hidle : stage d (s.sub (fd % n)) = .idle := by
    refine stage_idle fun hd => ?_
    obtain ⟨p, hp, -⟩ := h.own _ d hd
    rw [hg.1] at hp
    simp at hp
  obtain ⟨hsegments, hanswered⟩ := hfresh
  have hturn : turn (effect n s (.newConnection d fd queue fin))
      (record html s (.newConnection d fd queue fin) log) d (.new n fd queue fin)
      = { stage := .idle, state := .connected, queue, fin, edge := !queue.isEmpty || fin,
          deleted := false, segments := if queue = [] then 0 else 1, answered := 0 } := by
    simp only [turn, record, effect, Peer.new, hidle]
    split <;> simp [hsegments, hanswered]
  rw [hturn]
  refine ⟨rfl, ?_, ?_⟩
  · simp only [Turn.due, Turn.ahead, Turn.inHand]
    grind
  · by_cases hqueue : queue = []
    · exact .inl (if_pos hqueue)
    · exact .inr ⟨Nat.zero_le _, fun _ => .inr (.inl hqueue)⟩

/-- **One step keeps the count**, whatever it writes down of the bytes. -/
lemma counted_step (h : Counted n (s, log)) (hg : guard n s a) (hown : Own a)
    (hlog : ∀ c, (record html s a log).Same log' c) : Counted n (effect n s a, log') where
  confined := confined_step h.confined hg
  fresh c hc := by
    rw [(hlog c).segments, (hlog c).answered]
    exact fresh_step hg h.fresh c hc
  sound c q hq := by
    have hsame : turn (effect n s a) log' c q = turn (effect n s a) (record html s a log) c q := by
      simp only [turn, (hlog c).segments, (hlog c).answered]
    rw [hsame]
    rcases turn_step False html log h.confined hg hown False.elim hq with
      ⟨fd, queue, fin, rfl, rfl⟩ | ⟨p, hp, hsteps⟩
    · exact sound_new html h.confined hg (h.fresh c hg.1)
    · exact (h.sound c p hp).steps hsteps

lemma Counted.answered_le (h : Counted n (s, log)) (c : ℕ) :
    log.answered c ≤ (log.segments c).length := by
  cases hp : s.peer c with
  | none =>
      rw [(h.fresh c hp).2]
      exact Nat.zero_le _
  | some p => exact (Nat.le_add_right _ _).trans (h.sound c p hp).paid

/-! ## Every run of the server -/

/-- What has been sent on a connection is a piece with `P` for each time it was answered. -/
structure Sent (P : List UInt8 → Prop) (n : ℕ) (x : State × Log) : Prop extends Counted n x where
  pieces : ∀ c, ∃ pieces : List (List UInt8), x.2.received c = pieces.flatten ∧
    pieces.length = x.2.answered c ∧ ∀ piece ∈ pieces, P piece

variable {P : List UInt8 → Prop} {m : Move} {ms : List Move}

theorem sent_init : Sent P n ({}, {}) := ⟨counted_init, fun _ => ⟨[], by simp⟩⟩

/-- The bytes of a connection change only where its callback is called. -/
lemma record_received (html : List UInt8) (s : State) (log : Log)
    (hne : ∀ r c rest closes deletes, a ≠ .message r c rest closes deletes) :
    (record html s a log).received = log.received ∧
      (record html s a log).answered = log.answered := by
  cases a with
  | newConnection d fd queue fin =>
      simp only [record]
      split <;> exact ⟨rfl, rfl⟩
  | message r d rest closes deletes => exact absurd rfl (hne r d rest closes deletes)
  | _ => exact ⟨rfl, rfl⟩

/-- The callback sends a piece on a connection that is connected, and nothing on another. -/
lemma reply_pieces (h : Sent P n (s, log)) {rest : List (ℕ × UInt32)} {writes : List WriteResult}
    {o : WriteOutcome} (hp : s.peer c = some p)
    (ho : replyOf (fun _ => response html ++ [0]) p.conn writes = some o)
    (hpiece : p.conn.state = .connected → P (sentBy html s c writes)) (d : ℕ) :
    ∃ pieces : List (List UInt8),
      (note html s (.reply r c rest writes) log).received d = pieces.flatten ∧
      pieces.length = (note html s (.reply r c rest writes) log).answered d ∧
      ∀ piece ∈ pieces, P piece := by
  obtain ⟨pieces, hreceived, hlen, hall⟩ := h.pieces d
  simp only [note, record, hp, Option.elim_some, Log.answer] at hreceived hlen ⊢
  by_cases hd : d = c
  · subst hd
    by_cases hconn : p.conn.state = .connected
    · refine ⟨pieces ++ [sentBy html s d writes], ?_, ?_, ?_⟩
      · simp [hreceived]
      · simp [hconn, hlen]
      · rw [List.forall_mem_append, List.forall_mem_singleton]
        exact ⟨hall, hpiece hconn⟩
    · refine ⟨pieces, ?_, ?_, hall⟩
      · simp [(sentBy_eq h.confined hp ho).2 hconn, hreceived]
      · simp [hconn, hlen]
  · refine ⟨pieces, ?_, ?_, hall⟩
    · simp [update_of_ne hd, hreceived]
    · split
      · simp [update_of_ne hd, hlen]
      · exact hlen

/-- **One step of the server.** -/
theorem sent_step {x x' : State × Log} (h : Sent P n x)
    (hpiece : ∀ {r c rest writes p o}, m = .reply r c rest writes → x.1.peer c = some p →
      replyOf (fun _ => response html ++ [0]) p.conn writes = some o → p.conn.state = .connected →
      P (sentBy html x.1 c writes))
    (hst : (serving n html).step x m = some x') : Sent P n x' := by
  obtain ⟨s, log⟩ := x
  obtain ⟨s', log'⟩ := x'
  obtain ⟨hstep, rfl⟩ := Machine.recorded_step_eq_some.mp hst
  obtain ⟨hmay, rfl⟩ := Machine.guarded_step_eq_some.mp hstep
  obtain ⟨a, ha, hg⟩ := may_iff.mp hmay
  rw [move_eq ha]
  cases m with
  | net b =>
      obtain ⟨rfl, hne⟩ := act_net.mp ha
      obtain ⟨hreceived, hanswered⟩ := record_received html s log hne
      refine ⟨counted_step h.toCounted hg (act_own ha) fun c => .refl _ c, fun c => ?_⟩
      simp only [note, hreceived, hanswered]
      exact h.pieces c
  | reply r c rest writes =>
      have hown := act_own ha
      obtain ⟨p, o, hp, ho, rfl⟩ := act_reply.mp ha
      exact ⟨counted_step h.toCounted hg hown fun d => ⟨rfl, rfl⟩,
        reply_pieces h hp ho (hpiece rfl hp ho)⟩

/-- Every piece is a beginning of the page. -/
lemma sent_beginnings (hrun : (serving n html).run ({}, {}) ms = some (s, log)) :
    Sent (· <+: page html) n (s, log) :=
  Machine.run_guarded (P := fun _ _ => True) (I := Sent (· <+: page html) n)
    (fun _ _ _ h _ hst => sent_step h
      (fun _ hp ho hconn => ((sentBy_eq h.confined hp ho).1 hconn).1) hst)
    ms sent_init (Machine.along_of_forall ms fun _ _ => trivial) hrun

/-- Every piece is the page, where the kernel always takes something. -/
lemma sent_whole (hfit : (page html).length < 2 ^ 31) (htakes : ∀ m ∈ ms, m.takes = true)
    (hrun : (serving n html).run ({}, {}) ms = some (s, log)) : Sent (· = page html) n (s, log) :=
  Machine.run_guarded (P := fun _ m => m.takes = true) (I := Sent (· = page html) n)
    (fun _ _ _ h htake hst => sent_step h (fun hm hp ho hconn => by
      subst hm
      exact ((sentBy_eq h.confined hp ho).1 hconn).2 htake hfit) hst)
    ms sent_init (Machine.along_of_forall ms htakes) hrun

lemma Sent.pages (h : Sent (· = page html) n (s, log)) (c : ℕ) :
    log.received c = (List.replicate (log.answered c) (page html)).flatten := by
  obtain ⟨pieces, hreceived, hlen, hall⟩ := h.pieces c
  rw [hreceived, ← hlen, ← List.eq_replicate_of_mem hall]

/-- **No page without a segment.**  In every run of the server, whatever the peers send, whatever
`::read` and `::write` answer and however connections break: what has been sent on a connection is
a series of beginnings of the page, not more than data has arrived on it; and if the kernel always
takes something of a page, which `WriteNonBlocking` can count, they are whole pages. -/
theorem pages_bounded (hrun : (serving n html).run ({}, {}) ms = some (s, log)) (c : ℕ) :
    (∃ pieces : List (List UInt8), log.received c = pieces.flatten ∧
      pieces.length ≤ (log.segments c).length ∧ ∀ piece ∈ pieces, piece <+: page html) ∧
    ((page html).length < 2 ^ 31 → (∀ m ∈ ms, m.takes = true) →
      ∃ k ≤ (log.segments c).length, log.received c = (List.replicate k (page html)).flatten) := by
  constructor
  · have h := sent_beginnings hrun
    obtain ⟨pieces, hreceived, hlen, hall⟩ := h.pieces c
    exact ⟨pieces, hreceived, hlen ▸ h.answered_le c, hall⟩
  · intro hfit htakes
    have h := sent_whole hfit htakes hrun
    exact ⟨log.answered c, h.answered_le c, h.pages c⟩

/-- The kernel has room for ten bytes of the page; when the rest of the request comes, the peer is
gone. -/
def cutOff : List Move :=
  [.net (.newConnection 0 5 [71, 69] false), .net (.poll 1 [(0, EPOLLIN)]),
    .net (.handle 1 0 EPOLLIN []), .net (.read 1 0 [] (.ok [71, 69])),
    .net (.read 1 0 [] (.error .EAGAIN)), .reply 1 0 [] [.ok 10, .error .EAGAIN],
    .net (.endOfBatch 1), .net (.send 0 [84]), .net (.poll 1 [(0, EPOLLIN)]),
    .net (.handle 1 0 EPOLLIN []), .net (.read 1 0 [] (.ok [84])),
    .net (.read 1 0 [] (.error .EAGAIN)), .reply 1 0 [] [.ok 4, .error (.other 104)]]

theorem pages_bounded_cutOff :
    ∃ s log, (serving 4 [60, 62]).run ({}, {}) cutOff = some (s, log) ∧
      log.received 0 = (page [60, 62]).take 10 ++ (page [60, 62]).take 4 ∧
      ∃ pieces : List (List UInt8), log.received 0 = pieces.flatten ∧
        pieces.length ≤ (log.segments 0).length ∧ ∀ piece ∈ pieces, piece <+: page [60, 62] := by
  obtain ⟨⟨s, log⟩, hrun, htwo⟩ := (Option.any_eq_true
    (fun x : State × Log => decide
      (x.2.received 0 = (page [60, 62]).take 10 ++ (page [60, 62]).take 4))
    ((serving 4 [60, 62]).run ({}, {}) cutOff)).mp (by decide +kernel)
  exact ⟨s, log, hrun, of_decide_eq_true htwo, (pages_bounded hrun 0).1⟩

/-! ## The kernel that has room -/

lemma pageFor_eq {conn : Connection} (hc : conn.state = .connected)
    (hn : conn.sock.nonBlocking = true) (hfit : (page html).length < 2 ^ 31) :
    pageFor html conn = page html := by
  obtain ⟨rest, hsent⟩ := Connection.pageMessage_eq hc hn hfit
  rw [pageFor, hsent]

/-- A step in which the page is sent whole is a step of the server. -/
lemma serving_step (h : Confined n s) (hg : guard n s a) (hkeeps : Keeps a)
    (hfit : (page html).length < 2 ^ 31) (log : Log) :
    ∃ m : Move, m.takes = true ∧
      (serving n html).step (s, log) m = some (effect n s a, record html s a log) := by
  have steps {m : Move} (ha : act (fun _ => response html ++ [0]) s m = some a)
      (hnote : note html s m log = record html s a log) :
      (serving n html).step (s, log) m = some (effect n s a, record html s a log) := by
    refine Machine.recorded_step_eq_some.mpr ⟨Machine.guarded_step_eq_some.mpr ⟨?_, ?_⟩, hnote⟩
    · exact may_iff.mpr ⟨a, ha, hg⟩
    · exact move_eq ha
  cases a with
  | message r c rest closes deletes =>
      obtain ⟨rfl, rfl⟩ := hkeeps
      obtain ⟨p, hp, -⟩ := exists_peer_of_live hg.2
      have htext : (cString (response html ++ [0])).length < 2 ^ 31 := by
        rw [cString_append_zero]
        exact hfit
      obtain ⟨writes, o, ho, hstate, htakes⟩ := Connection.exists_replyOf
        (fun _ => response html ++ [0]) (h.nonBlocking c p hp) fun _ => htext
      refine ⟨.reply r c rest writes, htakes, steps ?_ ?_⟩
      · exact act_reply.mpr ⟨p, o, hp, ho, by rw [if_pos hstate]⟩
      · obtain ⟨hpage, hnone⟩ := sentBy_eq h hp ho
        by_cases hconn : p.conn.state = .connected
        · simp [note, record, hp, Log.answer, hconn, (hpage hconn).2 htakes hfit,
            pageFor_eq hconn (h.nonBlocking c p hp) hfit]
        · simp [note, record, hp, Log.answer, hconn, hnone hconn]
  | _ => exact ⟨.net _, rfl, steps (act_net.mpr ⟨rfl, by simp⟩) rfl⟩

/-- **Where the kernel always has room, the server sends whole pages**: those runs are runs of the
server. -/
theorem exists_serving {as : List Action} (hfit : (page html).length < 2 ^ 31)
    (hkeeps : ∀ a ∈ as, Keeps a) (hrun : (paged n html).run ({}, {}) as = some (s, log)) :
    ∃ ms, (∀ m ∈ ms, m.takes = true) ∧ (serving n html).run ({}, {}) ms = some (s, log) := by
  refine (Machine.run_guarded (P := fun _ a => Keeps a)
    (I := fun x : State × Log => Confined n x.1 ∧ ∃ ms : List Move, (∀ m ∈ ms, m.takes = true) ∧
      (serving n html).run ({}, {}) ms = some x)
    (fun x a x' hx hkeep hst => ?_) as ⟨confined_init, [], by simp, rfl⟩
    (Machine.along_of_forall as hkeeps) hrun).2
  obtain ⟨hconf, ms, htakes, hms⟩ := hx
  obtain ⟨hstep, hlog⟩ := Machine.recorded_step_eq_some.mp hst
  obtain ⟨hg, heffect⟩ := Machine.guarded_step_eq_some.mp hstep
  rw [show x' = (effect n x.1 a, record html x.1 a x.2) from Prod.ext heffect.symm hlog.symm]
  obtain ⟨m, htake, hm⟩ := serving_step hconf hg hkeep hfit x.2
  refine ⟨confined_step hconf hg, ms ++ [m], ?_, ?_⟩
  · rw [List.forall_mem_append, List.forall_mem_singleton]
    exact ⟨htakes, htake⟩
  · rw [Machine.run_append, hms, Option.bind_some]
    exact Machine.run_cons_eq_some.mpr ⟨_, hm, rfl⟩

end PageServer

end CppServer
