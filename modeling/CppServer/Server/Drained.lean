import CppServer.Lib.Potential
import CppServer.Server.EventAtomicity

/-!
# The reactors drain their connections

`never_stranded` says that a connection with something to read is attended.  Here it is read: the
steps the sub reactors take by themselves come to an end, whatever the other parties have done
before, and where they do no connection of an idle loop has anything left.  A byte that arrives is
worth the `::read` that takes it, and an edge one entry of a batch with the round it brings about.

* `potential_step` — each step is paid for.
* `drained_of_settled` — a loop with no step left polls, or has come to a connection that is
  deleted.
* `reactors_drain` — over every interleaving.
* `all_delivered` — so each byte is shown to the on_message callback.
-/

namespace CppServer.EdgeTriggered

open Function (update)

/-! ## What is still to be done -/

/-- The steps of a loop, up to its next `epoll_wait`. -/
def SubPc.potential : SubPc → ℕ
  | .polling => 0
  | .dispatching batch => 1 + 3 * batch.length
  | .messaging _ rest => 2 + 3 * rest.length
  | .reading _ rest => 3 + 3 * rest.length

/-- An edge brings about an entry of a batch, and a batch its first and last step. -/
def edgePotential : ℕ := 5

def Peer.potential (p : Peer) : ℕ := p.queue.length + if p.edge then edgePotential else 0

/-- The steps of the first `M` loops with the first `N` connections. -/
def State.potential (N M : ℕ) (s : State) : ℕ :=
  ∑ c ∈ Finset.range N, (s.peer c).elim 0 Peer.potential +
    ∑ r ∈ Finset.range M, (s.sub r).potential

/-- What a step of a peer brings in, a new connection, a signal, or an `epoll_wait` that returns
nothing. -/
def Action.credit : Action → ℕ
  | .newConnection _ _ queue _ => queue.length + 6
  | .send _ data => data.length + 6
  | .shutdown _ => 6
  | .poll _ [] => 2
  | .read _ _ _ (.error .EINTR) => 1
  | _ => 0

/-- A step a sub reactor takes by itself. -/
def Action.Owed : Action → Prop
  | .newConnection _ _ _ _ => False
  | .send _ _ => False
  | .shutdown _ => False
  | .poll _ batch => batch ≠ []
  | .read _ _ _ answer => answer ≠ .error .EINTR
  | _ => True

/-- A step of the first `M` loops, or of another party with the first `N` connections. -/
def Action.Within (N M : ℕ) : Action → Prop
  | .newConnection c _ _ _ => c < N
  | .poll r batch => batch = [] → r < M
  | _ => True

instance (N M : ℕ) : DecidablePred (Action.Within N M)
  | .newConnection c _ _ _ => inferInstanceAs (Decidable (c < N))
  | .poll r batch => inferInstanceAs (Decidable (batch = [] → r < M))
  | .send _ _ => isTrue trivial
  | .shutdown _ => isTrue trivial
  | .dropEdge _ _ => isTrue trivial
  | .handle _ _ _ _ => isTrue trivial
  | .read _ _ _ _ => isTrue trivial
  | .message _ _ _ _ _ => isTrue trivial
  | .endOfBatch _ => isTrue trivial

lemma Action.Owed.credit_eq {a : Action} (h : a.Owed) : a.credit = 0 := by
  cases a with
  | newConnection | send | shutdown => exact absurd h id
  | poll r batch =>
      cases batch with
      | nil => exact absurd rfl h
      | cons e es => rfl
  | read r c rest answer =>
      match answer with
      | .error .EINTR => exact absurd rfl h
      | .error .EAGAIN => rfl
      | .error (.other _) => rfl
      | .ok _ => rfl
  | _ => rfl

lemma Action.Owed.within {a : Action} (h : a.Owed) (N M : ℕ) : a.Within N M := by
  cases a with
  | newConnection => exact absurd h id
  | poll r batch => exact fun hnil => absurd hnil h
  | _ => trivial

/-- Nothing is outside the first `N` connections and the first `M` loops. -/
structure Enclosed (n N M : ℕ) (s : State) : Prop where
  confined : Confined n s
  enough : n ≤ M
  peers : ∀ c, N ≤ c → s.peer c = none
  loops : ∀ r, M ≤ r → s.sub r = .polling

variable {n N M : ℕ} {s s' : State} {a : Action} {c r k : ℕ}

lemma Enclosed.peer_lt (h : Enclosed n N M s) {p : Peer} (hp : s.peer c = some p) : c < N := by
  by_contra hc
  rw [h.peers c (Nat.le_of_not_lt hc)] at hp
  simp at hp

lemma Enclosed.loop_lt (h : Enclosed n N M s) (hr : s.sub r ≠ .polling) : r < M := by
  by_contra hc
  exact hr (h.loops r (Nat.le_of_not_lt hc))

/-- `epoll_wait` returns something only to a sub reactor that there is. -/
lemma Confined.poll_lt (h : Confined n s) (hn : 0 < n) {batch : List (ℕ × UInt32)}
    (hg : guard n s (.poll r batch)) (hne : batch ≠ []) : r < n := by
  obtain ⟨event, hevent⟩ := List.exists_mem_of_ne_nil batch hne
  obtain ⟨p, hp, hloop⟩ := polled_own hg (List.mem_map_of_mem hevent)
  have hmod := h.assigned _ p hp
  have hlt : p.conn.sock.fd % (n : ℤ) < n := Int.emod_lt_of_pos _ (by omega)
  omega

lemma enclosed_step (h : Enclosed n N M s) (hn : 0 < n) (hw : a.Within N M) (hg : guard n s a) :
    Enclosed n N M (effect n s a) where
  confined := confined_step h.confined hg
  enough := h.enough
  peers c hc := by
    cases hp : (effect n s a).peer c with
    | none => rfl
    | some p' =>
        rcases peer_born hg hp with ⟨p, hp, -⟩ | ⟨fd, queue, fin, rfl, -⟩
        · rw [h.peers c hc] at hp
          simp at hp
        · exact absurd hw (Nat.not_lt.mpr hc)
  loops r hr := by
    have hgoes := sub_step hg r
    rw [h.loops r hr] at hgoes
    generalize (effect n s a).sub r = q at hgoes
    cases hgoes with
    | stays => rfl
    | @poll _ batch =>
        have hlt : r < M := by
          by_cases hne : batch = []
          · exact hw hne
          · exact Nat.lt_of_lt_of_le (h.confined.poll_lt hn hg hne) h.enough
        omega

/-! ## Each step is paid for -/

/-- A loop moves, and what the connections are worth changes by as much as is left. -/
lemma loop_pays {p q : SubPc} (hr : r < M) (hp : s.sub r = p) (hsub : s'.sub = update s.sub r q)
    (hpeers : ∑ c ∈ Finset.range N, (s'.peer c).elim 0 Peer.potential + q.potential + 1 ≤
      ∑ c ∈ Finset.range N, (s.peer c).elim 0 Peer.potential + p.potential + k) :
    s'.potential N M + 1 ≤ s.potential N M + k := by
  have hsum := sum_moved (Finset.mem_range.mpr hr) s.sub SubPc.potential q
  rw [hp] at hsum
  simp only [State.potential, hsub]
  omega

/-- A connection is changed. -/
lemma modify_potential {f : Peer → Peer} {p : Peer} (hc : c < N) (hp : s.peer c = some p) :
    ∑ d ∈ Finset.range N, ((s.modify c f).peer d).elim 0 Peer.potential + p.potential =
      ∑ d ∈ Finset.range N, (s.peer d).elim 0 Peer.potential + (f p).potential := by
  have hsum := sum_moved (Finset.mem_range.mpr hc) s.peer (fun o => o.elim 0 Peer.potential)
    (some (f p))
  simpa [State.modify, hp] using hsum

/-- A connection is changed, and no loop moves. -/
lemma peer_pays {f : Peer → Peer} {p : Peer} (hc : c < N) (hp : s.peer c = some p)
    (hle : (f p).potential + 1 ≤ p.potential + k) :
    (s.modify c f).potential N M + 1 ≤ s.potential N M + k := by
  have hsum := modify_potential (f := f) hc hp
  simp only [State.potential, show (s.modify c f).sub = s.sub from rfl]
  omega

lemma Peer.potential_le (p : Peer) : p.potential ≤ p.queue.length + edgePotential := by
  unfold Peer.potential
  split <;> omega

lemma arrive_potential (p : Peer) (data : List UInt8) (fin : Bool) :
    (p.arrive data fin).potential ≤ p.potential + data.length + edgePotential := by
  simp only [Peer.potential, Peer.arrive, List.length_append, if_true]
  omega

lemma exists_peer_of_live {P : Peer → Bool} (h : s.live c P = true) :
    ∃ p, s.peer c = some p ∧ p.deleted = false ∧ P p = true := by
  obtain ⟨p, hp, hP⟩ := (Option.any_eq_true _ _).mp h
  rw [Bool.and_eq_true, Bool.not_eq_true'] at hP
  exact ⟨p, hp, hP⟩

/-- Each entry of a batch is paid for by its edge. -/
lemma polled_potential (h : Enclosed n N M s) {batch : List (ℕ × UInt32)}
    (hg : guard n s (.poll r batch)) :
    ∑ c ∈ Finset.range N, ((s.peer c).map (Peer.polled batch c)).elim 0 Peer.potential +
        edgePotential * batch.length =
      ∑ c ∈ Finset.range N, (s.peer c).elim 0 Peer.potential := by
  obtain ⟨-, -, hnodup, hreport⟩ := hg
  have reported : ∀ c ∈ batch.map Prod.fst, ∃ p, s.peer c = some p ∧ p.edge = true := by
    intro c hc
    obtain ⟨event, hmem, rfl⟩ := List.mem_map.mp hc
    obtain ⟨p, hp, hmay⟩ := (Option.any_eq_true _ _).mp (List.all_eq_true.mp hreport event hmem)
    simp only [Peer.mayReport, Bool.and_eq_true] at hmay
    exact ⟨p, hp, hmay.1.1.1.1⟩
  have hcard : ((Finset.range N).filter (· ∈ batch.map Prod.fst)).card = batch.length := by
    have hfilter : (Finset.range N).filter (· ∈ batch.map Prod.fst)
        = (batch.map Prod.fst).toFinset := by
      ext c
      simp only [Finset.mem_filter, Finset.mem_range, List.mem_toFinset, and_iff_right_iff_imp]
      intro hc
      obtain ⟨p, hp, -⟩ := reported c hc
      exact h.peer_lt hp
    rw [hfilter, List.toFinset_card_of_nodup hnodup, List.length_map]
  have heach : ∀ c ∈ Finset.range N,
      ((s.peer c).map (Peer.polled batch c)).elim 0 Peer.potential +
        (if c ∈ batch.map Prod.fst then edgePotential else 0) =
      (s.peer c).elim 0 Peer.potential := by
    intro c _
    by_cases hc : c ∈ batch.map Prod.fst
    · obtain ⟨p, hp, hedge⟩ := reported c hc
      simp only [hp, Option.map_some, Option.elim_some, Peer.polled, if_pos hc, Peer.potential,
        hedge]
      simp
    · cases hp : s.peer c with
      | none => simp [hc]
      | some p => simp only [Option.map_some, Option.elim_some, Peer.polled, if_neg hc]; rfl
  rw [← Finset.sum_congr rfl heach, Finset.sum_add_distrib, ← Finset.sum_filter,
    Finset.sum_const, hcard, Nat.nsmul_eq_mul, Nat.mul_comm]

/-- A channel that is handled is taken from the batch. -/
lemma handle_pays (h : Enclosed n N M s) {mask : UInt32} {rest : List (ℕ × UInt32)}
    (hg : guard n s (.handle r c mask rest)) :
    (s.handle r c mask rest).potential N M + 1 ≤ s.potential N M := by
  obtain ⟨hsub, hlive⟩ := hg
  have hr : r < M := h.loop_lt (by rw [hsub]; simp)
  obtain ⟨p, hp, -⟩ := exists_peer_of_live hlive
  unfold State.handle
  split
  · split
    · have hsame := modify_potential (f := fun p =>
        { p with conn := { p.conn with readBuffer := p.conn.readBuffer.clearBuffer } })
        (h.peer_lt hp) hp
      refine loop_pays hr hsub rfl (k := 0) ?_
      simp only [SubPc.potential, List.length_cons, Peer.potential] at hsame ⊢
      omega
    · refine loop_pays hr hsub rfl (k := 0) ?_
      simp only [SubPc.potential, List.length_cons]
      omega
  · refine loop_pays hr hsub rfl (k := 0) ?_
    simp only [SubPc.potential, List.length_cons]
    omega

/-- What `::read` hands out is taken from the queue. -/
lemma step_potential {p : Peer} {answer : ReadResult} (hk : p.mayAnswer answer = true) :
    (p.step answer).potential + (answer.toOption.getD []).length = p.potential := by
  have hle : (answer.toOption.getD []).length ≤ p.queue.length := by
    match answer with
    | .error _ => exact Nat.zero_le _
    | .ok [] => exact Nat.zero_le _
    | .ok (b :: bs) =>
        simp only [Peer.mayAnswer, Bool.and_eq_true, List.isPrefixOf_iff_prefix] at hk
        exact hk.1.length_le
  have hedge : (p.step answer).potential
      = p.queue.length - (answer.toOption.getD []).length + if p.edge then edgePotential else 0 := by
    rw [← List.length_drop]
    rfl
  rw [hedge, Peer.potential]
  omega

/-- An answer takes bytes from the queue, or ends the read loop, or is an interruption. -/
lemma answer_pays {p : Peer} {answer : ReadResult} (hk : p.mayAnswer answer = true)
    (rest : List (ℕ × UInt32)) :
    (p.step answer).potential + (afterAnswer p answer c rest).potential + 1 ≤
      p.potential + (SubPc.reading c rest).potential + (Action.read r c rest answer).credit := by
  have hstep := step_potential hk
  match answer with
  | .error .EINTR =>
      simp only [afterAnswer, Connection.readBody, SubPc.potential, Action.credit]
      omega
  | .error .EAGAIN =>
      simp only [afterAnswer, Connection.readBody, SubPc.potential, Action.credit]
      omega
  | .error (.other _) =>
      simp only [afterAnswer, Connection.readBody, SubPc.potential, Action.credit]
      omega
  | .ok [] =>
      simp only [afterAnswer, Connection.readBody, SubPc.potential, Action.credit]
      omega
  | .ok (b :: bs) =>
      simp only [afterAnswer, Connection.readBody, SubPc.potential, Action.credit, Except.toOption,
        Option.getD_some, List.length_cons] at hstep ⊢
      omega

lemma read_pays (h : Enclosed n N M s) {rest : List (ℕ × UInt32)} {answer : ReadResult}
    (hg : guard n s (.read r c rest answer)) :
    (effect n s (.read r c rest answer)).potential N M + 1 ≤
      s.potential N M + (Action.read r c rest answer).credit := by
  obtain ⟨hsub, hlive⟩ := hg
  have hr : r < M := h.loop_lt (by rw [hsub]; simp)
  obtain ⟨p, hp, -, hk⟩ := exists_peer_of_live hlive
  have hpeers := modify_potential (f := fun p => p.step answer) (h.peer_lt hp) hp
  have hanswer := answer_pays (c := c) (r := r) hk rest
  simp only [effect, hp]
  refine loop_pays hr hsub rfl ?_
  simp only [State.modify] at hpeers ⊢
  omega

/-- **Each step is paid for**, by the edge that brought it about, by the bytes it takes or by the
batch it is part of. -/
theorem potential_step (h : Enclosed n N M s) (hn : 0 < n) (hw : a.Within N M) (hg : guard n s a) :
    (effect n s a).potential N M + 1 ≤ s.potential N M + a.credit := by
  cases a with
  | newConnection c fd queue fin =>
      have hsum := sum_moved (Finset.mem_range.mpr hw) s.peer (fun o => o.elim 0 Peer.potential)
        (some (.new n fd queue fin))
      have hnew : (Peer.new n fd queue fin).potential ≤ queue.length + edgePotential :=
        Peer.potential_le _
      simp only [Option.elim_some, hg.1, Option.elim_none, edgePotential] at hsum hnew
      simp only [State.potential, effect, Action.credit]
      omega
  | send c data =>
      obtain ⟨p, hp, -⟩ := exists_peer_of_live hg.2
      have harrive := arrive_potential p data false
      refine peer_pays (h.peer_lt hp) hp ?_
      simp only [Action.credit, edgePotential] at harrive ⊢
      omega
  | shutdown c =>
      obtain ⟨p, hp, -⟩ := exists_peer_of_live hg
      have harrive := arrive_potential p [] true
      refine peer_pays (h.peer_lt hp) hp ?_
      simp only [Action.credit, edgePotential, List.length_nil] at harrive ⊢
      omega
  | poll r batch =>
      have hpaid := polled_potential h hg
      have hr : r < M := by
        by_cases hne : batch = []
        · exact hw hne
        · exact Nat.lt_of_lt_of_le (h.confined.poll_lt hn hg hne) h.enough
      refine loop_pays hr hg.1 rfl ?_
      cases batch with
      | nil =>
          simp only [effect, SubPc.potential, Action.credit, List.length_nil] at hpaid ⊢
          omega
      | cons e es =>
          simp only [effect, SubPc.potential, Action.credit, List.length_cons, edgePotential]
            at hpaid ⊢
          omega
  | dropEdge r c =>
      obtain ⟨p, hp, -, hedge⟩ := exists_peer_of_live hg.2
      simp only [Bool.and_eq_true] at hedge
      refine peer_pays (h.peer_lt hp) hp ?_
      simp [Peer.potential, hedge.1.1, edgePotential, Action.credit]
  | handle r c mask rest => exact handle_pays h hg
  | read r c rest answer => exact read_pays h hg
  | message r c rest closes deletes =>
      have hr : r < M := h.loop_lt (by rw [hg.1]; simp)
      have hsame : ∀ d, ((s.peer d).map (Peer.touched closes deletes d)).elim 0 Peer.potential
          = (s.peer d).elim 0 Peer.potential := by
        intro d
        cases s.peer d <;> rfl
      refine loop_pays hr hg.1 rfl ?_
      simp only [effect, hsame, SubPc.potential, Action.credit]
      omega
  | endOfBatch r =>
      have hsub : s.sub r = .dispatching [] := hg
      have hr : r < M := h.loop_lt (by rw [hsub]; simp)
      refine loop_pays hr hsub rfl ?_
      simp [effect, SubPc.potential, Action.credit]

/-! ## A loop with no step left -/

/-- The channel a loop comes to next. -/
def SubPc.next : SubPc → Option ℕ
  | .polling => none
  | .dispatching [] => none
  | .dispatching ((c, _) :: _) => some c
  | .reading c _ => some c
  | .messaging c _ => some c

/-- The loop has come to a connection that is deleted: what it does is undefined. -/
def State.AtDeleted (s : State) (r : ℕ) : Prop :=
  ∃ c p, (s.sub r).next = some c ∧ s.peer c = some p ∧ p.deleted = true

/-- The answer is not an error that breaks the connection. -/
def notBroken : ReadResult → Bool
  | .error (.other _) => false
  | _ => true

/-- The step breaks, closes and deletes nothing. -/
def Action.Harmless : Action → Prop
  | .message _ _ _ closes deletes => closes = [] ∧ deletes = []
  | .read _ _ _ answer => notBroken answer = true
  | _ => True

/-- A step that a sub reactor takes by itself, and that breaks, closes and deletes nothing. -/
def Action.Plain (a : Action) : Prop := a.Owed ∧ a.Harmless

lemma live_of {p : Peer} {P : Peer → Bool} (hp : s.peer c = some p) (hdel : p.deleted = false)
    (hP : P p = true) : s.live c P = true := by
  simp [State.live, hp, hdel, hP]

/-- The kernel has an answer that is no interruption. -/
lemma exists_mayAnswer (p : Peer) : ∃ answer, p.mayAnswer answer = true ∧
    answer ≠ .error .EINTR ∧ notBroken answer = true := by
  cases hq : p.queue with
  | nil =>
      cases hfin : p.fin with
      | true => exact ⟨.ok [], by simp [Peer.mayAnswer, hq, hfin], by simp, rfl⟩
      | false => exact ⟨.error .EAGAIN, by simp [Peer.mayAnswer, hq, hfin], by simp, rfl⟩
  | cons b bs => exact ⟨.ok [b], by simp [Peer.mayAnswer, hq, BUFFER_SIZE], by simp, rfl⟩

/-- Where a step can be taken that breaks, closes or deletes something, so can one that does not. -/
lemma plain_of_owed {a : Action} (ha : a.Owed) (hg : guard n s a) :
    ∃ b : Action, b.Plain ∧ guard n s b := by
  cases a with
  | read r c rest answer =>
      obtain ⟨hsub, hlive⟩ := hg
      obtain ⟨p, hp, hdel, -⟩ := exists_peer_of_live hlive
      obtain ⟨answer, hmay, hne, hwell⟩ := exists_mayAnswer p
      exact ⟨.read r c rest answer, ⟨hne, hwell⟩, hsub, live_of hp hdel hmay⟩
  | message r c rest closes deletes => exact ⟨.message r c rest [] [], ⟨trivial, rfl, rfl⟩, hg⟩
  | _ => exact ⟨_, ⟨ha, trivial⟩, hg⟩

/-- A loop that has something in hand goes on with it, unless it is deleted. -/
lemma handling_owed (h : Confined n s) (r : ℕ) :
    s.sub r = .polling ∨ s.AtDeleted r ∨ ∃ a : Action, a.Plain ∧ guard n s a := by
  have alive : ∀ c, (s.sub r).next = some c → c ∈ (s.sub r).channels →
      s.AtDeleted r ∨ ∃ p, s.peer c = some p ∧ p.deleted = false := by
    intro c hnext hc
    obtain ⟨p, hp, -⟩ := h.own r c hc
    cases hdel : p.deleted with
    | true => exact .inl ⟨c, p, hnext, hp, hdel⟩
    | false => exact .inr ⟨p, hp, hdel⟩
  cases hsub : s.sub r with
  | polling => exact .inl rfl
  | dispatching batch =>
      cases batch with
      | nil => exact .inr (.inr ⟨.endOfBatch r, ⟨trivial, trivial⟩, hsub⟩)
      | cons event rest =>
          obtain ⟨c, mask⟩ := event
          refine .inr ((alive c (by rw [hsub]; rfl) (by rw [hsub]; exact List.mem_cons_self)).imp_right
            ?_)
          rintro ⟨p, hp, hdel⟩
          exact ⟨.handle r c mask rest, ⟨trivial, trivial⟩, hsub, live_of hp hdel rfl⟩
  | reading c rest =>
      refine .inr ((alive c (by rw [hsub]; rfl) (by rw [hsub]; exact List.mem_cons_self)).imp_right
        ?_)
      rintro ⟨p, hp, hdel⟩
      obtain ⟨answer, hmay, hne, hwell⟩ := exists_mayAnswer p
      exact ⟨.read r c rest answer, ⟨hne, hwell⟩, hsub, live_of hp hdel hmay⟩
  | messaging c rest =>
      refine .inr ((alive c (by rw [hsub]; rfl) (by rw [hsub]; exact List.mem_cons_self)).imp_right
        ?_)
      rintro ⟨p, hp, hdel⟩
      exact ⟨.message r c rest [] [], ⟨trivial, rfl, rfl⟩, hsub, live_of hp hdel rfl⟩

/-- A loop that polls takes a queued edge up. -/
lemma edge_owed {p : Peer} (hp : s.peer c = some p) (hdel : p.deleted = false)
    (hedge : p.edge = true) (hsub : s.sub p.loop = .polling) :
    ∃ a : Action, a.Plain ∧ guard n s a := by
  cases hread : p.readable with
  | true =>
      refine ⟨.poll p.loop [(c, EPOLLIN)], ⟨List.cons_ne_nil _ _, trivial⟩, hsub, ?_, ?_, ?_⟩
      · simp [MAX_EVENTS]
      · exact List.nodup_singleton c
      · have hmask : reportable listenEvents EPOLLIN = true := by decide
        have hin : EPOLLIN ≠ 0 := by decide
        simp [hp, Peer.mayReport, hedge, hdel, hmask, hin]
  | false =>
      exact ⟨.dropEdge p.loop c, ⟨trivial, trivial⟩, hsub,
        live_of hp hdel (by simp [hedge, hread])⟩

/-- Nothing is left to read at an idle loop, and a loop is idle unless it has come to a deleted
connection. -/
structure Drained (s : State) : Prop where
  loops : ∀ r, s.sub r = .polling ∨ s.AtDeleted r
  empty : ∀ c p, s.peer c = some p → s.sub p.loop = .polling → p.deleted = false →
    p.conn.state = .connected → p.readable = false

/-- **A reactor that has no step left has nothing left to read**: what attends a connection that
waits is a queued edge, since its loop polls. -/
theorem drained_of_settled (hc : Confined n s) (hw : NotStranded s)
    (hstuck : ¬ ∃ a : Action, a.Plain ∧ guard n s a) : Drained s where
  loops r := (handling_owed hc r).imp_right fun h => h.resolve_right hstuck
  empty c p hp hsub hdel hconn := by
    cases hread : p.readable with
    | false => rfl
    | true =>
        rcases hw c p hp ⟨hread, hconn, hdel⟩ with hedge | ⟨mask, hmem, -⟩ | hreading
        · exact absurd (edge_owed hp hdel hedge hsub) hstuck
        · rw [hsub] at hmem
          simp [SubPc.batch] at hmem
        · rw [hsub] at hreading
          exact absurd hreading id

/-! ## Every run -/

lemma Enclosed.mono (h : Enclosed n N M s) {N' M' : ℕ} (hN : N ≤ N') (hM : M ≤ M') :
    Enclosed n N' M' s where
  confined := h.confined
  enough := Nat.le_trans h.enough hM
  peers c hc := h.peers c (Nat.le_trans hN hc)
  loops r hr := h.loops r (Nat.le_trans hM hr)

/-- What is not there is worth nothing. -/
lemma Enclosed.potential_eq (h : Enclosed n N M s) {N' M' : ℕ} (hN : N ≤ N') (hM : M ≤ M') :
    s.potential N' M' = s.potential N M := by
  unfold State.potential
  congr 1
  · symm
    refine Finset.sum_subset (Finset.range_mono hN) ?_
    intro c _ hc
    rw [h.peers c (by simpa using hc)]
    rfl
  · symm
    refine Finset.sum_subset (Finset.range_mono hM) ?_
    intro r _ hr
    rw [h.loops r (by simpa using hr)]
    rfl

/-- A run has to do with finitely many connections and loops. -/
lemma exists_within (as : List Action) :
    ∃ N M, ∀ N' M', N ≤ N' → M ≤ M' → ∀ a ∈ as, a.Within N' M' := by
  induction as with
  | nil => exact ⟨0, 0, by simp⟩
  | cons a as ih =>
      obtain ⟨N, M, hall⟩ := ih
      have one : ∃ N₀ M₀, ∀ N' M', N₀ ≤ N' → M₀ ≤ M' → a.Within N' M' := by
        cases a with
        | newConnection c => exact ⟨c + 1, 0, fun _ _ hN _ => hN⟩
        | poll r batch => exact ⟨0, r + 1, fun _ _ _ hM _ => hM⟩
        | _ => exact ⟨0, 0, fun _ _ _ _ => trivial⟩
      obtain ⟨N₀, M₀, hone⟩ := one
      refine ⟨max N₀ N, max M₀ M, ?_⟩
      intro N' M' hN hM
      rw [List.forall_mem_cons]
      exact ⟨hone N' M' (by omega) (by omega), hall N' M' (by omega) (by omega)⟩

/-- So has a state that is reached. -/
lemma exists_enclosed (hn : 0 < n) (hs : (machine n).Reachable s) : ∃ N M, Enclosed n N M s := by
  induction hs with
  | init hinit =>
      rw [show _ = ({} : State) from hinit]
      exact ⟨0, n, confined_init, Nat.le_refl n, fun _ _ => rfl, fun _ _ => rfl⟩
  | @step s s' a _ hst ih =>
      obtain ⟨hg, rfl⟩ := Machine.guarded_step_eq_some.mp hst
      obtain ⟨N, M, h⟩ := ih
      obtain ⟨N₀, M₀, hwithin⟩ := exists_within [a]
      have hmono := h.mono (Nat.le_max_right N₀ N) (Nat.le_max_right M₀ M)
      exact ⟨_, _, enclosed_step hmono hn (hwithin _ _ (Nat.le_max_left N₀ N)
        (Nat.le_max_left M₀ M) a List.mem_cons_self) hg⟩

theorem potential (hn : 0 < n) : ((machine n).restrict (Action.Within N M)).Potential
    (Enclosed n N M) Action.credit (State.potential N M) where
  invariant s a s' h hst := by
    obtain ⟨hw, hst⟩ := Machine.restrict_step_eq_some.mp hst
    obtain ⟨hg, rfl⟩ := Machine.guarded_step_eq_some.mp hst
    exact enclosed_step h hn hw hg
  pays s a s' h hst := by
    obtain ⟨hw, hst⟩ := Machine.restrict_step_eq_some.mp hst
    obtain ⟨hg, rfl⟩ := Machine.guarded_step_eq_some.mp hst
    exact potential_step h hn hw hg

/-- From every state that is reached, plain steps lead to one that has none left. -/
lemma exists_settled (hn : 0 < n) (hs : (machine n).Reachable s) :
    ∃ as s', (∀ a ∈ as, a.Plain) ∧ (machine n).run s as = some s' ∧
      ¬ ∃ a : Action, a.Plain ∧ guard n s' a := by
  obtain ⟨N, M, h⟩ := exists_enclosed hn hs
  obtain ⟨as, s', hplain, hrun, hstuck⟩ :=
    (potential hn).exists_settled (P := Action.Plain) (fun _ ha => ha.1.credit_eq)
      (s.potential N M) le_rfl h
  refine ⟨as, s', hplain, ((Machine.restrict_run_eq_some as).mp hrun).2, ?_⟩
  rintro ⟨a, ha, hg⟩
  refine hstuck ⟨a, ha, Option.isSome_iff_exists.mpr ⟨effect n s' a, ?_⟩⟩
  exact Machine.restrict_step_eq_some.mpr
    ⟨ha.1.within N M, Machine.guarded_step_eq_some.mpr ⟨hg, rfl⟩⟩

/-- **The reactors drain their connections.**  From every reachable state: a run, of whatever
steps, is no longer than what is still to be done and what the other parties add to it; after a
run that leaves no loop a step to take, each loop polls, unless it has come to a connection that is
deleted, and no connection of a polling loop that is connected has anything left to read; and some
run of the loops' own steps comes to that. -/
theorem reactors_drain (hn : 0 < n) (hs : (machine n).Reachable s) :
    (∃ k, ∀ as s', (machine n).run s as = some s' →
      as.length ≤ k + (as.map Action.credit).sum) ∧
    (∀ as s', (machine n).run s as = some s' → ¬ (machine n).CanStep Action.Owed s' →
      Drained s') ∧
    ∃ as s', (∀ a ∈ as, a.Owed) ∧ (machine n).run s as = some s' ∧ Drained s' := by
  have hend : ∀ as s', (machine n).run s as = some s' →
      (¬ ∃ a : Action, a.Plain ∧ guard n s' a) → Drained s' := by
    intro as s' hrun hstuck
    have hs' := hs.run hrun
    exact drained_of_settled (confined_inductive.reachable hs') (notStranded_inductive.reachable hs')
      hstuck
  refine ⟨?_, ?_, ?_⟩
  · obtain ⟨N, M, h⟩ := exists_enclosed hn hs
    refine ⟨s.potential N M, ?_⟩
    intro as s' hrun
    -- connections that are accepted on the way have to be counted from the start
    obtain ⟨N₀, M₀, hwithin⟩ := exists_within as
    have hall := hwithin _ _ (Nat.le_max_left N₀ N) (Nat.le_max_left M₀ M)
    have hmono := h.mono (Nat.le_max_right N₀ N) (Nat.le_max_right M₀ M)
    have hlen := (potential hn).length_le as hmono
      ((Machine.restrict_run_eq_some as).mpr ⟨hall, hrun⟩)
    rw [h.potential_eq (Nat.le_max_right N₀ N) (Nat.le_max_right M₀ M)] at hlen
    omega
  · intro as s' hrun hstuck
    refine hend as s' hrun ?_
    rintro ⟨a, ha, hg⟩
    exact hstuck (Machine.guarded_canStep.mpr ⟨a, ha.1, hg⟩)
  · obtain ⟨as, s', hplain, hrun, hstuck⟩ := exists_settled hn hs
    exact ⟨as, s', fun a ha => (hplain a ha).1, hrun, hend as s' hrun hstuck⟩

theorem reactors_drain_twoConnections :
    ∃ s, (machine 4).Reachable s ∧ s.sub 1 = .reading 0 [] ∧
      ∃ as s', (machine 4).run s as = some s' ∧ Drained s' := by
  obtain ⟨s, hs, hp⟩ := Machine.exists_reachable_of_run (m := machine 4) rfl twoConnections
    (fun s : State => decide (s.sub 1 = .reading 0 [])) (by decide +kernel)
  have hsub : s.sub 1 = .reading 0 [] := of_decide_eq_true hp
  obtain ⟨-, -, as, s', -, hrun, hdrained⟩ := reactors_drain (by decide) hs
  exact ⟨s, hs, hsub, as, s', hrun, hdrained⟩

/-! ## What the callbacks have been shown -/

lemma Action.Harmless.local {a : Action} (h : a.Harmless) (s : State) : Local s a := by
  cases a with
  | message r c rest closes deletes =>
      rw [Local, h.1]
      simp
  | _ => trivial

lemma Action.Plain.sent {a : Action} (h : a.Plain) (s : State) (log : Log) :
    (record s a log).sent = log.sent := by
  cases a with
  | newConnection | send | shutdown => exact absurd h.1 id
  | handle r c mask rest =>
      simp only [record]
      split <;> rfl
  | _ => rfl

/-- Each byte sent to a connection has been shown to the callback, once and in order, if the
connection is still connected, its peer has sent no NUL, and its loop has not come to a deleted
connection. -/
def AllShown (s : State) (log : Log) : Prop :=
  ∀ c p, s.peer c = some p → ¬ s.AtDeleted p.loop → p.deleted = false →
    p.conn.state = .connected → 0 ∉ log.sent c → log.presented c = log.sent c

lemma allShown_of_drained {log : Log} (ht : Traced n (s, log)) (hd : Drained s) :
    AllShown s log := by
  intro c p hp hloop hdel hconn h0
  have hsub : s.sub p.loop = .polling := (hd.loops p.loop).resolve_right hloop
  have hempty := hd.empty c p hp hsub hdel hconn
  simp only [Peer.readable, Bool.or_eq_false_iff, Bool.not_eq_false', List.isEmpty_iff] at hempty
  have horder := (ht.sound c p hp).in_order hconn h0
  have hidle : (view s log c p).inHand = [] := by simp [View.inHand, view, hsub, SubPc.phase]
  rw [hidle] at horder
  simpa [view, hempty.1] using horder

/-- **Everything is delivered.**  After every run in which the callbacks close connections of their
own sub reactor only, and which leaves no loop a step to take, everything that was sent to the
connections of a loop has been shown to the callbacks, unless the loop has come to a deleted
connection.  And each such run can be continued to one like that, by the loops alone. -/
theorem all_delivered (hn : 0 < n) {as : List Action} {log : Log} (hrun : LocalRun n as s log) :
    (¬ (machine n).CanStep Action.Owed s → AllShown s log) ∧
    ∃ as' s' log', (∀ a ∈ as', a.Owed) ∧ LocalRun n (as ++ as') s' log' ∧
      log'.sent = log.sent ∧ ¬ (machine n).CanStep Action.Owed s' ∧ AllShown s' log' := by
  have hreach {as : List Action} {s : State} {log : Log} (h : LocalRun n as s log) :
      (machine n).Reachable s :=
    (Machine.Reachable.init (m := machine n) rfl).run (Machine.recorded_run h.2)
  have hshown {as : List Action} {s : State} {log : Log} (h : LocalRun n as s log)
      (hstuck : ¬ ∃ a : Action, a.Plain ∧ guard n s a) : AllShown s log :=
    allShown_of_drained h.traced (drained_of_settled (confined_inductive.reachable (hreach h))
      (notStranded_inductive.reachable (hreach h)) hstuck)
  refine ⟨fun hstuck => hshown hrun ?_, ?_⟩
  · rintro ⟨a, ha, hg⟩
    exact hstuck (Machine.guarded_canStep.mpr ⟨a, ha.1, hg⟩)
  · obtain ⟨as', s', hplain, hrun', hstuck⟩ := exists_settled hn (hreach hrun)
    obtain ⟨log', hlogged⟩ : ∃ log', (logged n).run (s, log) as' = some (s', log') :=
      Machine.exists_recorded_run log hrun'
    have hlocal : (logged n).Along (fun x => Local x.1) (s, log) as' :=
      Machine.along_guarded (I := fun _ => True) (P := fun _ a => a.Plain) (fun _ _ _ _ _ _ => trivial)
        (fun x a _ ha => ha.2.local x.1) as' trivial (Machine.along_of_forall as' hplain)
    have hsent : log'.sent = log.sent :=
      Machine.run_guarded (m := logged n) (I := fun x => x.2.sent = log.sent)
        (P := fun _ a => a.Plain) (fun x a x' hx ha hst => by
          obtain ⟨s, log⟩ := x
          obtain ⟨s', log'⟩ := x'
          obtain ⟨-, rfl⟩ := Machine.recorded_step_eq_some.mp hst
          exact (ha.sent s log).trans hx)
        as' rfl (Machine.along_of_forall as' hplain) hlogged
    have hall : LocalRun n (as ++ as') s' log' := by
      refine ⟨hrun.1.append as hrun.2 hlocal, ?_⟩
      rw [Machine.run_append, hrun.2]
      exact hlogged
    have hend : ¬ (machine n).CanStep Action.Owed s' := by
      rw [machine, Machine.guarded_canStep]
      rintro ⟨a, ha, hg⟩
      exact hstuck (plain_of_owed ha hg)
    exact ⟨as', s', log', fun a ha => (hplain a ha).1, hall, hsent, hend, hshown hall hstuck⟩

theorem all_delivered_interleaved :
    ∃ s log, LocalRun 4 interleaved s log ∧
      ∃ as' s' log', LocalRun 4 (interleaved ++ as') s' log' ∧ log'.sent = log.sent ∧
        ¬ (machine 4).CanStep Action.Owed s' ∧ AllShown s' log' := by
  obtain ⟨s, log, hrun, -⟩ := exists_localRun 4 interleaved (fun _ => true)
    (by decide +kernel) (by decide +kernel)
  obtain ⟨-, as', s', log', -, hrun', hsent, hend, hshown⟩ := all_delivered (by decide) hrun
  exact ⟨s, log, hrun, as', s', log', hrun', hsent, hend, hshown⟩

end CppServer.EdgeTriggered
