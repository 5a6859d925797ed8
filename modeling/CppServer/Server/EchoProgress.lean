import CppServer.Server.EchoService

/-!
# The echo service comes to rest

When nobody types or leaves, the service has finitely many steps left.  Where it has none, every
client is accepted and has read what was sent to it.  If its connection is still intact, every line
is back, and a client that is not at its prompt has typed an empty line: its `Write` sent nothing
and its `Read` waits for an answer to nothing.

* `pending_step` — each step of the service itself is paid for.
* `service_settles` — the service comes to rest, and how.
* `empty_line_hangs` — a client whose answers have all been shown does not come back from an empty
  line, unless its connection fails.
-/

namespace CppServer.EchoService

open Answering (may_iff move_eq act_reply act_net)
open Connection (replyOf readBufferCstr)
open EdgeTriggered
open Function (update update_self update_of_ne)

/-- A step that the service takes by itself: nobody connects, types or leaves, and no `Read` of a
client fails. -/
def Move.Owed : Move → Prop
  | .hear _ (.ok (_ :: _)) => True
  | .arrive _ _ => True
  | .finish _ => True
  | .serve (.net (.newConnection _ _ _ _)) => True
  | .serve (.net a) => a.Owed
  | .serve (.reply _ _ _ _) => True
  | _ => False

instance : DecidablePred Move.Owed
  | .connect _ _ => isFalse id
  | .say _ _ => isFalse id
  | .leave _ => isFalse id
  | .hear _ (.ok (_ :: _)) => isTrue trivial
  | .hear _ (.ok []) => isFalse id
  | .hear _ (.error _) => isFalse id
  | .arrive _ _ => isTrue trivial
  | .finish _ => isTrue trivial
  | .serve (.reply _ _ _ _) => isTrue trivial
  | .serve (.net a) =>
      match a with
      | .newConnection _ _ _ _ => isTrue trivial
      | .send _ _ => isFalse id
      | .shutdown _ => isFalse id
      | .poll _ batch => inferInstanceAs (Decidable (batch ≠ []))
      | .dropEdge _ _ => isTrue trivial
      | .handle _ _ _ _ => isTrue trivial
      | .read _ _ _ answer => inferInstanceAs (Decidable (answer ≠ .error .EINTR))
      | .message _ _ _ _ _ => isTrue trivial
      | .endOfBatch _ => isTrue trivial

variable {n N M : ℕ} {σ σ' : Service} {m : Move} {c : ℕ} {k : Client}
  {a : EdgeTriggered.Action} {data : List UInt8} {log : Log}

lemma Move.Owed.net (h : a.Owed) : Move.Owed (.serve (.net a)) := by
  cases a with
  | newConnection => trivial
  | _ => exact h

/-! ## What is still to be done -/

/-- What a client brings in: its connection, the segments that are on their way, the end of file
behind them, and an answer to read. -/
def Client.pending (o : Option Peer) (k : Client) : ℕ :=
  8 * k.up.length + (if o.isSome then 0 else 7) + (if o.any Peer.fin then 0 else 7) +
    match k.pc with
    | .reading _ => 1
    | _ => 0

def Service.pending (σ : Service) (c : ℕ) : ℕ :=
  (σ.client c).elim 0 (Client.pending (σ.net.peer c))

/-- The steps the service has before it. -/
def Service.potential (N M : ℕ) (σ : Service) : ℕ :=
  σ.net.potential N M + ∑ c ∈ Finset.range N, σ.pending c

/-- Nothing is outside the first `N` clients and the first `M` loops. -/
structure Inside (n N M : ℕ) (σ : Service) : Prop where
  inv : Inv n σ
  net : Enclosed n N M σ.net
  clients : ∀ c, N ≤ c → σ.client c = none

lemma Inside.client_lt (h : Inside n N M σ) (hk : σ.client c = some k) : c < N := by
  by_contra hc
  rw [h.clients c (Nat.le_of_not_lt hc)] at hk
  simp at hk

/-- A step that changes what one client brings in. -/
lemma Service.potential_le (hc : c < N) {j : ℕ}
    (hother : ∀ d, d ≠ c → σ'.pending d = σ.pending d)
    (hthis : σ'.net.potential N M + σ'.pending c + j ≤ σ.net.potential N M + σ.pending c) :
    σ'.potential N M + j ≤ σ.potential N M := by
  have hsum := sum_others (Finset.mem_range.mpr hc) hother
  simp only [Service.potential]
  omega

/-- A client reads its answer. -/
lemma hear_pays (h : Inside n N M σ) {b : UInt8} {bs : List UInt8}
    (hm : mayTake n σ (.hear c (.ok (b :: bs)))) :
    (take n σ (.hear c (.ok (b :: bs)))).potential N M + 1 ≤ σ.potential N M := by
  obtain ⟨k, hk, hmay⟩ := (Option.any_eq_true _ _).mp hm
  obtain ⟨as, log, -, hlinked⟩ := h.inv
  have hsound := hlinked.sound c k hk
  obtain ⟨line, hpc⟩ := Client.reading_of_mayHear hmay
  obtain ⟨conn, -, hhear⟩ := Client.hear_eq (hsound.connected line hpc) hsound.blocking
    (hlinked.down_nulFree hk) hmay
  refine Service.potential_le (h.client_lt hk) (fun d hd => ?_) ?_
  · simp only [Service.pending, take, modify_other hd]
  · simp only [Service.pending, take, modify_self hk, hk, Option.elim_some, hhear, Client.pending,
      hpc]
    omega

/-- A segment arrives. -/
lemma arrive_pays (h : Inside n N M σ) (hn : 0 < n) (hm : mayTake n σ (.arrive c data)) :
    (take n σ (.arrive c data)).potential N M + 1 ≤ σ.potential N M := by
  obtain ⟨hmay, -, hg⟩ := hm
  obtain ⟨k, hk, hdata⟩ := (Option.any_eq_true _ _).mp hmay
  rw [List.isPrefixOf_iff_prefix] at hdata
  obtain ⟨q, hq, -, hfin⟩ := exists_peer_of_live hg.2
  rw [Bool.not_eq_true'] at hfin
  have hnet := potential_step h.net hn (show Action.Within N M (.send c data) from trivial) hg
  have hpos : 0 < data.length := List.length_pos_of_ne_nil hg.1
  have hlen := hdata.length_le
  have hpeer : (effect n σ.net (.send c data)).peer c = some (q.arrive data false) := by
    simp only [effect, State.modify, update_self, hq, Option.map_some]
  refine Service.potential_le (h.client_lt hk) (fun d hd => ?_) ?_
  · simp only [Service.pending, take, modify_other hd, effect, State.modify]
    rw [update_of_ne hd]
  · simp only [Service.pending, take, modify_self hk, hk, Option.elim_some, Client.pending, hpeer,
      hq, Option.isSome_some, if_true, Option.any_some, Peer.arrive, hfin, Bool.or_false,
      List.length_drop, Action.credit] at hnet ⊢
    omega

/-- End of file arrives. -/
lemma finish_pays (h : Inside n N M σ) (hn : 0 < n) (hm : mayTake n σ (.finish c)) :
    (take n σ (.finish c)).potential N M + 1 ≤ σ.potential N M := by
  obtain ⟨hmay, hg⟩ := hm
  obtain ⟨k, hk, -⟩ := (Option.any_eq_true _ _).mp hmay
  obtain ⟨q, hq, -, hfin⟩ := exists_peer_of_live hg
  rw [Bool.not_eq_true'] at hfin
  have hnet := potential_step h.net hn (show Action.Within N M (.shutdown c) from trivial) hg
  have hpeer : (effect n σ.net (.shutdown c)).peer c = some (q.arrive [] true) := by
    simp only [effect, State.modify, update_self, hq, Option.map_some]
  refine Service.potential_le (h.client_lt hk) (fun d hd => ?_) ?_
  · simp only [Service.pending, take, effect, State.modify]
    rw [update_of_ne hd]
  · simp only [Service.pending, take, hk, Option.elim_some, Client.pending, hpeer, hq,
      Option.isSome_some, if_true, Option.any_some, Peer.arrive, hfin, Bool.false_or,
      Action.credit, Bool.false_eq_true, if_false] at hnet ⊢
    omega

/-- A connection is accepted, with what waits for it. -/
lemma accept_pays (h : Inside n N M σ) (hn : 0 < n) {fd : ℕ} {queue : List UInt8} {fin : Bool}
    (hm : mayTake n σ (.serve (.net (.newConnection c fd queue fin)))) :
    (take n σ (.serve (.net (.newConnection c fd queue fin)))).potential N M + 1 ≤
      σ.potential N M := by
  obtain ⟨hg, hs⟩ := hm
  have hg : guard n σ.net (.newConnection c fd queue fin) := hg
  obtain ⟨k, hk, hserves⟩ := (Option.any_eq_true _ _).mp hs
  simp only [Bool.and_eq_true, List.isPrefixOf_iff_prefix] at hserves
  have hc := h.client_lt hk
  have hnet := potential_step h.net hn
    (show Action.Within N M (.newConnection c fd queue fin) from hc) hg
  have hlen := hserves.1.1.length_le
  have heffect : Answering.move readBufferCstr n σ.net (.net (.newConnection c fd queue fin))
      = effect n σ.net (.newConnection c fd queue fin) := rfl
  have hpeer : (effect n σ.net (.newConnection c fd queue fin)).peer c
      = some (.new n fd queue fin) := update_self _ _ _
  refine Service.potential_le hc (fun d hd => ?_) ?_
  · simp only [Service.pending, take, heffect, Service.served, modify_other hd, effect]
    rw [update_of_ne hd]
  · simp only [Service.pending, take, heffect, Service.served, modify_self hk, hk,
      Option.elim_some, Client.pending, hpeer, hg.1, Option.isSome_some, if_true,
      Option.isSome_none, Bool.false_eq_true, if_false, Option.any_none, List.length_drop,
      Action.credit] at hnet ⊢
    split <;> omega

/-- A step that makes no connection leaves what the connections bring in. -/
lemma Service.pending_same {s t : EdgeTriggered.State} (hborn : ∀ d p, s.peer d = some p →
      ∃ p', t.peer d = some p')
    (hlater : ∀ d p', t.peer d = some p' → ∃ p, s.peer d = some p ∧ Later p p') (d : ℕ)
    (k : Client) : k.pending (t.peer d) = k.pending (s.peer d) := by
  cases hp' : t.peer d with
  | none =>
      cases hp : s.peer d with
      | none => rfl
      | some p =>
          obtain ⟨p', hsome⟩ := hborn d p hp
          rw [hp'] at hsome
          simp at hsome
  | some p' =>
      obtain ⟨p, hp, h⟩ := hlater d p' hp'
      rw [hp]
      simp only [Client.pending, Option.isSome_some, Option.any_some, h.fin]

/-- A reactor takes a step. -/
lemma quiet_pays (h : Inside n N M σ) (hn : 0 < n) (hquiet : Quiet a) (howed : a.Owed)
    (hg : guard n σ.net a) :
    ({ net := effect n σ.net a, client := σ.client } : Service).potential N M + 1 ≤
      σ.potential N M := by
  have hnet := potential_step h.net hn (howed.within N M) hg
  rw [howed.credit_eq] at hnet
  have hpending : ∀ d, ({ net := effect n σ.net a, client := σ.client } : Service).pending d
      = σ.pending d := by
    intro d
    simp only [Service.pending]
    congr 1
    funext k
    exact Service.pending_same (fun d p hp => (peer_step hg hp).imp fun _ => And.left)
      (fun d p' => later_of_quiet hquiet hg) d k
  simp only [Service.potential, hpending]
  omega

/-- The callback replies. -/
lemma reply_pays (h : Inside n N M σ) (hn : 0 < n) {r : ℕ} {rest : List (ℕ × UInt32)}
    {writes : List WriteResult}
    (hm : mayTake n σ (.serve (.reply r c rest writes))) :
    (take n σ (.serve (.reply r c rest writes))).potential N M + 1 ≤ σ.potential N M := by
  obtain ⟨a, ha, hg⟩ := may_iff.mp hm.1
  obtain ⟨p, o, hp, ho, rfl⟩ := act_reply.mp ha
  have hnet := potential_step (a := .message r c rest _ []) h.net hn trivial hg
  have hpending : ∀ d, (take n σ (.serve (.reply r c rest writes))).pending d = σ.pending d := by
    intro d
    have hpeer := Service.pending_same (s := σ.net) (t := effect n σ.net _)
      (fun d p hp => (peer_step hg hp).imp fun _ => And.left) (fun d p' hp' => by
        obtain ⟨p, hp, rfl⟩ := Option.map_eq_some_iff.mp hp'
        exact ⟨p, hp, later_of_touched _ d p⟩) d
    simp only [Service.pending, take, move_eq ha, Service.served, hp, ho, Option.elim_some]
    by_cases hd : d = c
    · subst hd
      cases hk : σ.client d with
      | none => rw [modify_none hk]; rfl
      | some k =>
          rw [modify_self hk, Option.elim_some, Option.elim_some, ← hpeer]
          rfl
    · rw [modify_other hd]
      congr 1
      funext k
      exact hpeer k
  simp only [Action.credit] at hnet
  simp only [Service.potential, hpending]
  rw [take, move_eq ha]
  dsimp only
  omega

/-- **Each step of the service itself is paid for.** -/
theorem pending_step (h : Inside n N M σ) (hn : 0 < n) (howed : m.Owed) (hm : mayTake n σ m) :
    (take n σ m).potential N M + 1 ≤ σ.potential N M := by
  cases m with
  | connect | say | leave => exact absurd howed id
  | hear c answer =>
      match answer with
      | .ok [] => exact absurd howed id
      | .ok (b :: bs) => exact hear_pays h hm
      | .error _ => exact absurd howed id
  | arrive c data => exact arrive_pays h hn hm
  | finish c => exact finish_pays h hn hm
  | serve m =>
      obtain ⟨a, ha, hg⟩ := may_iff.mp hm.1
      cases m with
      | reply r c rest writes => exact reply_pays h hn hm
      | net b =>
          obtain ⟨rfl, hne⟩ := act_net.mp ha
          cases a with
          | newConnection c fd queue fin => exact accept_pays h hn hm
          | send | shutdown => exact absurd howed id
          | message r c rest closes deletes => exact absurd rfl (hne r c rest closes deletes)
          | _ =>
              rw [take, move_eq ha]
              exact quiet_pays h hn trivial howed hg

/-- What the reactors do in a step of the service. -/
lemma take_net (hm : mayTake n σ m) : (take n σ m).net = σ.net ∨
    ∃ a, guard n σ.net a ∧ (take n σ m).net = effect n σ.net a ∧
      ((∃ c fd queue fin, a = .newConnection c fd queue fin ∧ (σ.client c).isSome) ∨
        (∀ N M : ℕ, m.Owed → a.Within N M)) := by
  cases m with
  | connect | say | hear | leave => exact .inl rfl
  | arrive c data => exact .inr ⟨_, hm.2.2, rfl, .inr fun _ _ _ => trivial⟩
  | finish c => exact .inr ⟨_, hm.2, rfl, .inr fun _ _ _ => trivial⟩
  | serve m =>
      obtain ⟨a, ha, hg⟩ := may_iff.mp hm.1
      refine .inr ⟨a, hg, move_eq ha, ?_⟩
      cases m with
      | reply r c rest writes =>
          obtain ⟨p, o, -, -, rfl⟩ := act_reply.mp ha
          exact .inr fun _ _ _ => trivial
      | net b =>
          obtain ⟨rfl, -⟩ := act_net.mp ha
          cases a with
          | newConnection c fd queue fin =>
              obtain ⟨k, hk, -⟩ := (Option.any_eq_true _ _).mp hm.2
              exact .inl ⟨c, fd, queue, fin, rfl, by rw [hk]; rfl⟩
          | poll r batch => exact .inr fun _ _ howed hnil => absurd hnil howed
          | _ => exact .inr fun _ _ _ => trivial

/-- Nobody comes in a step of the service but a client that connects. -/
lemma take_none (hm : mayTake n σ m) (hc : σ.client c = none)
    (hne : ∀ fd, m ≠ .connect c fd) : (take n σ m).client c = none := by
  cases m with
  | connect d fd =>
      have hd : c ≠ d := by
        rintro rfl
        exact hne fd rfl
      simp only [take]
      rw [update_of_ne hd, hc]
  | say | hear | leave | arrive => exact modify_none hc
  | finish => exact hc
  | serve m =>
      cases m with
      | reply r d rest writes =>
          obtain ⟨a, ha, -⟩ := may_iff.mp hm.1
          obtain ⟨p, o, hp, ho, -⟩ := act_reply.mp ha
          simp only [take, Service.served, hp, ho, Option.elim_some]
          exact modify_none hc
      | net a =>
          cases a with
          | newConnection => exact modify_none hc
          | _ => exact hc

lemma inside_step (h : Inside n N M σ) (hn : 0 < n) (howed : m.Owed) (hm : mayTake n σ m) :
    Inside n N M (take n σ m) where
  inv := inv_step h.inv hm
  net := by
    rcases take_net hm with hsame | ⟨a, hg, hnet, hwithin⟩
    · rw [hsame]
      exact h.net
    · rw [hnet]
      refine enclosed_step h.net hn ?_ hg
      rcases hwithin with ⟨c, fd, queue, fin, rfl, hc⟩ | hwithin
      · obtain ⟨k, hk⟩ := Option.isSome_iff_exists.mp hc
        exact h.client_lt hk
      · exact hwithin N M howed
  clients c hc := take_none hm (h.clients c hc) fun fd hm' => by
    subst hm'
    exact absurd howed id

theorem potential (hn : 0 < n) : ((service n).restrict Move.Owed).Potential (Inside n N M)
    (fun _ => 0) (Service.potential N M) where
  invariant σ m σ' h hst := by
    obtain ⟨howed, hst⟩ := Machine.restrict_step_eq_some.mp hst
    obtain ⟨hm, rfl⟩ := Machine.guarded_step_eq_some.mp hst
    exact inside_step h hn howed hm
  pays σ m σ' h hst := by
    obtain ⟨howed, hst⟩ := Machine.restrict_step_eq_some.mp hst
    obtain ⟨hm, rfl⟩ := Machine.guarded_step_eq_some.mp hst
    exact pending_step h hn howed hm

/-- The reactors of the service are in a state they reach by themselves. -/
lemma Inv.reachable (h : Inv n σ) : (machine n).Reachable σ.net := by
  obtain ⟨as, log, hrun, -⟩ := h
  exact (Machine.Reachable.init (m := machine n) rfl).run (Machine.recorded_run hrun.2)

/-- Finitely many clients have come so far. -/
lemma exists_clients (hs : (service n).Reachable σ) : ∃ N, ∀ c, N ≤ c → σ.client c = none := by
  induction hs with
  | init hinit =>
      rw [show _ = ({} : Service) from hinit]
      exact ⟨0, fun _ _ => rfl⟩
  | @step σ σ' m _ hst ih =>
      obtain ⟨hm, rfl⟩ := Machine.guarded_step_eq_some.mp hst
      obtain ⟨N, hN⟩ := ih
      cases m with
      | connect c fd =>
          refine ⟨max N (c + 1), fun d hd => take_none hm (hN d (by omega)) fun fd' heq => ?_⟩
          rw [Move.connect.injEq] at heq
          omega
      | _ => exact ⟨N, fun d hd => take_none hm (hN d hd) (by simp)⟩

lemma exists_inside (hn : 0 < n) (hs : (service n).Reachable σ) : ∃ N M, Inside n N M σ := by
  have hinv := inv_inductive.reachable hs
  obtain ⟨N, M, hnet⟩ := exists_enclosed hn hinv.reachable
  obtain ⟨N', hclients⟩ := exists_clients hs
  exact ⟨max N N', M, hinv, hnet.mono (Nat.le_max_left N N') le_rfl,
    fun c hc => hclients c (Nat.le_trans (Nat.le_max_right N N') hc)⟩

/-! ## At rest -/

/-- Every client is accepted and has read what was sent to it.  If its connection is intact, all
its lines are back, and it is at its prompt, perhaps with a rest of the answer still to be read, or
it has typed an empty line when all it had typed before had been shown. -/
def Answered (σ : Service) : Prop :=
  ∀ c k, σ.client c = some k → (σ.net.peer c).isSome ∧
    (∀ line, k.pc = .reading line → k.down = []) ∧
    (σ.Intact c k → k.shown ++ k.down = k.typed ∧
      (k.pc = .prompt ∨ k.pc = .reading [] ∧ k.shown = k.typed))

/-- The callback may send its whole reply. -/
lemma reply_owed {as : List EdgeTriggered.Action} (hrun : LocalRun n as σ.net log)
    (h : Linked σ log) {r : ℕ} {rest : List (ℕ × UInt32)}
    (hg : guard n σ.net (.message r c rest [] [])) :
    ∃ m : Move, m.Owed ∧ mayTake n σ m := by
  obtain ⟨p, hp, -⟩ := exists_peer_of_live hg.2
  have hconf := hrun.traced.confined
  obtain ⟨writes, o, ho, hstate, -⟩ :=
    Connection.exists_replyOf readBufferCstr (hconf.nonBlocking c p hp) fun hconn => by
      obtain ⟨k, hk, htied⟩ := h.accepted c p hp
      have hroom := htied.room hconn
      have hread := (presented_begins hrun h hg.1 hp hconn).length_le
      have hreply := (reply_begins p.conn).length_le
      rw [List.length_append] at hread
      simp only [WRITE_LIMIT] at hroom
      omega
  exact ⟨.serve (.reply r c rest writes), trivial,
    may_iff.mpr ⟨_, act_reply.mpr ⟨p, o, hp, ho, rfl⟩, by rw [if_pos hstate]; exact hg⟩, rfl⟩

/-- What a reactor can do, the service can. -/
lemma plain_owed {as : List EdgeTriggered.Action} (hrun : LocalRun n as σ.net log)
    (h : Linked σ log) (ha : a.Plain) (hg : guard n σ.net a) :
    ∃ m : Move, m.Owed ∧ mayTake n σ m := by
  obtain ⟨howed, hharmless⟩ := ha
  cases a with
  | newConnection | send | shutdown => exact absurd howed id
  | message r c rest closes deletes =>
      obtain ⟨rfl, rfl⟩ := hharmless
      exact reply_owed hrun h hg
  | _ =>
      exact ⟨.serve (.net _), .net howed, may_iff.mpr ⟨_, act_net.mpr ⟨rfl, by simp⟩, hg⟩, rfl⟩

/-- At rest nothing is left at the server, and nothing on the way to it, of a client whose
connection has not been closed there; and the client has not left. -/
lemma rest_of_settled {p : Peer} (h : Linked σ log) (hd : Drained σ.net)
    (hstuck : ¬ ∃ m : Move, m.Owed ∧ mayTake n σ m) (hk : σ.client c = some k)
    (hp : σ.net.peer c = some p) (hconn : p.conn.state = .connected) :
    σ.atServer c = [] ∧ k.up = [] ∧ k.pc ≠ .left := by
  have htied := h.tied hk hp
  have hpolling : σ.net.sub p.loop = .polling := by
    refine (hd.loops p.loop).resolve_right ?_
    rintro ⟨d, q, -, hq, hdel⟩
    obtain ⟨_, _, hkept⟩ := h.accepted d q hq
    rw [hkept.kept] at hdel
    simp at hdel
  have hempty := hd.empty c p hp hpolling htied.kept hconn
  simp only [Peer.readable, Bool.or_eq_false_iff, Bool.not_eq_false', List.isEmpty_iff] at hempty
  have hserver : σ.atServer c = [] := by
    simp [Service.atServer, hp, hpolling, SubPc.phase, hempty.1]
  have hup : k.up = [] := by
    by_contra hne
    obtain ⟨b, bs, hbs⟩ := List.exists_cons_of_ne_nil hne
    refine hstuck ⟨.arrive c [b], trivial, ?_, ?_, List.cons_ne_nil _ _,
      live_of hp htied.kept (by simp [hempty.2])⟩
    · simp [hk, hbs]
    · simp [hserver, WRITE_LIMIT]
  refine ⟨hserver, hup, fun hleft => hstuck ⟨.finish c, trivial, ?_, ?_⟩⟩
  · simp [hk, hleft, hup]
  · exact live_of hp htied.kept (by simp [hempty.2])

/-- **The service at rest.**  No connection is deleted, so the loops poll, and nothing is left to
read; and a client that waits for the answer to a line that is not empty has something to read. -/
theorem answered_of_settled (hn : 0 < n) (h : Inv n σ)
    (hstuck : ¬ ∃ m : Move, m.Owed ∧ mayTake n σ m) : Answered σ := by
  have hreach := h.reachable
  obtain ⟨as, log, hrun, hlinked⟩ := h
  have hdrained : Drained σ.net := by
    refine drained_of_settled (confined_inductive.reachable hreach)
      (notStranded_inductive.reachable hreach) ?_
    rintro ⟨a, ha, hg⟩
    exact hstuck (plain_owed hrun hlinked ha hg)
  intro c k hk
  have hsound := hlinked.sound c k hk
  obtain ⟨p, hp⟩ : ∃ p, σ.net.peer c = some p := by
    cases hp : σ.net.peer c with
    | some p => exact ⟨p, rfl⟩
    | none =>
        refine absurd ⟨.serve (.net (.newConnection c 0 [] false)), trivial, ?_, ?_⟩ hstuck
        · exact may_iff.mpr ⟨_, act_net.mpr ⟨rfl, by simp⟩, hp, hn⟩
        · simp [Service.serves, hk, WRITE_LIMIT]
  have hread : ∀ line, k.pc = .reading line → k.down = [] := by
    intro line hpc
    by_contra hne
    obtain ⟨b, bs, hbs⟩ := List.exists_cons_of_ne_nil hne
    refine hstuck ⟨.hear c (.ok (b :: bs)), trivial, ?_⟩
    simp [mayTake, hk, Client.mayHear, hpc, hbs]
  refine ⟨by rw [hp]; rfl, hread, fun hintact => ?_⟩
  have hconn := hintact.1 p hp
  have htied := hlinked.tied hk hp
  obtain ⟨hserver, hup, hstays⟩ := rest_of_settled hlinked hdrained hstuck hk hp hconn
  have hback : k.shown ++ k.down = k.typed := by
    have hflight := in_flight hrun hlinked hp hconn
    rw [hserver, List.append_nil] at hflight
    rw [htied.whole hconn hintact.2, hflight, ← htied.typed, hup, List.append_nil]
  refine ⟨hback, ?_⟩
  cases hpc : k.pc with
  | prompt => exact .inl rfl
  | left => exact absurd hpc hstays
  | reading line =>
      right
      rw [hread line hpc, List.append_nil] at hback
      refine ⟨?_, hback⟩
      by_contra hne
      have hasked := hsound.asked line hpc fun hnil => hne (by rw [hnil])
      rw [hback] at hasked
      exact Nat.lt_irrefl _ hasked

/-- **The service comes to rest.**  From every reachable state of the echo service, with any number
of clients: while nobody connects, types or leaves, and no `Read` of a client fails, a run has a
bounded number of steps.  Where none is left each client has read what was sent to it, and if its
connection is intact, each of its lines is back, and it is at its prompt unless it has typed an
empty line; and some run comes to that. -/
theorem service_settles (hn : 0 < n) (hs : (service n).Reachable σ) :
    (∃ b, ∀ ms σ', (∀ m ∈ ms, m.Owed) → (service n).run σ ms = some σ' → ms.length ≤ b) ∧
    (∀ ms σ', (service n).run σ ms = some σ' → ¬ (service n).CanStep Move.Owed σ' →
      Answered σ') ∧
    ∃ ms σ', (∀ m ∈ ms, m.Owed) ∧ (service n).run σ ms = some σ' ∧ Answered σ' := by
  obtain ⟨N, M, h⟩ := exists_inside hn hs
  have hend : ∀ ms σ', (service n).run σ ms = some σ' → ¬ (service n).CanStep Move.Owed σ' →
      Answered σ' := by
    intro ms σ' hrun hstuck
    refine answered_of_settled hn (inv_inductive.reachable (hs.run hrun)) ?_
    rintro ⟨m, howed, hm⟩
    exact hstuck (Machine.guarded_canStep.mpr ⟨m, howed, hm⟩)
  refine ⟨⟨σ.potential N M, ?_⟩, hend, ?_⟩
  · intro ms σ' howed hrun
    have hlen := (potential hn).length_le ms h
      ((Machine.restrict_run_eq_some ms).mpr ⟨howed, hrun⟩)
    have hzero : (ms.map fun _ => 0).sum = 0 := by simp
    omega
  · obtain ⟨ms, σ', howed, hrun, hstuck⟩ :=
      (potential (N := N) (M := M) hn).exists_settled (P := Move.Owed) (fun _ _ => rfl) _ le_rfl h
    have hrun' := ((Machine.restrict_run_eq_some ms).mp hrun).2
    refine ⟨ms, σ', howed, hrun', hend ms σ' hrun' ?_⟩
    rintro ⟨m, hm, hstep⟩
    refine hstuck ⟨m, hm, ?_⟩
    obtain ⟨τ, hτ⟩ := Option.isSome_iff_exists.mp hstep
    exact Option.isSome_iff_exists.mpr ⟨τ, Machine.restrict_step_eq_some.mpr ⟨hm, hτ⟩⟩

theorem service_settles_cutUp :
    ∃ σ k, (service 4).Reachable σ ∧ σ.client 0 = some k ∧ k.pc = .reading [106] ∧
      ∃ ms σ', (service 4).run σ ms = some σ' ∧ Answered σ' := by
  obtain ⟨σ, hs, hp⟩ := Machine.exists_reachable_of_run (m := service 4) rfl cutUp
    (fun σ : Service => (σ.client 0).any fun k : Client => decide (k.pc = .reading [106]))
    (by decide +kernel)
  obtain ⟨k, hk, hp⟩ := (Option.any_eq_true _ _).mp hp
  obtain ⟨-, -, ms, σ', -, hrun, hanswered⟩ := service_settles (by decide) hs
  exact ⟨σ, k, hs, hk, of_decide_eq_true hp, ms, σ', hrun, hanswered⟩

/-! ## An empty line -/

/-- The `Read` of client `c` ends without an answer, or the client comes to its end. -/
def Move.Ends (c : ℕ) : Move → Prop
  | .hear d (.ok []) => d = c
  | .hear d (.error _) => d = c
  | .leave d => d = c
  | _ => False

/-- Nothing more comes for a client to which all it has typed has been shown. -/
lemma Linked.nothing_left (h : Linked σ log) (hk : σ.client c = some k)
    (hshown : k.shown = k.typed) : k.down = [] ∧ k.up = [] := by
  have hanswered := (h.answered hk).length_le
  rw [List.length_append, hshown] at hanswered
  refine ⟨List.eq_nil_of_length_eq_zero (by omega), ?_⟩
  cases hp : σ.net.peer c with
  | none =>
      obtain ⟨hnone, hup⟩ := h.waiting c k hk hp
      rw [hup, ← hshown]
      exact (List.append_eq_nil_iff.mp hnone).1
  | some p =>
      have htied := h.tied hk hp
      have hsent := htied.answered.length_le
      have htyped := congrArg List.length htied.typed
      rw [List.length_append] at hsent htyped
      rw [hshown] at hsent
      exact List.eq_nil_of_length_eq_zero (by omega)

/-- The callback has nothing to send back to such a client. -/
lemma reply_nothing {as : List EdgeTriggered.Action} (hrun : LocalRun n as σ.net log)
    (h : Linked σ log) {r : ℕ} {rest : List (ℕ × UInt32)} {writes : List WriteResult}
    {o : Connection.WriteOutcome} {p : Peer} (hsub : σ.net.sub r = .messaging c rest)
    (hk : σ.client c = some k) (hp : σ.net.peer c = some p) (hshown : k.shown = k.typed)
    (ho : replyOf readBufferCstr p.conn writes = some o) : k.reply p.conn o = k := by
  have htied := h.tied hk hp
  by_cases hconn : p.conn.state = .connected
  · have hnil : p.conn.readBuffer.buf = [] := by
      have hfollows := (htied.follows hconn).length_le
      have hpresented := (presented_begins hrun h hsub hp hconn).length_le
      have htyped := congrArg List.length htied.typed
      rw [List.length_append] at hfollows hpresented htyped
      rw [hshown] at hfollows
      exact List.eq_nil_of_length_eq_zero (by omega)
    have haccepted : o.accepted = [] := by
      have hreply := (Connection.replyOf_connected hconn
        (hrun.traced.confined.nonBlocking c p hp) ho).1.trans (reply_begins p.conn)
      rw [hnil] at hreply
      exact List.prefix_nil.mp hreply
    simp [Client.reply, haccepted, hnil]
  · simp [Client.reply, hconn, (Connection.replyOf_closed hconn ho).2]

/-- **One step leaves such a client where it is.** -/
lemma hangs_step (h : Inv n σ) (hm : mayTake n σ m) (hends : ¬ m.Ends c)
    (hk : σ.client c = some k) (hpc : k.pc = .reading []) (hshown : k.shown = k.typed) :
    (take n σ m).client c = some k := by
  obtain ⟨as, log, hrun, hlinked⟩ := h
  obtain ⟨hdown, hup⟩ := hlinked.nothing_left hk hshown
  have own {P : Client → Bool} {d : ℕ} (hmay : (σ.client d).any P = true) (hd : c = d) :
      P k = true := by
    rwa [← hd, hk, Option.any_some] at hmay
  cases m with
  | connect d fd =>
      have hd : c ≠ d := by
        rintro rfl
        rw [show σ.client c = none from hm] at hk
        simp at hk
      simp only [take]
      rw [update_of_ne hd, hk]
  | say d line =>
      have hd : c ≠ d := fun hd => by simpa [Client.maySay, hpc] using own hm.1 hd
      exact (modify_other hd).trans hk
  | hear d answer =>
      have hd : c ≠ d := by
        intro hd
        have hmay := own (P := (Client.mayHear · answer)) hm hd
        rcases answer with e | ⟨_ | ⟨b, bs⟩⟩
        · exact hends hd.symm
        · exact hends hd.symm
        · simp [Client.mayHear, hdown] at hmay
      exact (modify_other hd).trans hk
  | leave d => exact (modify_other fun hd => hends hd.symm).trans hk
  | arrive d data =>
      have hd : c ≠ d := by
        intro hd
        have hdata := own (P := fun k => data.isPrefixOf k.up) hm.1 hd
        rw [hup, List.isPrefixOf_iff_prefix, List.prefix_nil] at hdata
        exact hm.2.2.1 hdata
      exact (modify_other hd).trans hk
  | finish d => exact hk
  | serve m =>
      cases m with
      | reply r d rest writes =>
          obtain ⟨a, ha, hg⟩ := may_iff.mp hm.1
          obtain ⟨p, o, hp, ho, rfl⟩ := act_reply.mp ha
          simp only [take, Service.served, hp, ho, Option.elim_some]
          by_cases hd : c = d
          · subst hd
            rw [modify_self hk, reply_nothing hrun hlinked hg.1 hk hp hshown ho]
          · exact (modify_other hd).trans hk
      | net a =>
          cases a with
          | newConnection d fd queue fin =>
              by_cases hd : c = d
              · subst hd
                refine (modify_self hk).trans ?_
                rw [hup, List.drop_nil, ← hup]
              · exact (modify_other hd).trans hk
          | _ => exact hk

/-- **An empty line hangs the client.**  `WriteBlocking` sends nothing for it, and `ReadBlocking`
waits for an answer.  In every reachable state: a client that has typed an empty line, and to which
all it had typed before has been shown, stays as it is, whatever the server and the other clients
do, until its `Read` meets end of file or an error, or the client is ended. -/
theorem empty_line_hangs (hs : (service n).Reachable σ) (hk : σ.client c = some k)
    (hpc : k.pc = .reading []) (hshown : k.shown = k.typed) (ms : List Move)
    (hends : ∀ m ∈ ms, ¬ m.Ends c) (hrun : (service n).run σ ms = some σ') :
    σ'.client c = some k := by
  have hstep : ∀ (σ : Service) (m : Move) (σ' : Service), Inv n σ ∧ σ.client c = some k →
      ¬ m.Ends c → (service n).step σ m = some σ' → Inv n σ' ∧ σ'.client c = some k := by
    intro σ m σ' h hends hst
    obtain ⟨hm, rfl⟩ := Machine.guarded_step_eq_some.mp hst
    exact ⟨inv_step h.1 hm, hangs_step h.1 hm hends h.2 hpc hshown⟩
  exact (Machine.run_guarded (P := fun _ (m : Move) => ¬ m.Ends c) hstep ms
    ⟨inv_inductive.reachable hs, hk⟩ (Machine.along_of_forall ms hends) hrun).2

/-- The first thing a client does is to press return. -/
def pressesReturn : List Move :=
  [.connect 0 7, .serve (.net (.newConnection 0 5 [] false)), .say 0 []]

theorem empty_line_hangs_pressesReturn :
    ∃ σ k, (service 4).Reachable σ ∧ k.pc = .reading [] ∧
      ∀ (ms : List Move) (σ' : Service), (∀ m ∈ ms, ¬ m.Ends 0) →
        (service 4).run σ ms = some σ' → σ'.client 0 = some k := by
  obtain ⟨σ, hs, hp⟩ := Machine.exists_reachable_of_run (m := service 4) rfl pressesReturn
    (fun σ : Service => (σ.client 0).any fun k : Client =>
      decide (k.pc = .reading [] ∧ k.shown = k.typed)) (by decide +kernel)
  obtain ⟨k, hk, hp⟩ := (Option.any_eq_true _ _).mp hp
  obtain ⟨hpc, hshown⟩ := of_decide_eq_true hp
  exact ⟨σ, k, hs, hpc, fun ms σ' hends hrun => empty_line_hangs hs hk hpc hshown ms hends hrun⟩

end CppServer.EchoService
