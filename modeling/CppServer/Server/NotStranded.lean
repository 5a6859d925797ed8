import CppServer.Server.EdgeTriggered

/-!
# No data is stranded

A connection with something to read is *attended*: an edge for it is queued, or its channel is in
the batch with a mask that runs the read path, or its read loop is running.

The step that matters is the last of the read loop.  It ends at `EAGAIN`, and the kernel answers
that only when there is nothing to read; or at end of file or an error, and then the connection is
not connected any more.  Anything that arrives later brings an edge of its own.  Everything else
keeps what attends the connection where it is, or moves it on: from the queued edges to the batch,
from the batch to the read loop.
-/

namespace CppServer.EdgeTriggered

open Function (update update_self update_of_ne)

/-- Something will be read from the connection: an edge, an entry of the batch, or its read
loop. -/
def State.Attended (s : State) (c : ℕ) (p : Peer) : Prop :=
  p.edge = true ∨ (∃ mask, (c, mask) ∈ (s.sub p.loop).batch ∧ wantsRead mask = true) ∨
    (s.sub p.loop).isReading c

/-- The connection can be read from, and the server has not given it up. -/
structure Peer.Waiting (p : Peer) : Prop where
  readable : p.readable = true
  connected : p.conn.state = .connected
  notDeleted : p.deleted = false

/-- No connection waits unattended. -/
def NotStranded (s : State) : Prop :=
  ∀ c p, s.peer c = some p → p.Waiting → s.Attended c p

variable {n : ℕ} {s : State} {a : Action}

/-! ## Frame lemmas -/

lemma modify_peer {s : State} {c d : ℕ} {f : Peer → Peer} {p : Peer}
    (h : (s.modify c f).peer d = some p) :
    (d ≠ c ∧ s.peer d = some p) ∨ (d = c ∧ ∃ q, s.peer c = some q ∧ p = f q) := by
  simp only [State.modify] at h
  by_cases hd : d = c
  · subst hd
    rw [update_self, Option.map_eq_some_iff] at h
    obtain ⟨q, hq, rfl⟩ := h
    exact .inr ⟨rfl, q, hq, rfl⟩
  · rw [update_of_ne hd] at h
    exact .inl ⟨hd, h⟩

/-- What attends a connection in a state attends it where the loops are the same. -/
lemma Attended.congr {s s' : State} {c : ℕ} {p q : Peer} (h : s.Attended c p)
    (hedge : p.edge = true → q.edge = true) (hloop : q.loop = p.loop)
    (hsub : s'.sub p.loop = s.sub p.loop) : s'.Attended c q := by
  rw [State.Attended, hloop, hsub]
  exact h.imp_left hedge

/-- A step of reactor `r` that keeps the rest of its batch, and leaves no read loop of `c`. -/
lemma Attended.moves {s s' : State} {c r : ℕ} {p q : Peer} {pc : SubPc} (h : s.Attended c p)
    (hedge : p.edge = true → q.edge = true) (hloop : q.loop = p.loop)
    (hsub : s'.sub = update s.sub r pc)
    (hbatch : ∀ mask, (c, mask) ∈ (s.sub r).batch → wantsRead mask = true →
      (c, mask) ∈ pc.batch ∨ pc.isReading c)
    (hread : (s.sub r).isReading c → pc.isReading c) : s'.Attended c q := by
  by_cases hr : p.loop = r
  · rw [State.Attended, hloop, hsub, hr, update_self]
    rcases h with he | ⟨mask, hmem, hmask⟩ | hreading
    · exact .inl (hedge he)
    · rcases hbatch mask (hr ▸ hmem) hmask with hin | hin
      · exact .inr (.inl ⟨mask, hin, hmask⟩)
      · exact .inr (.inr hin)
    · exact .inr (.inr (hread (hr ▸ hreading)))
  · exact Attended.congr h hedge hloop (by rw [hsub, update_of_ne hr])

lemma live_peer {c : ℕ} {P : Peer → Bool} {p : Peer} (h : s.live c P = true)
    (hp : s.peer c = some p) : p.deleted = false ∧ P p = true := by
  simpa [State.live, hp] using h

/-! ## What an answer of the kernel says -/

/-- **The read loop stops only when there is nothing to wait for.** -/
lemma not_waiting_of_stop {p : Peer} {answer : ReadResult} (hk : p.mayAnswer answer = true)
    (hstop : (p.conn.readBody answer).2 = .stop) : ¬ (p.step answer).Waiting := by
  rintro ⟨hreadable, hconnected, -⟩
  match answer with
  | .ok [] => simp [Peer.step, Connection.readBody] at hconnected
  | .ok (_ :: _) => simp [Connection.readBody] at hstop
  | .error .EINTR => simp [Connection.readBody] at hstop
  | .error .EAGAIN =>
      simp only [Peer.mayAnswer, Bool.and_eq_true, Bool.not_eq_true', List.isEmpty_iff] at hk
      simp [Peer.step, Peer.readable, hk.1, hk.2] at hreadable
  | .error (.other _) => simp [Peer.step, Connection.readBody] at hconnected

/-- An answer leaves a connection waiting only if it was. -/
lemma waiting_of_step {p : Peer} {answer : ReadResult} (h : (p.step answer).Waiting) :
    p.Waiting := by
  refine ⟨?_, ?_, h.notDeleted⟩
  · have hreadable := h.readable
    simp only [Peer.step, Peer.readable, Bool.or_eq_true, Bool.not_eq_true',
      List.isEmpty_eq_false_iff] at hreadable ⊢
    refine hreadable.imp_left fun hdrop hnil => hdrop ?_
    rw [hnil, List.drop_nil]
  · have hconnected := h.connected
    match answer with
    | .ok [] => simp [Peer.step, Connection.readBody] at hconnected
    | .ok (_ :: _) => exact hconnected
    | .error .EINTR => exact hconnected
    | .error .EAGAIN => exact hconnected
    | .error (.other _) => simp [Peer.step, Connection.readBody] at hconnected

/-! ## The steps -/

/-- New data or end of file brings its own edge. -/
lemma arrive_step (h : NotStranded s) (c : ℕ) (data : List UInt8) (fin : Bool) :
    NotStranded (s.modify c fun p => p.arrive data fin) := by
  intro d p hp hw
  rcases modify_peer hp with ⟨-, hold⟩ | ⟨-, q, -, rfl⟩
  · exact Attended.congr (h d p hold hw) id rfl rfl
  · exact .inl rfl

/-- The edges that `epoll_wait` returns are in the batch, with a mask that runs the read path. -/
lemma poll_step (h : NotStranded s) {r : ℕ} {batch : List (ℕ × UInt32)}
    (hg : guard n s (.poll r batch)) : NotStranded (effect n s (.poll r batch)) := by
  obtain ⟨hpolling, -, -, hreport⟩ := hg
  intro c p hp hw
  simp only [effect, Option.map_eq_some_iff] at hp
  obtain ⟨q, hq, rfl⟩ := hp
  by_cases hc : c ∈ batch.map Prod.fst
  · obtain ⟨⟨d, mask⟩, hmem, rfl⟩ := List.mem_map.mp hc
    have hevent := List.all_eq_true.mp hreport _ hmem
    rw [hq, Option.any_some] at hevent
    simp only [Peer.mayReport, Bool.and_eq_true, beq_iff_eq, Bool.or_eq_true, Bool.not_eq_true',
      bne_iff_ne] at hevent
    obtain ⟨⟨⟨-, hloop⟩, -⟩, hmask⟩ := hevent
    have hreadable : q.readable = true := by
      have := hw.readable
      rwa [Peer.polled, if_pos hc] at this
    have hin : mask &&& EPOLLIN ≠ 0 := hmask.resolve_left (by simp [hreadable])
    refine .inr (.inl ⟨mask, ?_, wantsRead_of_EPOLLIN hin⟩)
    simpa [Peer.polled, hc, effect, hloop, SubPc.batch] using hmem
  · rw [Peer.polled, if_neg hc] at hw ⊢
    refine Attended.moves (h c q hq hw) id rfl rfl (fun mask hmem => ?_) (fun hreading => ?_)
    · rw [hpolling] at hmem
      simp [SubPc.batch] at hmem
    · rw [hpolling] at hreading
      exact absurd hreading id

/-- A channel that is handled goes from the batch to its read loop. -/
lemma handle_step (h : NotStranded s) {r c : ℕ} {mask : UInt32} {rest : List (ℕ × UInt32)}
    (hg : guard n s (.handle r c mask rest)) :
    NotStranded (effect n s (.handle r c mask rest)) := by
  obtain ⟨hsub, -⟩ := hg
  -- the other channels of the batch stay in it
  have others : ∀ {pc : SubPc} {d : ℕ}, pc.batch = rest →
      (d = c → wantsRead mask = true → pc.isReading c) → ∀ m, (d, m) ∈ (s.sub r).batch →
      wantsRead m = true → (d, m) ∈ pc.batch ∨ pc.isReading d := by
    intro pc d hpc hread m hmem hm
    rw [hsub] at hmem
    rcases List.mem_cons.mp hmem with heq | hin
    · simp only [Prod.mk.injEq] at heq
      obtain ⟨rfl, rfl⟩ := heq
      exact .inr (hread rfl hm)
    · exact .inl (hpc ▸ hin)
  have noread : ∀ {d : ℕ} {pc : SubPc}, (s.sub r).isReading d → pc.isReading d := by
    intro d pc hreading
    rw [hsub] at hreading
    exact absurd hreading id
  simp only [effect, State.handle]
  split
  · split
    · intro d p hp hw
      rcases modify_peer hp with ⟨hne, hold⟩ | ⟨rfl, q, hq, rfl⟩
      · exact Attended.moves (h d p hold hw) id rfl rfl
          (others rfl fun heq => absurd heq hne) noread
      · have hw' : q.Waiting := ⟨hw.readable, hw.connected, hw.notDeleted⟩
        exact Attended.moves (h d q hq hw') id rfl rfl (others rfl fun _ _ => rfl) noread
    · rename_i hstate
      intro d p hp hw
      refine Attended.moves (h d p hp hw) id rfl rfl (others rfl fun heq => ?_) noread
      -- a connection that waits is connected, and its read loop starts
      subst heq
      rw [show s.peer d = some p from hp, Option.any_some, decide_eq_true_eq] at hstate
      exact absurd hw.connected hstate
  · rename_i hmask
    intro d p hp hw
    exact Attended.moves (h d p hp hw) id rfl rfl
      (others rfl fun _ hm => absurd hm hmask) noread

/-- The read loop goes on, or there is nothing to wait for. -/
lemma read_step (h : NotStranded s) {r c : ℕ} {rest : List (ℕ × UInt32)} {answer : ReadResult}
    (hg : guard n s (.read r c rest answer)) :
    NotStranded (effect n s (.read r c rest answer)) := by
  obtain ⟨hsub, hlive⟩ := hg
  cases hpeer : s.peer c with
  | none => simp [State.live, hpeer] at hlive
  | some q =>
      obtain ⟨-, hk⟩ := live_peer hlive hpeer
      simp only [effect, hpeer]
      intro d p hp hw
      have hbatch : ∀ m, (d, m) ∈ (s.sub r).batch → wantsRead m = true →
          (d, m) ∈ (afterAnswer q answer c rest).batch ∨
            (afterAnswer q answer c rest).isReading d := by
        intro m hmem _
        rw [hsub] at hmem
        refine .inl ?_
        unfold afterAnswer
        split <;> exact hmem
      rcases modify_peer hp with ⟨hne, hold⟩ | ⟨rfl, q', hq', rfl⟩
      · refine Attended.moves (h d p hold hw) id rfl rfl hbatch fun hreading => ?_
        rw [hsub] at hreading
        exact absurd hreading.symm hne
      · rw [hpeer, Option.some.injEq] at hq'
        subst hq'
        have hagain : (q.conn.readBody answer).2 = .again := by
          cases hctl : (q.conn.readBody answer).2 with
          | again => rfl
          | stop => exact absurd hw (not_waiting_of_stop hk hctl)
        refine Attended.moves (h d q hpeer (waiting_of_step hw)) id rfl rfl hbatch fun _ => ?_
        simp only [afterAnswer, hagain]
        rfl

/-- An on_message callback leaves no more connections waiting than there were. -/
lemma message_step (h : NotStranded s) {r c : ℕ} {rest : List (ℕ × UInt32)}
    {closes deletes : List ℕ} (hg : guard n s (.message r c rest closes deletes)) :
    NotStranded (effect n s (.message r c rest closes deletes)) := by
  intro d p hp hw
  simp only [effect, Option.map_eq_some_iff] at hp
  obtain ⟨q, hq, rfl⟩ := hp
  have hw' : q.Waiting := by
    refine ⟨hw.readable, ?_, ?_⟩
    · have hconnected := hw.connected
      simp only [Peer.touched] at hconnected
      split at hconnected
      · simp at hconnected
      · exact hconnected
    · have hdeleted := hw.notDeleted
      simp only [Peer.touched, Bool.or_eq_false_iff] at hdeleted
      exact hdeleted.1
  refine Attended.moves (h d q hq hw') id rfl rfl (fun m hmem _ => ?_) (fun hreading => ?_)
  · rw [hg.1] at hmem
    exact .inl hmem
  · rw [hg.1] at hreading
    exact absurd hreading id

theorem notStranded_step (h : NotStranded s) (hg : guard n s a) : NotStranded (effect n s a) := by
  cases a with
  | newConnection c fd queue fin =>
      intro d p hp hw
      simp only [effect] at hp
      by_cases hd : d = c
      · subst hd
        rw [update_self, Option.some.injEq] at hp
        exact .inl (hp ▸ hw.readable)
      · rw [update_of_ne hd] at hp
        exact Attended.congr (h d p hp hw) id rfl rfl
  | send c data => exact arrive_step h c data false
  | shutdown c => exact arrive_step h c [] true
  | poll r batch => exact poll_step h hg
  | dropEdge r c =>
      intro d p hp hw
      rcases modify_peer hp with ⟨-, hold⟩ | ⟨rfl, q, hq, rfl⟩
      · exact Attended.congr (h d p hold hw) id rfl rfl
      · have hidle := (live_peer hg.2 hq).2
        simp only [Bool.and_eq_true, Bool.not_eq_true'] at hidle
        have hreadable : q.readable = true := hw.readable
        rw [hidle.2] at hreadable
        exact absurd hreadable (by simp)
  | handle r c mask rest => exact handle_step h hg
  | read r c rest answer => exact read_step h hg
  | message r c rest closes deletes => exact message_step h hg
  | endOfBatch r =>
      have hsub : s.sub r = .dispatching [] := hg
      intro d p hp hw
      refine Attended.moves (h d p hp hw) id rfl rfl (fun m hmem => ?_) (fun hreading => ?_)
      · rw [hsub] at hmem
        simp [SubPc.batch] at hmem
      · rw [hsub] at hreading
        exact absurd hreading id

theorem notStranded_init : NotStranded {} := by
  intro c p hp
  simp at hp

theorem notStranded_inductive : (machine n).Inductive NotStranded :=
  Machine.guarded_inductive (fun _ hs => hs ▸ notStranded_init) fun _ _ => notStranded_step

/-- **Edge-triggered reading never strands data.**  In every reachable state of any number of
sub reactors and connections: a connection that is connected, not deleted and has something to
read, bytes or end of file, has an edge queued, or is in the current batch of its sub reactor with
a mask that runs its read path, or its read loop is running. -/
theorem never_stranded {s : State} (hs : (machine n).Reachable s) (c : ℕ) (p : Peer)
    (hp : s.peer c = some p) (hw : p.Waiting) : s.Attended c p :=
  notStranded_inductive.reachable hs c p hp hw

/-- A byte arrives and is polled, another arrives while the first is about to be read. -/
def twoBytes : List Action :=
  [.newConnection 0 5 [] false, .send 0 [104], .poll 1 [(0, EPOLLIN)], .handle 1 0 EPOLLIN [],
    .read 1 0 [] (.ok [104]), .send 0 [105]]

theorem never_stranded_twoBytes :
    ∃ s p, (machine 4).Reachable s ∧ s.peer 0 = some p ∧ p.queue = [105] ∧ s.Attended 0 p := by
  obtain ⟨s, hs, hpeer⟩ := Machine.exists_reachable_of_run (m := machine 4) rfl twoBytes
    (fun s : State => (s.peer 0).any fun p : Peer => decide (p.queue = [105] ∧ p.readable = true ∧
      p.conn.state = .connected ∧ p.deleted = false)) (by decide +kernel)
  cases hp : s.peer 0 with
  | none => simp [hp] at hpeer
  | some p =>
      rw [hp, Option.any_some] at hpeer
      obtain ⟨hqueue, hreadable, hconnected, hdeleted⟩ := of_decide_eq_true hpeer
      exact ⟨s, p, hs, hp, hqueue, never_stranded hs 0 p hp ⟨hreadable, hconnected, hdeleted⟩⟩

end CppServer.EdgeTriggered
