import Mathlib.Data.List.Nodup
import CppServer.Server.EdgeTriggered

/-!
# One thread handles a connection

`NewConnection` gives a connection to the sub reactor `fd % n`, and only that one polls it.  So
although nothing in `Connection` is locked, its read loop and its on_message callback never run in
two threads at once, nor twice for one batch.

* `sub_step`, `peer_step` — what one step does to a loop and to a connection.
* `handled_by_one_thread` — the result, over every interleaving.
-/

namespace CppServer.EdgeTriggered

open Function (update update_self update_of_ne)

/-- The channels a loop has in hand: the one it is handling, and the rest of its batch. -/
def SubPc.channels : SubPc → List ℕ
  | .polling => []
  | .dispatching batch => batch.map Prod.fst
  | .reading c rest => c :: rest.map Prod.fst
  | .messaging c rest => c :: rest.map Prod.fst

/-! ## What one step does -/

/-- The action moves the loop of a sub reactor from one point to another. -/
inductive SubGoes : Action → ℕ → SubPc → SubPc → Prop
  | stays {a : Action} {r : ℕ} {p : SubPc} : SubGoes a r p p
  | poll {r : ℕ} {batch : List (ℕ × UInt32)} :
      SubGoes (.poll r batch) r .polling (.dispatching batch)
  | skip {r c : ℕ} {mask : UInt32} {rest : List (ℕ × UInt32)} :
      SubGoes (.handle r c mask rest) r (.dispatching ((c, mask) :: rest)) (.dispatching rest)
  | read {r c : ℕ} {mask : UInt32} {rest : List (ℕ × UInt32)} :
      SubGoes (.handle r c mask rest) r (.dispatching ((c, mask) :: rest)) (.reading c rest)
  | refuse {r c : ℕ} {mask : UInt32} {rest : List (ℕ × UInt32)} :
      SubGoes (.handle r c mask rest) r (.dispatching ((c, mask) :: rest)) (.messaging c rest)
  | stop {r c : ℕ} {rest : List (ℕ × UInt32)} {answer : ReadResult} :
      SubGoes (.read r c rest answer) r (.reading c rest) (.messaging c rest)
  | message {r c : ℕ} {rest : List (ℕ × UInt32)} {closes deletes : List ℕ} :
      SubGoes (.message r c rest closes deletes) r (.messaging c rest) (.dispatching rest)
  | endOfBatch {r : ℕ} : SubGoes (.endOfBatch r) r (.dispatching []) .polling

variable {n : ℕ} {s : State} {a : Action}

/-- A loop that moves leaves the others where they are. -/
lemma SubGoes.of_update {b : Action} {s' : State} {r : ℕ} {p q : SubPc} (hp : s.sub r = p)
    (hgoes : SubGoes b r p q) (hsub : s'.sub = update s.sub r q) (t : ℕ) :
    SubGoes b t (s.sub t) (s'.sub t) := by
  rw [hsub]
  by_cases ht : t = r
  · rw [ht, update_self, hp]
    exact hgoes
  · rw [update_of_ne ht]
    exact .stays

/-- **Every step moves each loop on the list.** -/
theorem sub_step (hg : guard n s a) (t : ℕ) : SubGoes a t (s.sub t) ((effect n s a).sub t) := by
  cases a with
  | newConnection c fd queue fin => exact .stays
  | send c data => exact .stays
  | shutdown c => exact .stays
  | poll r batch => exact .of_update hg.1 .poll rfl t
  | dropEdge r c => exact .stays
  | handle r c mask rest =>
      simp only [effect, State.handle]
      split
      · split
        · exact .of_update hg.1 .read rfl t
        · exact .of_update hg.1 .refuse rfl t
      · exact .of_update hg.1 .skip rfl t
  | read r c rest answer =>
      simp only [effect]
      split
      · rename_i p _
        have hgoes : SubGoes (.read r c rest answer) r (.reading c rest)
            (afterAnswer p answer c rest) := by
          unfold afterAnswer
          split
          · exact .stays
          · exact .stop
        exact .of_update hg.1 hgoes rfl t
      · exact .stays
  | message r c rest closes deletes => exact .of_update hg.1 .message rfl t
  | endOfBatch r => exact .of_update hg .endOfBatch rfl t

/-- What the step of another party may do to a connection: it keeps its socket and its loop. -/
structure Peer.Kept (p p' : Peer) : Prop where
  loop : p'.loop = p.loop
  sock : p'.conn.sock = p.conn.sock

lemma Peer.Kept.refl (p : Peer) : p.Kept p := ⟨rfl, rfl⟩

lemma readBody_sock (c : Connection) (answer : ReadResult) :
    (c.readBody answer).1.sock = c.sock := by
  match answer with
  | .ok [] => rfl
  | .ok (_ :: _) => rfl
  | .error .EINTR => rfl
  | .error .EAGAIN => rfl
  | .error (.other _) => rfl

lemma Peer.touched_kept (closes deletes : List ℕ) (c : ℕ) (p : Peer) :
    p.Kept (p.touched closes deletes c) := by
  refine ⟨rfl, ?_⟩
  simp only [Peer.touched]
  split <;> rfl

lemma Peer.polled_kept (batch : List (ℕ × UInt32)) (c : ℕ) (p : Peer) :
    p.Kept (p.polled batch c) := by
  simp only [Peer.polled]
  split
  · exact ⟨rfl, rfl⟩
  · exact .refl p

/-- A connection that there is goes on, with its socket and its loop. -/
lemma modify_kept {s' : State} {c d : ℕ} {f : Peer → Peer} {p : Peer}
    (hs' : s'.peer = (s.modify c f).peer) (hf : ∀ p : Peer, p.Kept (f p)) (hp : s.peer d = some p) :
    ∃ p', s'.peer d = some p' ∧ p.Kept p' := by
  rw [hs']
  simp only [State.modify]
  by_cases hd : d = c
  · rw [← hd, update_self, hp]
    exact ⟨f p, rfl, hf p⟩
  · rw [update_of_ne hd]
    exact ⟨p, hp, .refl p⟩

/-- **No step removes a connection**, or gives it to another loop. -/
theorem peer_step (hg : guard n s a) {d : ℕ} {p : Peer} (hp : s.peer d = some p) :
    ∃ p', (effect n s a).peer d = some p' ∧ p.Kept p' := by
  cases a with
  | newConnection c fd queue fin =>
      have hd : d ≠ c := by
        rintro rfl
        rw [hg.1] at hp
        simp at hp
      exact ⟨p, by simp only [effect]; rw [update_of_ne hd, hp], .refl p⟩
  | send c data => exact modify_kept rfl (fun p => ⟨rfl, rfl⟩) hp
  | shutdown c => exact modify_kept rfl (fun p => ⟨rfl, rfl⟩) hp
  | poll r batch =>
      exact ⟨p.polled batch d, by simp [effect, hp], Peer.polled_kept batch d p⟩
  | dropEdge r c => exact modify_kept rfl (fun p => ⟨rfl, rfl⟩) hp
  | handle r c mask rest =>
      simp only [effect, State.handle]
      split
      · split
        · exact modify_kept rfl (fun p => ⟨rfl, rfl⟩) hp
        · exact ⟨p, hp, .refl p⟩
      · exact ⟨p, hp, .refl p⟩
  | read r c rest answer =>
      simp only [effect]
      split
      · exact modify_kept rfl (fun p => ⟨rfl, readBody_sock p.conn answer⟩) hp
      · exact ⟨p, hp, .refl p⟩
  | message r c rest closes deletes =>
      exact ⟨p.touched closes deletes d, by simp [effect, hp], Peer.touched_kept closes deletes d p⟩
  | endOfBatch r => exact ⟨p, hp, .refl p⟩

/-- **A connection comes into being in `NewConnection`**, and in nothing else. -/
theorem peer_born (hg : guard n s a) {d : ℕ} {p' : Peer}
    (hp' : (effect n s a).peer d = some p') :
    (∃ p, s.peer d = some p ∧ p.Kept p') ∨
      ∃ fd queue fin, a = .newConnection d fd queue fin ∧ p' = .new n fd queue fin := by
  cases hp : s.peer d with
  | some p =>
      obtain ⟨q, hq, hkept⟩ := peer_step hg hp
      rw [hp', Option.some.injEq] at hq
      exact .inl ⟨p, rfl, hq ▸ hkept⟩
  | none =>
      right
      have modify {s' : State} {c : ℕ} {f : Peer → Peer} (hs' : s'.peer = (s.modify c f).peer)
          (h : s'.peer d = some p') : False := by
        rw [hs'] at h
        simp only [State.modify] at h
        by_cases hd : d = c
        · rw [← hd, update_self, hp] at h
          simp at h
        · rw [update_of_ne hd, hp] at h
          simp at h
      cases a with
      | newConnection c fd queue fin =>
          simp only [effect] at hp'
          by_cases hd : d = c
          · rw [← hd, update_self, Option.some.injEq] at hp'
            exact ⟨fd, queue, fin, by rw [hd], hp'.symm⟩
          · rw [update_of_ne hd, hp] at hp'
            simp at hp'
      | send c data => exact absurd hp' (modify rfl)
      | shutdown c => exact absurd hp' (modify rfl)
      | poll r batch => simp [effect, hp] at hp'
      | dropEdge r c => exact absurd hp' (modify rfl)
      | handle r c mask rest =>
          simp only [effect, State.handle] at hp'
          split at hp'
          · split at hp'
            · exact absurd hp' (modify rfl)
            · simp [hp] at hp'
          · simp [hp] at hp'
      | read r c rest answer =>
          simp only [effect] at hp'
          split at hp'
          · exact absurd hp' (modify rfl)
          · simp [hp] at hp'
      | message r c rest closes deletes => simp [effect, hp] at hp'
      | endOfBatch r => simp [effect, hp] at hp'

/-! ## Confinement -/

/-- Each loop has its own channels in hand, each of them once. -/
structure Confined (n : ℕ) (s : State) : Prop where
  assigned : ∀ c p, s.peer c = some p → (p.loop : ℤ) = p.conn.sock.fd % n
  nonBlocking : ∀ c p, s.peer c = some p → p.conn.sock.nonBlocking = true
  own : ∀ r, ∀ c ∈ (s.sub r).channels, ∃ p, s.peer c = some p ∧ p.loop = r
  once : ∀ r, (s.sub r).channels.Nodup

theorem confined_init : Confined n {} where
  assigned := by simp
  nonBlocking := by simp
  own := by simp [SubPc.channels]
  once := by simp [SubPc.channels]

/-- A loop only ever drops channels, until it polls. -/
lemma SubGoes.channels {r : ℕ} {p q : SubPc} (h : SubGoes a r p q) :
    q.channels.Sublist p.channels ∨ ∃ batch, a = .poll r batch ∧ q = .dispatching batch := by
  cases h with
  | poll => exact .inr ⟨_, rfl, rfl⟩
  | skip => exact .inl (List.sublist_cons_self _ _)
  | message => exact .inl (List.sublist_cons_self _ _)
  | _ => exact .inl (List.Sublist.refl _)

/-- What `epoll_wait` reports to a sub reactor is a connection of its own. -/
lemma polled_own {r c : ℕ} {batch : List (ℕ × UInt32)} (hg : guard n s (.poll r batch))
    (hc : c ∈ batch.map Prod.fst) : ∃ p, s.peer c = some p ∧ p.loop = r := by
  obtain ⟨event, hmem, rfl⟩ := List.mem_map.mp hc
  obtain ⟨p, hp, hreport⟩ :=
    (Option.any_eq_true _ _).mp (List.all_eq_true.mp hg.2.2.2 event hmem)
  refine ⟨p, hp, ?_⟩
  simp only [Peer.mayReport, Bool.and_eq_true, beq_iff_eq] at hreport
  exact hreport.1.1.2

theorem confined_step (h : Confined n s) (hg : guard n s a) : Confined n (effect n s a) where
  assigned d p' hp' := by
    rcases peer_born hg hp' with ⟨p, hp, hkept⟩ | ⟨fd, queue, fin, -, rfl⟩
    · rw [hkept.loop, hkept.sock]
      exact h.assigned d p hp
    · simp [Peer.new]
  nonBlocking d p' hp' := by
    rcases peer_born hg hp' with ⟨p, hp, hkept⟩ | ⟨fd, queue, fin, -, rfl⟩
    · rw [hkept.sock]
      exact h.nonBlocking d p hp
    · rfl
  own r c hc := by
    have hbefore : ∃ p, s.peer c = some p ∧ p.loop = r := by
      rcases (sub_step hg r).channels with hsub | ⟨batch, rfl, hbatch⟩
      · exact h.own r c (hsub.subset hc)
      · rw [hbatch] at hc
        exact polled_own hg hc
    obtain ⟨p, hp, hloop⟩ := hbefore
    obtain ⟨p', hp', hkept⟩ := peer_step hg hp
    exact ⟨p', hp', by rw [hkept.loop, hloop]⟩
  once r := by
    rcases (sub_step hg r).channels with hsub | ⟨batch, rfl, hbatch⟩
    · exact (h.once r).sublist hsub
    · rw [hbatch]
      exact hg.2.2.1

theorem confined_inductive : (machine n).Inductive (Confined n) :=
  Machine.guarded_inductive (fun _ hs => hs ▸ confined_init) fun _ _ => confined_step

/-- **One thread handles a connection.**  In every reachable state, a connection that some loop is
handling or has in its batch is there once, and no other loop has it: the loop is that of the sub
reactor with the index of its descriptor modulo the number of sub reactors. -/
theorem handled_by_one_thread (hs : (machine n).Reachable s) {r c : ℕ}
    (hc : c ∈ (s.sub r).channels) :
    (∃ p, s.peer c = some p ∧ (r : ℤ) = p.conn.sock.fd % n) ∧
      (s.sub r).channels.count c = 1 ∧ ∀ r', c ∈ (s.sub r').channels → r' = r := by
  have h := confined_inductive.reachable hs
  obtain ⟨p, hp, hloop⟩ := h.own r c hc
  refine ⟨⟨p, hp, hloop ▸ h.assigned c p hp⟩, List.count_eq_one_of_mem (h.once r) hc, ?_⟩
  intro r' hc'
  obtain ⟨p', hp', hloop'⟩ := h.own r' c hc'
  rw [hp, Option.some.injEq] at hp'
  rw [← hloop', ← hp', hloop]

/-- Two connections of four sub reactors, and data on both. -/
def twoConnections : List Action :=
  [.newConnection 0 5 [104] false, .newConnection 1 6 [105] false, .poll 1 [(0, EPOLLIN)],
    .poll 2 [(1, EPOLLIN)], .handle 1 0 EPOLLIN []]

theorem handled_by_one_thread_twoConnections :
    ∃ s, (machine 4).Reachable s ∧ s.sub 1 = .reading 0 [] ∧
      ∀ r', 0 ∈ (s.sub r').channels → r' = 1 := by
  obtain ⟨s, hs, hp⟩ := Machine.exists_reachable_of_run (m := machine 4) rfl twoConnections
    (fun s : State => decide (s.sub 1 = .reading 0 [])) (by decide +kernel)
  have hsub : s.sub 1 = .reading 0 [] := of_decide_eq_true hp
  have hmem : 0 ∈ (s.sub 1).channels := by
    rw [hsub]
    exact List.mem_cons_self
  exact ⟨s, hs, hsub, (handled_by_one_thread hs hmem).2.2⟩

end CppServer.EdgeTriggered
