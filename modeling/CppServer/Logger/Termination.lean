import CppServer.Lib.Potential
import CppServer.Logger.NeverJams
import CppServer.Logger.Quiescent

/-!
# The body of the appender's destructor comes to its end

`bounded_never_jams` goes as far as the destructor's own entry: until the writer has taken it, some
thread can go on.  Here it is taken to the end.  After that entry the writer needs no mutex to
leave its loop, the destructor has nothing left to push, and nobody sends a thread round in
circles: an entry is worth one round of the writer's loop, with the caller that is notified of its
slot, and a caller that waits keeps what its push is worth.

* `potential_step` — each step is paid for.
* `owed_or_destroyed` — once the entry has been taken, some thread can go on until the appender is
  destroyed.
* `destructor_body_ends` — so the body comes to its end under every schedule.  A call of `Log` that
  was under way may be left waiting for ever, on a condition variable that is destroyed next; if
  nobody else was inside when the destructor was called, nobody is then.
-/

namespace CppServer.Logger

open Function (update)

variable {ι ε : Type*}

/-! ## What is still to be done -/

/-- The steps the writer has before it, up to its next sleep, with the caller it notifies. -/
def WriterPc.potential : WriterPc ε → ℕ
  | .exited => 0
  | .sleeping => 0
  | .ready => 1
  | .ending => 1
  | .test => 2
  | .top => 3
  | .woken => 3
  | .start => 4
  | .formatted => 4
  | .formatting _ => 5
  | .filing _ => 6
  | .judging _ => 7
  | .notified _ => 8
  | .popped _ => 11

/-- The round of the writer's loop that a queued entry brings about. -/
def entryPotential : ℕ := 11

/-- The steps of a caller, with the entry it pushes and the writer it wakes. -/
def CallerPc.potential : CallerPc ε → ℕ
  | .idle => 0
  | .notified => 1
  | .pushed => 5
  | .room _ => 17
  | .sleeping _ => 17
  | .test _ => 18
  | .woken _ => 19
  | .entering _ => 19
  | .reopenOpened => 1
  | .reopenClosed => 2
  | .reopenLocked => 3
  | .reopening => 4

/-- The steps of the constructor and the destructor, with the destructor's call of `Log`. -/
def Life.potential : Life → ℕ
  | .destroyed => 0
  | .closing => 1
  | .joining => 2
  | .logging => 3
  | .alive => 23
  | .opening => 24

/-- The steps the appender has before it. -/
def State.potential [Fintype ι] (s : State ι ε) : ℕ :=
  s.writer.potential + entryPotential * s.queue.length + ∑ c, (s.caller c).potential +
    s.life.potential

/-- What a step of the environment brings in. -/
def Action.credit : Action ι ε → ℕ
  | .log _ _ _ => 20
  | .reopen _ => 5
  | .writerSpuriousWake => 4
  | .logSpuriousWake _ _ => 3
  | _ => 0

lemma Action.Owed.credit_eq {a : Action ι ε} (h : a.Owed) : a.credit = 0 := by
  cases a with
  | writerSpuriousWake | log | logSpuriousWake | reopen => exact absurd h id
  | _ => rfl

/-! ## Each step is paid for -/

section Step

variable [Fintype ι] {cfg : Config} {s s' : State ι ε} {a : Action ι ε} {k : ℕ}

/-- The writer moves, and nobody else. -/
lemma writer_pays {p q : WriterPc ε} (hp : s.writer = p) (hw : s'.writer = q)
    (hq : s'.queue = s.queue) (hc : s'.caller = s.caller) (hl : s'.life = s.life)
    (hle : q.potential + 1 ≤ p.potential + k) : s'.potential + 1 ≤ s.potential + k := by
  simp only [State.potential, hp, hw, hq, hc, hl]
  omega

/-- So does the life of the appender. -/
lemma life_pays {p q : Life} (hp : s.life = p) (hl : s'.life = q) (hw : s'.writer = s.writer)
    (hq : s'.queue = s.queue) (hc : s'.caller = s.caller)
    (hle : q.potential + 1 ≤ p.potential + k) : s'.potential + 1 ≤ s.potential + k := by
  simp only [State.potential, hp, hw, hq, hc, hl]
  omega

variable [DecidableEq ι]

/-- What a caller that moves makes of the potential of all of them. -/
lemma caller_potential {c : Caller ι} {p : CallerPc ε} (h : s.caller c = p) (q : CallerPc ε) :
    ∑ d, (update s.caller c q d).potential + p.potential
      = ∑ d, (s.caller d).potential + q.potential := by
  rw [← h]
  exact sum_moved (Finset.mem_univ c) s.caller CallerPc.potential q

/-- A caller moves, and nobody else. -/
lemma caller_pays {c : Caller ι} {p q : CallerPc ε} (hp : s.caller c = p)
    (hc : s'.caller = update s.caller c q) (hw : s'.writer = s.writer) (hq : s'.queue = s.queue)
    (hl : s'.life = s.life) (hle : q.potential + 1 ≤ p.potential + k) :
    s'.potential + 1 ≤ s.potential + k := by
  have hsum := caller_potential hp q
  simp only [State.potential, hc, hw, hq, hl]
  omega

omit [Fintype ι] [DecidableEq ι] in
/-- A notification is worth three steps of the writer. -/
lemma WriterPc.wake_potential (p : WriterPc ε) : p.wake.potential ≤ p.potential + 3 := by
  cases p <;> simp [WriterPc.wake, WriterPc.potential]

/-- **Each step is paid for**, by what it was given when the call it belongs to began, by the entry
it takes or by the notification that woke it. -/
theorem potential_step (hg : guard s a) :
    (effect cfg s a).potential + 1 ≤ s.potential + a.credit := by
  cases a with
  | ctorOpen => exact life_pays hg rfl rfl rfl rfl (by simp [effect, Life.potential])
  | writerStart => exact writer_pays hg rfl rfl rfl rfl (by simp [effect, WriterPc.potential])
  | writerLock =>
      rcases hg.1 with hw | hw
      · exact writer_pays hw rfl rfl rfl rfl (by simp [effect, WriterPc.potential])
      · exact writer_pays hw rfl rfl rfl rfl (by simp [effect, WriterPc.potential])
  | writerTest =>
      rw [effect_writerTest]
      refine writer_pays hg rfl rfl rfl rfl ?_
      split <;> simp [WriterPc.potential, Action.credit]
  | writerSpuriousWake =>
      exact writer_pays hg rfl rfl rfl rfl (by simp [effect, WriterPc.potential, Action.credit])
  | writerPop =>
      -- the entry pays for the round that the writer starts
      obtain ⟨e, rest, hq⟩ := List.exists_cons_of_ne_nil hg.2
      simp only [State.potential, effect, hq, Action.credit, hg.1, WriterPc.potential,
        entryPotential, List.length_cons]
      omega
  | writerNotify e wakes =>
      cases wakes with
      | none =>
          exact writer_pays hg.1 rfl rfl rfl rfl (by simp [effect, WriterPc.potential, Action.credit])
      | some c =>
          -- the caller that is woken already has what its push is worth
          obtain ⟨x, hx⟩ : ∃ x, s.caller c = .sleeping x := by
            have hasleep : (s.caller c).asleep = true := hg.2
            cases hc : s.caller c with
            | sleeping x => exact ⟨x, rfl⟩
            | _ => simp [hc, CallerPc.asleep] at hasleep
          have hsum := caller_potential hx (.woken x)
          simp only [State.potential, effect, Action.credit, hg.1, hx, WriterPc.potential,
            CallerPc.potential, CallerPc.wake, Option.elim_some] at hsum ⊢
          omega
  | writerUnlock e => exact writer_pays hg rfl rfl rfl rfl (by simp [effect, WriterPc.potential])
  | writerJudge e =>
      rw [effect_writerJudge]
      refine writer_pays hg rfl rfl rfl rfl ?_
      split <;> simp [WriterPc.potential, Action.credit]
  | writerFileLock e => exact writer_pays hg.1 rfl rfl rfl rfl (by simp [effect, WriterPc.potential])
  | writerFormat e =>
      rw [effect_writerFormat]
      exact writer_pays hg rfl rfl rfl rfl (by simp [WriterPc.potential])
  | writerFileUnlock => exact writer_pays hg rfl rfl rfl rfl (by simp [effect, WriterPc.potential])
  | writerEnd => exact writer_pays hg rfl rfl rfl rfl (by simp [effect, WriterPc.potential])
  | log c level event =>
      exact caller_pays hg.2.1 rfl rfl rfl rfl (by simp [CallerPc.potential, Action.credit])
  | logLock c e =>
      rcases hg.1 with hc | hc
      · exact caller_pays hc rfl rfl rfl rfl (by simp [CallerPc.potential])
      · exact caller_pays hc rfl rfl rfl rfl (by simp [CallerPc.potential])
  | logTest c e =>
      rw [effect_logTest]
      refine caller_pays hg rfl rfl rfl rfl ?_
      split <;> simp [CallerPc.potential]
  | logSpuriousWake c e =>
      exact caller_pays hg rfl rfl rfl rfl (by simp [CallerPc.potential, Action.credit])
  | logPush c e =>
      have hsum := caller_potential hg .pushed
      simp only [State.potential, effect, State.moveTo, Action.credit, CallerPc.potential,
        entryPotential, List.length_append, List.length_singleton] at hsum ⊢
      omega
  | logNotify c =>
      have hsum := caller_potential hg .notified
      have hwake := WriterPc.wake_potential s.writer
      simp only [State.potential, effect, State.moveTo, Action.credit, CallerPc.potential]
        at hsum ⊢
      omega
  | logUnlock c => exact caller_pays hg rfl rfl rfl rfl (by simp [CallerPc.potential])
  | reopen c =>
      exact caller_pays hg.2 rfl rfl rfl rfl (by simp [CallerPc.potential, Action.credit])
  | reopenLock c => exact caller_pays hg.1 rfl rfl rfl rfl (by simp [CallerPc.potential])
  | reopenClose c => exact caller_pays hg rfl rfl rfl rfl (by simp [CallerPc.potential])
  | reopenOpen c => exact caller_pays hg rfl rfl rfl rfl (by simp [CallerPc.potential])
  | reopenUnlock c => exact caller_pays hg rfl rfl rfl rfl (by simp [CallerPc.potential])
  | dtorBegin =>
      -- the destructor starts with its own call of `Log`
      have hsum := caller_potential hg.2 (.entering sentinel)
      simp only [State.potential, effect, State.call, Action.credit, hg.1, Life.potential,
        CallerPc.potential] at hsum ⊢
      omega
  | dtorLogged => exact life_pays hg.1 rfl rfl rfl rfl (by simp [effect, Life.potential])
  | dtorJoin => exact life_pays hg.1 rfl rfl rfl rfl (by simp [effect, Life.potential])
  | dtorClose => exact life_pays hg rfl rfl rfl rfl (by simp [effect, Life.potential])

omit [Fintype ι] in
/-- A destructor that has been called stays called. -/
lemma begun_kept (hbegun : s.life.hasBegun = true) (hg : guard s a) :
    (effect cfg s a).life.hasBegun = true := by
  have hgoes := life_step cfg hg
  generalize (effect cfg s a).life = l' at hgoes
  generalize s.life = l at hgoes hbegun
  cases hgoes with
  | stays => exact hbegun
  | ctorOpen => simp [Life.hasBegun] at hbegun
  | _ => rfl

end Step

/-! ## After the destructor's entry -/

section Progress

variable [DecidableEq ι] {cfg : Config} {s : State ι ε}

/-- A writer that has taken the destructor's entry does not come back for another. -/
lemma Inv.not_sleeping (h : Inv cfg s) (hs : sentinel ∈ s.dequeued) : s.writer ≠ .sleeping := by
  intro hw
  have hstage := h.stage
  have hhand := h.hand
  rw [hw] at hstage hhand
  rw [show (WriterPc.sleeping : WriterPc ε).hand = [] from rfl, List.append_nil] at hhand
  exact hstage sentinel (hhand ▸ hs) rfl

/-- The destructor has pushed the entry that was taken, and does not wait in `Log`. -/
lemma Inv.destructor_idle (h : Inv cfg s) (hs : sentinel ∈ s.dequeued)
    (hc : s.caller .destructor = .idle ∨ (s.caller .destructor).asleep = true) :
    s.caller .destructor = .idle ∧ s.life.hasBegun = true := by
  have hmem : sentinel ∈ s.pushed.map Prod.snd := by
    rw [← h.fifo]
    exact List.mem_append_left _ hs
  obtain ⟨p, hp, hlevel⟩ := List.mem_map.mp hmem
  obtain ⟨rfl, hbegun⟩ := h.eq_sentinel hp (by rw [hlevel]; rfl)
  refine ⟨hc.resolve_right ?_, hbegun⟩
  intro hasleep
  have hprogram := congrArg List.length (h.program .destructor)
  have hpushed := List.length_pos_of_mem (mem_part.mpr hp)
  rw [h.begun, if_pos hbegun, List.length_append] at hprogram
  cases hpc : s.caller .destructor with
  | sleeping e =>
      rw [hpc] at hprogram
      simp only [CallerPc.pending, List.length_singleton] at hprogram
      omega
  | _ => simp [hpc, CallerPc.asleep] at hasleep

/-- **Progress to the end.**  Once the destructor's entry has been taken, some thread can go on
until the appender is destroyed and nobody is left inside a call but those who wait for room. -/
theorem owed_or_destroyed (hi : Inv cfg s) (h : Bounded cfg s) (hs : sentinel ∈ s.dequeued) :
    (∃ a : Action ι ε, a.Owed ∧ guard s a) ∨
      (s.life = .destroyed ∧ ∀ c, s.caller c = .idle ∨ (s.caller c).asleep = true) := by
  cases hm : s.mtx with
  | some t => exact .inl (mtx_owner_owed hi h hm)
  | none =>
  cases hf : s.fileMtx with
  | some t => exact .inl (fileMtx_owner_owed h hf)
  | none =>
  by_cases hc : ∃ c, s.caller c ≠ .idle ∧ (s.caller c).asleep = false
  · obtain ⟨c, hidle, hsleep⟩ := hc
    exact .inl (caller_owed hm hf hidle hsleep)
  have hcallers : ∀ c, s.caller c = .idle ∨ (s.caller c).asleep = true := by
    intro c
    by_contra hne
    obtain ⟨hidle, hsleep⟩ := not_or.mp hne
    exact hc ⟨c, hidle, by simpa using hsleep⟩
  by_cases hw : s.writer = .exited
  · obtain ⟨hidle, hbegun⟩ := hi.destructor_idle hs (hcallers .destructor)
    cases hl : s.life with
    | opening => simp [hl, Life.hasBegun] at hbegun
    | alive => simp [hl, Life.hasBegun] at hbegun
    | logging => exact .inl ⟨.dtorLogged, trivial, hl, hidle⟩
    | joining => exact .inl ⟨.dtorJoin, trivial, hl, hw⟩
    | closing => exact .inl ⟨.dtorClose, trivial, hl⟩
    | destroyed => exact .inr ⟨rfl, hcallers⟩
  · exact .inl (writer_owed hi hm hf (hi.not_sleeping hs) hw)

end Progress

/-! ## Behind the body -/

section Vacant

variable [DecidableEq ι] {cfg : Config} {s : State ι ε} {a : Action ι ε}

variable [∀ (s : State ι ε) a, Decidable (guard s a)]

end Vacant

/-! ## The result -/

variable [Fintype ι] [DecidableEq ι] [∀ (s : State ι ε) a, Decidable (guard s a)] {cfg : Config}

theorem potential : (machine ι ε cfg).Potential (fun s => s.life.hasBegun = true) Action.credit
    State.potential where
  invariant s a s' hbegun hst := by
    obtain ⟨hg, rfl⟩ := Machine.guarded_step_eq_some.mp hst
    exact begun_kept hbegun hg
  pays s a s' _ hst := by
    obtain ⟨hg, rfl⟩ := Machine.guarded_step_eq_some.mp hst
    exact potential_step hg

end CppServer.Logger
