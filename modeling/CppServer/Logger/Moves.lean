import CppServer.Logger.FileAppender

/-!
# What one step changes

For each part of the state an inductive predicate lists what the actions do to it, and one theorem
says that nothing else is done to it.  What holds of all steps is then read off the lists.

* `caller_cases`, `caller_step` — where the callers go.
* `writer_step` — where the writer goes, with the entries it takes off the queue, the entries it is
  done with, and the lines it hands to the stream.
* `queue_step` — what is pushed and popped.
* `logged_step`, `life_step` — the calls of `Log`, and the life of the appender.
-/

namespace CppServer.Logger

open Function (update update_self update_of_ne)

variable {ι ε : Type*}

/-- The action moves caller `c` from one point to another. -/
inductive Goes : Action ι ε → Caller ι → CallerPc ε → CallerPc ε → Prop
  | woken {x e : Entry ε} {c : Caller ι} :
      Goes (.writerNotify x (some c)) c (.sleeping e) (.woken e)
  | log {c : ι} {level : Level} {event : ε} :
      Goes (.log c level event) (.producer c) .idle (.entering ⟨level, some event⟩)
  | lock {c : Caller ι} {e : Entry ε} : Goes (.logLock c e) c (.entering e) (.test e)
  | relock {c : Caller ι} {e : Entry ε} : Goes (.logLock c e) c (.woken e) (.test e)
  | full {c : Caller ι} {e : Entry ε} : Goes (.logTest c e) c (.test e) (.sleeping e)
  | room {c : Caller ι} {e : Entry ε} : Goes (.logTest c e) c (.test e) (.room e)
  | spuriousWake {c : Caller ι} {e : Entry ε} :
      Goes (.logSpuriousWake c e) c (.sleeping e) (.woken e)
  | push {c : Caller ι} {e : Entry ε} : Goes (.logPush c e) c (.room e) .pushed
  | notify {c : Caller ι} : Goes (.logNotify c) c .pushed .notified
  | unlock {c : Caller ι} : Goes (.logUnlock c) c .notified .idle
  | reopen {c : ι} : Goes (.reopen c) (.producer c) .idle .reopening
  | reopenLock {c : Caller ι} : Goes (.reopenLock c) c .reopening .reopenLocked
  | reopenClose {c : Caller ι} : Goes (.reopenClose c) c .reopenLocked .reopenClosed
  | reopenOpen {c : Caller ι} : Goes (.reopenOpen c) c .reopenClosed .reopenOpened
  | reopenUnlock {c : Caller ι} : Goes (.reopenUnlock c) c .reopenOpened .idle
  | dtorBegin : Goes .dtorBegin .destructor .idle (.entering sentinel)

variable [DecidableEq ι] (cfg : Config) {s : State ι ε} {a : Action ι ε}

/-- **Every step moves one caller on the list, or none.** -/
theorem caller_cases (hg : guard s a) :
    ((∀ c p q, ¬ Goes a c p q) ∧ (effect cfg s a).caller = s.caller) ∨
      ∃ c p q, Goes a c p q ∧ s.caller c = p ∧ (effect cfg s a).caller = update s.caller c q := by
  have stays {b : Action ι ε} (hb : ∀ c p q, ¬ Goes b c p q) {f : Caller ι → CallerPc ε}
      (hf : f = s.caller) : ((∀ c p q, ¬ Goes b c p q) ∧ f = s.caller) ∨
      ∃ c p q, Goes b c p q ∧ s.caller c = p ∧ f = update s.caller c q := .inl ⟨hb, hf⟩
  have moves {b : Action ι ε} {c : Caller ι} {p q : CallerPc ε} (hb : Goes b c p q)
      (hp : s.caller c = p) {f : Caller ι → CallerPc ε} (hf : f = update s.caller c q) :
      ((∀ c p q, ¬ Goes b c p q) ∧ f = s.caller) ∨
      ∃ c p q, Goes b c p q ∧ s.caller c = p ∧ f = update s.caller c q :=
    .inr ⟨c, p, q, hb, hp, hf⟩
  cases a with
  | writerNotify e wakes =>
      cases wakes with
      | none => exact stays (by rintro c p q ⟨⟩) rfl
      | some c =>
          have hasleep : (s.caller c).asleep = true := hg.2
          cases hc : s.caller c with
          | sleeping x => exact moves .woken hc (by simp [effect, hc, CallerPc.wake])
          | _ => simp [hc, CallerPc.asleep] at hasleep
  | writerTest => exact stays (by rintro c p q ⟨⟩) (by rw [effect_writerTest])
  | writerPop => exact stays (by rintro c p q ⟨⟩) (by rw [effect_writerPop])
  | writerJudge e => exact stays (by rintro c p q ⟨⟩) (by rw [effect_writerJudge])
  | writerFormat e => exact stays (by rintro c p q ⟨⟩) (by rw [effect_writerFormat])
  | log c level event => exact moves .log hg.2.1 rfl
  | logLock c e =>
      rcases hg.1 with hc | hc
      · exact moves .lock hc rfl
      · exact moves .relock hc rfl
  | logTest c e =>
      rw [effect_logTest]
      by_cases hfull : cfg.maxQueueSize ≤ s.queue.length
      · exact moves .full hg (by rw [if_pos hfull]; rfl)
      · exact moves .room hg (by rw [if_neg hfull]; rfl)
  | logSpuriousWake c e => exact moves .spuriousWake hg rfl
  | logPush c e => exact moves .push hg rfl
  | logNotify c => exact moves .notify hg rfl
  | logUnlock c => exact moves .unlock hg rfl
  | reopen c => exact moves .reopen hg.2 rfl
  | reopenLock c => exact moves .reopenLock hg.1 rfl
  | reopenClose c => exact moves .reopenClose hg rfl
  | reopenOpen c => exact moves .reopenOpen hg rfl
  | reopenUnlock c => exact moves .reopenUnlock hg rfl
  | dtorBegin => exact moves .dtorBegin hg.2 rfl
  | _ => exact stays (by rintro c p q ⟨⟩) rfl

/-- What becomes of one caller: it moves, or stays where it is. -/
theorem caller_step (hg : guard s a) (d : Caller ι) :
    ((∀ p q, ¬ Goes a d p q) ∧ (effect cfg s a).caller d = s.caller d) ∨
      Goes a d (s.caller d) ((effect cfg s a).caller d) := by
  rcases caller_cases cfg hg with ⟨hnone, hsame⟩ | ⟨c, p, q, hgoes, hp, hmove⟩
  · exact .inl ⟨hnone d, by rw [hsame]⟩
  · by_cases hdc : d = c
    · subst hdc
      rw [hmove, update_self, hp]
      exact .inr hgoes
    · refine .inl ⟨fun p' q' hgoes' => hdc ?_, by rw [hmove, update_of_ne hdc]⟩
      cases hgoes <;> cases hgoes' <;> rfl

/-! ## The writer -/

/-- A step of the writer. -/
def Action.ofWriter : Action ι ε → Bool
  | .writerStart => true
  | .writerLock => true
  | .writerTest => true
  | .writerSpuriousWake => true
  | .writerPop => true
  | .writerNotify _ _ => true
  | .writerUnlock _ => true
  | .writerJudge _ => true
  | .writerFileLock _ => true
  | .writerFormat _ => true
  | .writerFileUnlock => true
  | .writerEnd => true
  | _ => false

/-- The action moves the writer from one point to another, which takes some entries off the queue,
is then done with some, and hands some lines to the stream. -/
inductive WriterGoes (cfg : Config) : Action ι ε → WriterPc ε → WriterPc ε →
    List (Entry ε) → List (Entry ε) → List (Line ε) → Prop
  | stays {a : Action ι ε} {p : WriterPc ε} : a.ofWriter = false → WriterGoes cfg a p p [] [] []
  | start : WriterGoes cfg .writerStart .start .top [] [] [.logStart]
  | lock : WriterGoes cfg .writerLock .top .test [] [] []
  | relock : WriterGoes cfg .writerLock .woken .test [] [] []
  | empty : WriterGoes cfg .writerTest .test .sleeping [] [] []
  | ready : WriterGoes cfg .writerTest .test .ready [] [] []
  | spuriousWake : WriterGoes cfg .writerSpuriousWake .sleeping .woken [] [] []
  | pop {e : Entry ε} : WriterGoes cfg .writerPop .ready (.popped e) [e] [] []
  | notify {e : Entry ε} {wakes : Option (Caller ι)} :
      WriterGoes cfg (.writerNotify e wakes) (.popped e) (.notified e) [] [] []
  | unlock {e : Entry ε} : WriterGoes cfg (.writerUnlock e) (.notified e) (.judging e) [] [] []
  | leave {e : Entry ε} : e.level = .OTHER →
      WriterGoes cfg (.writerJudge e) (.judging e) .ending [] [e] []
  | judge {e : Entry ε} : e.level ≠ .OTHER →
      WriterGoes cfg (.writerJudge e) (.judging e) (.filing e) [] [] []
  | fileLock {e : Entry ε} :
      WriterGoes cfg (.writerFileLock e) (.filing e) (.formatting e) [] [] []
  | format {e : Entry ε} : cfg.level ≤ e.level.value →
      WriterGoes cfg (.writerFormat e) (.formatting e) .formatted [] [e] [.text e]
  | filter {e : Entry ε} : ¬ cfg.level ≤ e.level.value →
      WriterGoes cfg (.writerFormat e) (.formatting e) .formatted [] [e] []
  | fileUnlock : WriterGoes cfg .writerFileUnlock .formatted .top [] [] []
  | close : WriterGoes cfg .writerEnd .ending .exited [] [] [.logEnd]
  | woken {c : Caller ι} : WriterGoes cfg (.logNotify c) .sleeping .woken [] [] []

/-- What a step that moves the writer so makes of its part of the state. -/
structure WriterStep (cfg : Config) (s s' : State ι ε) (a : Action ι ε)
    (taken finished : List (Entry ε)) (lines : List (Line ε)) : Prop where
  goes : WriterGoes cfg a s.writer s'.writer taken finished lines
  dequeued : s'.dequeued = s.dequeued ++ taken
  processed : s'.processed = s.processed ++ finished
  written : s'.written = s.written ++ lines

/-- **Every step moves the writer on the list.** -/
theorem writer_step (hg : guard s a) :
    ∃ taken finished lines, WriterStep cfg s (effect cfg s a) a taken finished lines := by
  -- the steps that take no entry, are done with none and write nothing
  have moves {b : Action ι ε} {s' : State ι ε} {p : WriterPc ε} (hp : s.writer = p)
      (hgoes : WriterGoes cfg b p s'.writer [] [] []) (hd : s'.dequeued = s.dequeued)
      (hpr : s'.processed = s.processed) (hw : s'.written = s.written) :
      ∃ taken finished lines, WriterStep cfg s s' b taken finished lines :=
    ⟨[], [], [], hp ▸ hgoes, by simpa using hd, by simpa using hpr, by simpa using hw⟩
  cases a with
  | writerStart =>
      have hw : s.writer = .start := hg
      exact ⟨[], [], [.logStart], hw ▸ .start, by simp [effect], by simp [effect], rfl⟩
  | writerLock =>
      rcases hg.1 with hw | hw
      · exact moves hw .lock rfl rfl rfl
      · exact moves hw .relock rfl rfl rfl
  | writerTest =>
      rw [effect_writerTest]
      refine moves hg ?_ rfl rfl rfl
      by_cases hempty : s.queue.isEmpty
      · simpa [hempty] using .empty
      · simpa [hempty] using .ready
  | writerSpuriousWake => exact moves hg .spuriousWake rfl rfl rfl
  | writerPop =>
      cases hq : s.queue with
      | nil => exact absurd hq hg.2
      | cons e rest =>
          have hw : s.writer = .ready := hg.1
          refine ⟨[e], [], [], ?_, by simp [effect, hq], by simp [effect, hq], by simp [effect, hq]⟩
          simpa [effect, hq, hw] using .pop
  | writerNotify e wakes => exact moves hg.1 .notify rfl rfl rfl
  | writerUnlock e => exact moves hg .unlock rfl rfl rfl
  | writerJudge e =>
      have hw : s.writer = .judging e := hg
      rw [effect_writerJudge]
      by_cases hother : e.level = .OTHER
      · refine ⟨[], [e], [], ?_, by simp, by simp [hother], by simp⟩
        simpa [hother, hw] using .leave hother
      · refine moves hg ?_ rfl (by simp [hother]) rfl
        simpa [hother] using .judge hother
  | writerFileLock e => exact moves hg.1 .fileLock rfl rfl rfl
  | writerFormat e =>
      have hw : s.writer = .formatting e := hg
      rw [effect_writerFormat]
      by_cases hlevel : cfg.level ≤ e.level.value
      · exact ⟨[], [e], [.text e], hw ▸ .format hlevel, by simp, rfl, by simp [hlevel]⟩
      · exact ⟨[], [e], [], hw ▸ .filter hlevel, by simp, rfl, by simp [hlevel]⟩
  | writerFileUnlock => exact moves hg .fileUnlock rfl rfl rfl
  | writerEnd =>
      have hw : s.writer = .ending := hg
      exact ⟨[], [], [.logEnd], hw ▸ .close, by simp [effect], by simp [effect], rfl⟩
  | logTest c e =>
      rw [effect_logTest]
      exact moves rfl (.stays rfl) rfl rfl rfl
  | logNotify c =>
      cases hw : s.writer with
      | sleeping => exact moves hw (by simpa [effect, hw, WriterPc.wake] using .woken) rfl rfl rfl
      | _ => exact moves hw (by simpa [effect, hw, WriterPc.wake] using .stays rfl) rfl rfl rfl
  | _ => exact moves rfl (.stays rfl) rfl rfl rfl

/-! ## The queue -/

/-- What the action makes of the queue: what is popped and what is pushed. -/
inductive QueueGoes : Action ι ε → List (Entry ε) → List (Entry ε) →
    List (Entry ε) → List (Caller ι × Entry ε) → Prop
  | stays {a : Action ι ε} {q : List (Entry ε)} : QueueGoes a q q [] []
  | pop {e : Entry ε} {rest : List (Entry ε)} : QueueGoes .writerPop (e :: rest) rest [e] []
  | push {c : Caller ι} {e : Entry ε} {q : List (Entry ε)} :
      QueueGoes (.logPush c e) q (q ++ [e]) [] [(c, e)]

/-- What such a step makes of the queue and the two histories. -/
structure QueueStep (s s' : State ι ε) (a : Action ι ε) (popped : List (Entry ε))
    (pushed : List (Caller ι × Entry ε)) : Prop where
  goes : QueueGoes a s.queue s'.queue popped pushed
  dequeued : s'.dequeued = s.dequeued ++ popped
  pushed : s'.pushed = s.pushed ++ pushed

theorem queue_step (hg : guard s a) :
    ∃ popped pushed, QueueStep s (effect cfg s a) a popped pushed := by
  have stays {b : Action ι ε} {s' : State ι ε} (hq : s'.queue = s.queue)
      (hd : s'.dequeued = s.dequeued) (hp : s'.pushed = s.pushed) :
      ∃ popped pushed, QueueStep s s' b popped pushed :=
    ⟨[], [], hq ▸ .stays, by simpa using hd, by simpa using hp⟩
  cases a with
  | writerTest =>
      rw [effect_writerTest]
      exact stays rfl rfl rfl
  | writerPop =>
      cases hq : s.queue with
      | nil => exact absurd hq hg.2
      | cons e rest =>
          exact ⟨[e], [], by simpa [effect, hq] using .pop, by simp [effect, hq],
            by simp [effect, hq]⟩
  | writerJudge e =>
      rw [effect_writerJudge]
      exact stays rfl rfl rfl
  | writerFormat e =>
      rw [effect_writerFormat]
      exact stays rfl rfl rfl
  | logTest c e =>
      rw [effect_logTest]
      exact stays rfl rfl rfl
  | logPush c e => exact ⟨[], [(c, e)], .push, by simp [effect, State.moveTo], rfl⟩
  | _ => exact stays rfl rfl rfl

/-! ## The calls of `Log` -/

/-- The action is a call of `Log`. -/
inductive Logs : Action ι ε → Caller ι → Entry ε → Prop
  | log {c : ι} {level : Level} {event : ε} :
      Logs (.log c level event) (.producer c) ⟨level, some event⟩
  | dtorBegin : Logs .dtorBegin .destructor sentinel

omit [DecidableEq ι] in
lemma Logs.goes {c : Caller ι} {e : Entry ε} (h : Logs a c e) : Goes a c .idle (.entering e) := by
  cases h with
  | log => exact .log
  | dtorBegin => exact .dtorBegin

/-- What a caller has logged afterwards. -/
theorem logged_step (s : State ι ε) (a : Action ι ε) (d : Caller ι) :
    ((∀ e, ¬ Logs a d e) ∧ (effect cfg s a).logged d = s.logged d) ∨
      ∃ e, Logs a d e ∧ (effect cfg s a).logged d = s.logged d ++ [e] := by
  cases a with
  | writerTest => exact .inl ⟨by rintro e ⟨⟩, by rw [effect_writerTest]⟩
  | writerPop => exact .inl ⟨by rintro e ⟨⟩, by rw [effect_writerPop]⟩
  | writerJudge e => exact .inl ⟨by rintro e ⟨⟩, by rw [effect_writerJudge]⟩
  | writerFormat e => exact .inl ⟨by rintro e ⟨⟩, by rw [effect_writerFormat]⟩
  | logTest c e =>
      refine .inl ⟨by rintro e ⟨⟩, ?_⟩
      rw [effect_logTest]
      rfl
  | log c level event =>
      by_cases hd : d = .producer c
      · subst hd
        exact .inr ⟨_, .log, by simp [effect, State.call]⟩
      · exact .inl ⟨by rintro e ⟨⟩; exact hd rfl, update_of_ne hd _ _⟩
  | dtorBegin =>
      by_cases hd : d = .destructor
      · subst hd
        exact .inr ⟨_, .dtorBegin, by simp [effect, State.call]⟩
      · exact .inl ⟨by rintro e ⟨⟩; exact hd rfl, update_of_ne hd _ _⟩
  | _ => exact .inl ⟨by rintro e ⟨⟩, rfl⟩

/-! ## The life of the appender -/

/-- What the action makes of it. -/
inductive LifeGoes : Action ι ε → Life → Life → Prop
  | stays {a : Action ι ε} {l : Life} : LifeGoes a l l
  | ctorOpen : LifeGoes .ctorOpen .opening .alive
  | dtorBegin : LifeGoes .dtorBegin .alive .logging
  | dtorLogged : LifeGoes .dtorLogged .logging .joining
  | dtorJoin : LifeGoes .dtorJoin .joining .closing
  | dtorClose : LifeGoes .dtorClose .closing .destroyed

theorem life_step (hg : guard s a) : LifeGoes a s.life (effect cfg s a).life := by
  cases a with
  | ctorOpen => exact (show s.life = .opening from hg) ▸ .ctorOpen
  | writerTest => rw [effect_writerTest]; exact .stays
  | writerPop => rw [effect_writerPop]; exact .stays
  | writerJudge e => rw [effect_writerJudge]; exact .stays
  | writerFormat e => rw [effect_writerFormat]; exact .stays
  | logTest c e => rw [effect_logTest]; exact .stays
  | dtorBegin => exact hg.1 ▸ .dtorBegin
  | dtorLogged => exact hg.1 ▸ .dtorLogged
  | dtorJoin => exact hg.1 ▸ .dtorJoin
  | dtorClose => exact (show s.life = .closing from hg) ▸ .dtorClose
  | _ => exact .stays

end CppServer.Logger
