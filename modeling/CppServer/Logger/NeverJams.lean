import Mathlib.Data.Finset.Card
import CppServer.Logger.Bounded
import CppServer.Logger.HandOver

/-!
# The log queue never jams

A caller of `Log` that finds the queue full waits on `cv_not_full_`; the writer frees one slot at
a time and notifies one waiting caller for each.  A slot may be taken by a caller that has just
arrived, before the one that was notified resumes.

* `Slots` — as long as some caller waits, there are at most as many free slots as notifications
  under way.  Whether a caller that resumes was notified or woke up on its own is not in the
  state, so the notifications are a history variable (`watched`).
* `owed_or_idle` — the threads never all wait for each other.
* `bounded_never_jams` — these together with the bound, over every interleaving.
-/

namespace CppServer.Logger

open Function (update_of_ne)

variable {ι ε : Type*}

/-! ## Notifications under way -/

/-- The points of a caller from its wake-up to its push. -/
def CallerPc.resuming : CallerPc ε → Prop
  | .woken _ => True
  | .test _ => True
  | .room _ => True
  | _ => False

lemma CallerPc.awake_of_resuming {pc : CallerPc ε} (h : pc.resuming) : pc.asleep = false := by
  cases pc with
  | sleeping e => exact absurd h id
  | _ => rfl

/-- The notification the writer is about to give for the entry it has taken off the queue. -/
def WriterPc.notifies : WriterPc ε → ℕ
  | .popped _ => 1
  | _ => 0

/-- The callers that have been notified and have neither pushed nor found the queue full since:
what a step makes of them. -/
def recordNotified [DecidableEq ι] (cfg : Config) (s : State ι ε) :
    Action ι ε → Finset (Caller ι) → Finset (Caller ι)
  | .writerNotify _ (some c), notified => insert c notified
  | .logTest c _, notified =>
      if cfg.maxQueueSize ≤ s.queue.length then notified.erase c else notified
  | .logPush c _, notified => notified.erase c
  | _, notified => notified

/-- While some caller waits, the free slots are spoken for. -/
structure Slots (cfg : Config) (s : State ι ε) (notified : Finset (Caller ι)) : Prop where
  resuming : ∀ c ∈ notified, (s.caller c).resuming
  slots : (∃ c, (s.caller c).asleep = true) →
    cfg.maxQueueSize ≤ s.queue.length + notified.card + s.writer.notifies

theorem slots_init {cfg : Config} : Slots cfg ({} : State ι ε) ∅ where
  resuming c hc := by simp at hc
  slots := by simp [CallerPc.asleep]

section Step

variable [DecidableEq ι] {cfg : Config} {s : State ι ε} {a : Action ι ε}
  {notified : Finset (Caller ι)}

/-- Only a notification adds a caller. -/
lemma mem_recordNotified {d : Caller ι} (hd : d ∈ recordNotified cfg s a notified) :
    d ∈ notified ∨ ∃ e, a = .writerNotify e (some d) := by
  cases a with
  | writerNotify e wakes =>
      cases wakes with
      | none => exact .inl hd
      | some c =>
          rcases Finset.mem_insert.mp hd with rfl | hold
          · exact .inr ⟨e, rfl⟩
          · exact .inl hold
  | logTest c e =>
      simp only [recordNotified] at hd
      split at hd
      · exact .inl (Finset.mem_of_mem_erase hd)
      · exact .inl hd
  | logPush c e => exact .inl (Finset.mem_of_mem_erase hd)
  | _ => exact .inl hd

lemma resuming_step (h : ∀ c ∈ notified, (s.caller c).resuming) (hg : guard s a) (d : Caller ι)
    (hd : d ∈ recordNotified cfg s a notified) : ((effect cfg s a).caller d).resuming := by
  rcases caller_step cfg hg d with ⟨hstays, hsame⟩ | hgoes
  · rcases mem_recordNotified hd with hold | ⟨e, rfl⟩
    · rw [hsame]
      exact h d hold
    · exact absurd .woken (hstays (.sleeping e) (.woken e))
  · have hold := h d
    generalize hq : (effect cfg s a).caller d = q at hgoes ⊢
    generalize s.caller d = p at hgoes hold
    cases hgoes with
    | woken => trivial
    | lock => trivial
    | relock => trivial
    | room => trivial
    | spuriousWake => trivial
    | full =>
        -- a caller that finds the queue full is not counted any more
        rw [effect_logTest] at hq
        by_cases hfull : cfg.maxQueueSize ≤ s.queue.length
        · simp [recordNotified, hfull] at hd
        · simp [State.moveTo, hfull] at hq
    | push => simp [recordNotified] at hd
    | _ => exact absurd (hold hd) id

/-- A caller goes to sleep only when it finds the queue full. -/
lemma asleep_step (cfg : Config) (hg : guard s a) (ha : ∀ c e, a ≠ .logTest c e)
    (hs : ∃ c, ((effect cfg s a).caller c).asleep = true) :
    ∃ c, (s.caller c).asleep = true := by
  obtain ⟨c, hc⟩ := hs
  refine ⟨c, ?_⟩
  rcases caller_step cfg hg c with ⟨-, hsame⟩ | hgoes
  · rw [← hsame, hc]
  · generalize (effect cfg s a).caller c = q at hgoes hc
    generalize s.caller c = p at hgoes ⊢
    cases hgoes with
    | full => exact absurd rfl (ha _ _)
    | woken => rfl
    | spuriousWake => rfl
    | _ => simp [CallerPc.asleep] at hc

omit [DecidableEq ι] in
/-- The writer moves, and owes as many notifications as before. -/
lemma slots_writer (h : Slots cfg s notified) {p q : WriterPc ε} (hp : s.writer = p)
    (hpq : p.notifies = q.notifies) (hs : ∃ c, (s.caller c).asleep = true) :
    cfg.maxQueueSize ≤ s.queue.length + notified.card + q.notifies := by
  have hold := h.slots hs
  rwa [hp, hpq] at hold

/-- The notification of the writer goes to a caller that waits, if there is one. -/
lemma slots_notify (h : Slots cfg s notified) {e : Entry ε} {wakes : Option (Caller ι)}
    (hg : guard s (.writerNotify e wakes))
    (hs : ∃ c, ((effect cfg s (.writerNotify e wakes)).caller c).asleep = true) :
    cfg.maxQueueSize ≤ s.queue.length
      + (recordNotified cfg s (.writerNotify e wakes) notified).card := by
  cases wakes with
  | none =>
      obtain ⟨c, hc⟩ := hs
      have hnone : (s.caller c).asleep = false := hg.2 c
      rw [show ((effect cfg s (.writerNotify e none)).caller c) = s.caller c from rfl, hnone] at hc
      simp at hc
  | some c =>
      have hasleep : (s.caller c).asleep = true := hg.2
      have hold := slots_writer h (q := .popped e) hg.1 rfl ⟨c, hasleep⟩
      have hnew : c ∉ notified := by
        intro hmem
        rw [CallerPc.awake_of_resuming (h.resuming c hmem)] at hasleep
        simp at hasleep
      simp only [recordNotified, Finset.card_insert_of_notMem hnew, WriterPc.notifies] at hold ⊢
      omega

/-- **A free slot is matched by a notification**, as long as somebody waits.  The writer frees a
slot and owes a notification; it pays by notifying a caller, if one waits.  A push takes a slot
and may use up the notification of the caller that pushes.  A caller goes to sleep only when no
slot is free. -/
lemma slots_step (h : Slots cfg s notified) (hg : guard s a)
    (hs : ∃ c, ((effect cfg s a).caller c).asleep = true) :
    cfg.maxQueueSize ≤ (effect cfg s a).queue.length
      + (recordNotified cfg s a notified).card + (effect cfg s a).writer.notifies := by
  cases a with
  | writerStart => exact slots_writer h (q := .top) hg rfl hs
  | writerLock =>
      rcases hg.1 with hw | hw
      · exact slots_writer h (q := .test) hw rfl hs
      · exact slots_writer h (q := .test) hw rfl hs
  | writerTest =>
      rw [effect_writerTest] at hs ⊢
      exact slots_writer h hg (by cases s.queue <;> rfl) hs
  | writerSpuriousWake => exact slots_writer h (q := .woken) hg rfl hs
  | writerPop =>
      cases hq : s.queue with
      | nil => exact absurd hq hg.2
      | cons e rest =>
          simp only [effect, hq] at hs
          have hold := slots_writer h hg.1 rfl hs
          simp only [effect, hq, recordNotified, WriterPc.notifies, List.length_cons] at hold ⊢
          omega
  | writerNotify e wakes => exact slots_notify h hg hs
  | writerUnlock e => exact slots_writer h (q := .judging e) hg rfl hs
  | writerJudge e =>
      rw [effect_writerJudge] at hs ⊢
      exact slots_writer h hg (by by_cases hl : e.level = .OTHER <;> simp [hl, WriterPc.notifies]) hs
  | writerFileLock e => exact slots_writer h (q := .formatting e) hg.1 rfl hs
  | writerFormat e =>
      rw [effect_writerFormat] at hs ⊢
      exact slots_writer h hg rfl hs
  | writerFileUnlock => exact slots_writer h (q := .top) hg rfl hs
  | writerEnd => exact slots_writer h (q := .exited) hg rfl hs
  | logTest c e =>
      simp only [effect, recordNotified] at hs ⊢
      split
      · rename_i hfull
        show cfg.maxQueueSize ≤ s.queue.length + _ + _
        omega
      · rename_i hroom
        rw [if_neg hroom] at hs
        obtain ⟨d, hd⟩ := hs
        refine h.slots ⟨d, ?_⟩
        by_cases hdc : d = c
        · subst hdc
          simp [State.moveTo, CallerPc.asleep] at hd
        · simpa [State.moveTo, update_of_ne hdc] using hd
  | logPush c e =>
      have hold := h.slots (asleep_step cfg hg (by simp) hs)
      have hcard : notified.card - 1 ≤ (notified.erase c).card := Finset.pred_card_le_card_erase
      simp only [effect, State.moveTo, recordNotified, List.length_append,
        List.length_singleton]
      omega
  | logNotify c =>
      have hold := h.slots (asleep_step cfg hg (by simp) hs)
      have hwake : s.writer.wake.notifies = s.writer.notifies := by cases s.writer <;> rfl
      show cfg.maxQueueSize ≤ s.queue.length + notified.card + s.writer.wake.notifies
      rwa [hwake]
  | _ => exact h.slots (asleep_step cfg hg (by simp) hs)

theorem slots_kept (h : Slots cfg s notified) (hg : guard s a) :
    Slots cfg (effect cfg s a) (recordNotified cfg s a notified) where
  resuming := resuming_step h.resuming hg
  slots := slots_step h hg

end Step

/-! ## Some thread can go on -/

/-- The steps a thread takes by itself once it has begun: not a wake-up nobody gave it, and not
the start of a call. -/
def Action.Owed : Action ι ε → Prop
  | .writerSpuriousWake => False
  | .log _ _ _ => False
  | .logSpuriousWake _ _ => False
  | .reopen _ => False
  | .dtorBegin => False
  | _ => True

/-- Nothing is queued, the writer waits for work, and nobody is inside a call. -/
structure State.Idle (s : State ι ε) : Prop where
  alive : s.life = .alive
  queue : s.queue = []
  writer : s.writer = .sleeping
  callers : ∀ c, s.caller c = .idle

section Progress

variable {cfg : Config} {s : State ι ε}

lemma exists_mayNotify (s : State ι ε) : ∃ wakes, s.mayNotify wakes := by
  by_cases hc : ∃ c, (s.caller c).asleep = true
  · obtain ⟨c, hc⟩ := hc
    exact ⟨some c, hc⟩
  · refine ⟨none, fun c => ?_⟩
    by_contra hne
    exact hc ⟨c, by simpa using hne⟩

lemma fileMtx_owner_owed (h : Bounded cfg s) {t : Thread ι} (hm : s.fileMtx = some t) :
    ∃ a : Action ι ε, a.Owed ∧ guard s a := by
  have hin : s.holdsFileMtx t := (h.fileMtx t).mpr hm
  cases t with
  | writer =>
      cases hp : s.writer with
      | formatting e => exact ⟨.writerFormat e, trivial, hp⟩
      | formatted => exact ⟨.writerFileUnlock, trivial, hp⟩
      | _ => exact absurd ((among_writer hp).mp hin) id
  | caller c =>
      cases hp : s.caller c with
      | reopenLocked => exact ⟨.reopenClose c, trivial, hp⟩
      | reopenClosed => exact ⟨.reopenOpen c, trivial, hp⟩
      | reopenOpened => exact ⟨.reopenUnlock c, trivial, hp⟩
      | _ => exact absurd ((among_caller hp).mp hin) id

lemma caller_owed (hm : s.mtx = none) (hf : s.fileMtx = none) {c : Caller ι}
    (hidle : s.caller c ≠ .idle) (hsleep : (s.caller c).asleep = false) :
    ∃ a : Action ι ε, a.Owed ∧ guard s a := by
  cases hp : s.caller c with
  | idle => exact absurd hp hidle
  | entering e => exact ⟨.logLock c e, trivial, .inl hp, hm⟩
  | test e => exact ⟨.logTest c e, trivial, hp⟩
  | sleeping e => simp [hp, CallerPc.asleep] at hsleep
  | woken e => exact ⟨.logLock c e, trivial, .inr hp, hm⟩
  | room e => exact ⟨.logPush c e, trivial, hp⟩
  | pushed => exact ⟨.logNotify c, trivial, hp⟩
  | notified => exact ⟨.logUnlock c, trivial, hp⟩
  | reopening => exact ⟨.reopenLock c, trivial, hp, hf⟩
  | reopenLocked => exact ⟨.reopenClose c, trivial, hp⟩
  | reopenClosed => exact ⟨.reopenOpen c, trivial, hp⟩
  | reopenOpened => exact ⟨.reopenUnlock c, trivial, hp⟩

/-- A caller that waits although there is room is not alone: a notification is under way. -/
lemma Slots.announced {notified : Finset (Caller ι)} (h : Slots cfg s notified) {c : Caller ι}
    (hc : (s.caller c).asleep = true) (hroom : s.queue.length < cfg.maxQueueSize) :
    notified.Nonempty ∨ ∃ e, s.writer = .popped e := by
  have hslots := h.slots ⟨c, hc⟩
  cases hp : s.writer with
  | popped e => exact .inr ⟨e, rfl⟩
  | _ =>
      refine .inl (Finset.card_pos.mp ?_)
      simp only [hp, WriterPc.notifies] at hslots
      omega

variable [DecidableEq ι]

lemma mtx_owner_owed (hi : Inv cfg s) (h : Bounded cfg s) {t : Thread ι} (hm : s.mtx = some t) :
    ∃ a : Action ι ε, a.Owed ∧ guard s a := by
  have hin : s.holdsMtx t := (h.mtx t).mpr hm
  cases t with
  | writer =>
      cases hp : s.writer with
      | test => exact ⟨.writerTest, trivial, hp⟩
      | ready => exact ⟨.writerPop, trivial, hp, hi.ready hp⟩
      | popped e =>
          obtain ⟨wakes, hwakes⟩ := exists_mayNotify s
          exact ⟨.writerNotify e wakes, trivial, hp, hwakes⟩
      | notified e => exact ⟨.writerUnlock e, trivial, hp⟩
      | _ => exact absurd ((among_writer hp).mp hin) id
  | caller c =>
      cases hp : s.caller c with
      | test e => exact ⟨.logTest c e, trivial, hp⟩
      | room e => exact ⟨.logPush c e, trivial, hp⟩
      | pushed => exact ⟨.logNotify c, trivial, hp⟩
      | notified => exact ⟨.logUnlock c, trivial, hp⟩
      | _ => exact absurd ((among_caller hp).mp hin) id

lemma writer_owed (hi : Inv cfg s) (hm : s.mtx = none) (hf : s.fileMtx = none)
    (hsleep : s.writer ≠ .sleeping) (hexit : s.writer ≠ .exited) :
    ∃ a : Action ι ε, a.Owed ∧ guard s a := by
  cases hp : s.writer with
  | start => exact ⟨.writerStart, trivial, hp⟩
  | top => exact ⟨.writerLock, trivial, .inl hp, hm⟩
  | test => exact ⟨.writerTest, trivial, hp⟩
  | sleeping => exact absurd hp hsleep
  | woken => exact ⟨.writerLock, trivial, .inr hp, hm⟩
  | ready => exact ⟨.writerPop, trivial, hp, hi.ready hp⟩
  | popped e =>
      obtain ⟨wakes, hwakes⟩ := exists_mayNotify s
      exact ⟨.writerNotify e wakes, trivial, hp, hwakes⟩
  | notified e => exact ⟨.writerUnlock e, trivial, hp⟩
  | judging e => exact ⟨.writerJudge e, trivial, hp⟩
  | filing e => exact ⟨.writerFileLock e, trivial, hp, hf⟩
  | formatting e => exact ⟨.writerFormat e, trivial, hp⟩
  | formatted => exact ⟨.writerFileUnlock, trivial, hp⟩
  | ending => exact ⟨.writerEnd, trivial, hp⟩
  | exited => exact absurd hp hexit

/-- The writer leaves its loop only at the destructor's entry. -/
lemma Inv.not_exited (h : Inv cfg s) (hs : sentinel ∉ s.dequeued) : s.writer ≠ .exited := by
  intro hw
  obtain ⟨before, after, hup⟩ := h.upToSentinel hw
  refine hs ?_
  rw [← h.hand, hup.processed]
  simp

/-- Once the destructor's call of `Log` has returned, its entry is queued or was taken. -/
lemma Inv.sentinel_handed (h : Inv cfg s) (hbegun : s.life.hasBegun = true)
    (hidle : s.caller .destructor = .idle) : sentinel ∈ s.dequeued ++ s.queue := by
  have hlog : sentinel ∈ s.logged .destructor := by
    rw [h.begun, if_pos hbegun]
    exact List.mem_singleton_self _
  rw [← h.program, hidle, show (CallerPc.idle : CallerPc ε).pending = [] from rfl,
    List.append_nil, mem_part] at hlog
  rw [h.fifo]
  exact List.mem_map_of_mem hlog

/-- With the writer asleep, nothing queued and everybody out of `Log`, only the destructor is
left to move. -/
lemma life_owed (hi : Inv cfg s) (hs : sentinel ∉ s.dequeued) (hq : s.queue = [])
    (hw : s.writer = .sleeping) (hc : ∀ c, s.caller c = .idle) :
    (∃ a : Action ι ε, a.Owed ∧ guard s a) ∨ s.Idle := by
  have hnone : s.life.hasBegun = true → False := by
    intro hbegun
    have hmem := hi.sentinel_handed hbegun (hc .destructor)
    rw [hq, List.append_nil] at hmem
    exact hs hmem
  cases hl : s.life with
  | opening => exact .inl ⟨.ctorOpen, trivial, hl⟩
  | alive => exact .inr ⟨hl, hq, hw, hc⟩
  | logging => exact .inl ⟨.dtorLogged, trivial, hl, hc .destructor⟩
  | joining => exact absurd (hnone (by rw [hl]; rfl)) id
  | closing => exact .inl ⟨.dtorClose, trivial, hl⟩
  | destroyed => exact absurd (hnone (by rw [hl]; rfl)) id

/-- **Progress.**  The owner of a mutex can go on.  With both free, so can a writer that does not
sleep and every caller that does not.  A sleeping writer has nothing queued and owes no
notification, so the slots are all free, and a caller that still waits has a notified one beside
it. -/
theorem owed_or_idle (hi : Inv cfg s) (h : Bounded cfg s) {notified : Finset (Caller ι)}
    (hn : Slots cfg s notified) (hs : sentinel ∉ s.dequeued) :
    (∃ a : Action ι ε, a.Owed ∧ guard s a) ∨ s.Idle := by
  cases hm : s.mtx with
  | some t => exact .inl (mtx_owner_owed hi h hm)
  | none =>
  cases hf : s.fileMtx with
  | some t => exact .inl (fileMtx_owner_owed h hf)
  | none =>
  by_cases hw : s.writer = .sleeping
  · by_cases hc : ∃ c, s.caller c ≠ .idle ∧ (s.caller c).asleep = false
    · obtain ⟨c, hidle, hsleep⟩ := hc
      exact .inl (caller_owed hm hf hidle hsleep)
    have hcallers : ∀ c, s.caller c = .idle ∨ (s.caller c).asleep = true := by
      intro c
      by_contra hne
      obtain ⟨hidle, hsleep⟩ := not_or.mp hne
      exact hc ⟨c, hidle, by simpa using hsleep⟩
    have hq : s.queue = [] := by
      by_contra hne
      obtain ⟨c, hp⟩ := h.fed hw hne
      rcases hcallers c with hidle | hsleep
      · simp [hp] at hidle
      · simp [hp, CallerPc.asleep] at hsleep
    by_cases hsome : ∃ c, (s.caller c).asleep = true
    · obtain ⟨c, hc⟩ := hsome
      rcases hn.announced hc (by rw [hq]; exact h.positive) with ⟨d, hd⟩ | ⟨e, he⟩
      · have hres := hn.resuming d hd
        rcases hcallers d with hidle | hsleep
        · rw [hidle] at hres
          exact absurd hres id
        · rw [CallerPc.awake_of_resuming hres] at hsleep
          simp at hsleep
      · simp [hw] at he
    · refine life_owed hi hs hq hw fun c => (hcallers c).resolve_right fun hc => hsome ⟨c, hc⟩
  · exact .inl (writer_owed hi hm hf hw (hi.not_exited hs))

end Progress

/-! ## Every reachable state -/

variable [DecidableEq ι] [∀ (s : State ι ε) a, Decidable (guard s a)]

/-- The appender with the notifications under way written down. -/
abbrev watched (ι ε : Type*) [DecidableEq ι] [∀ (s : State ι ε) a, Decidable (guard s a)]
    (cfg : Config) : Machine (State ι ε × Finset (Caller ι)) (Action ι ε) :=
  (machine ι ε cfg).recorded ∅ (recordNotified cfg)

variable {cfg : Config} {s : State ι ε}

theorem bounded_inductive :
    (machine ι ε cfg).Inductive fun s => Inv cfg s ∧ Bounded cfg s :=
  Machine.guarded_inductive (fun _ hs => hs.2 ▸ ⟨inv_init, bounded_init hs.1⟩) fun _ _ h hg =>
    ⟨inv_step h.1 hg, bounded_step h.2 hg⟩

theorem slots_of_watched {notified : Finset (Caller ι)}
    (hs : (watched ι ε cfg).Reachable (s, notified)) : Slots cfg s notified := by
  refine (Machine.recorded_reachable (J := Slots cfg) bounded_inductive ?_ ?_ hs).2
  · rintro s ⟨-, rfl⟩
    exact slots_init
  · rintro s a s' notified - hn hst
    obtain ⟨hg, rfl⟩ := Machine.guarded_step_eq_some.mp hst
    exact slots_kept hn hg

/-- **The log queue is bounded and never jams.**  In every reachable state the queue has at most
`max_queue_size_` entries; a writer that waits while something is queued is about to be notified;
a caller waits while there is room only if a notification of the callers is under way; and until
the writer has taken the destructor's entry, some thread can go on unless the appender is idle. -/
theorem bounded_never_jams (hs : (machine ι ε cfg).Reachable s) :
    s.queue.length ≤ cfg.maxQueueSize ∧
    (s.writer = .sleeping → s.queue ≠ [] → ∃ c, s.caller c = .pushed) ∧
    (∀ notified, (watched ι ε cfg).Reachable (s, notified) →
      ∀ c e, s.caller c = .sleeping e → s.queue.length < cfg.maxQueueSize →
        notified.Nonempty ∨ ∃ e, s.writer = .popped e) ∧
    (sentinel ∉ s.dequeued → (machine ι ε cfg).CanStep Action.Owed s ∨ s.Idle) := by
  obtain ⟨hi, h⟩ := bounded_inductive.reachable hs
  refine ⟨h.bound, h.fed, fun notified hn c e hc => ?_, fun hsent => ?_⟩
  · exact (slots_of_watched hn).announced (by rw [hc]; rfl)
  · obtain ⟨notified, hn⟩ := Machine.exists_recorded hs
    exact (owed_or_idle hi h (slots_of_watched hn) hsent).imp_left Machine.guarded_canStep.mpr

/-- A queue of one slot: the first entry fills it, and the second caller waits. -/
def waitsForSlot : List (Action Unit ℕ) :=
  oneEntry ++ [.dtorBegin, .logLock .destructor sentinel, .logTest .destructor sentinel,
    .writerStart, .writerLock, .writerTest, .writerPop]

theorem bounded_never_jams_waitsForSlot :
    ∃ s : State Unit ℕ, (machine Unit ℕ ⟨1, 1⟩).Reachable s ∧
      s.caller .destructor = .sleeping sentinel ∧ s.queue.length < 1 ∧
      ((machine Unit ℕ ⟨1, 1⟩).CanStep Action.Owed s ∨ s.Idle) := by
  obtain ⟨s, hs, hp⟩ := Machine.exists_reachable_of_run (m := machine Unit ℕ ⟨1, 1⟩)
    ⟨Nat.one_pos, rfl⟩ waitsForSlot
    (fun s => decide (s.caller .destructor = .sleeping sentinel ∧ s.queue.length < 1 ∧
      sentinel ∉ s.dequeued)) (by decide)
  obtain ⟨hc, hroom, hsent⟩ := of_decide_eq_true hp
  exact ⟨s, hs, hc, hroom, (bounded_never_jams hs).2.2.2 hsent⟩

end CppServer.Logger
