import CppServer.ThreadPool.Safety

/-!
# The pool is never stuck

`notify_one` is called after the mutex has been released, and wakes nobody if nobody sleeps at
that moment; a worker need not wake up on its own.  So a queued task could be left with workers
that all sleep, if a wake-up could get lost.

* `Awake` — it cannot.  While something is queued, some worker does not sleep or some caller of
  `Add` has yet to notify; and once the destructor has called `notify_all`, no worker sleeps.
* `canStep_or_settled` — so in every reachable state a thread can go on, or nothing is left to do.
* `never_stuck` — both, over every interleaving.
-/

namespace CppServer.ThreadPool

open Function (update update_self update_of_ne)

variable {n : ℕ} {ι τ : Type*}

/-! ## What a thread owes -/

/-- A step some thread has to take: not the start of a call, nor a wake-up without a reason. -/
def Action.Owed : Action n ι τ → Prop
  | .spuriousWake _ => False
  | .add _ _ => False
  | .dtorBegin => False
  | _ => True

/-- A caller of `Add` has pushed its task and is still to call `notify_one`. -/
def State.Announcing (s : State n ι τ) : Prop := ∃ c k, (s.caller c).ticket = some k

/-- The destructor has set `stop_` and is still to call `notify_all`. -/
def DtorPc.Announcing (p : DtorPc) : Prop := p = .stopped ∨ p = .notifying

/-- The destructor has called `notify_all`. -/
def DtorPc.hasNotified : DtorPc → Prop
  | .joining _ => True
  | .done => True
  | _ => False

/-- No task is queued or held by a worker, and the destructor has not been called. -/
def State.Quiet (s : State n ι τ) : Prop :=
  s.taskQueue = [] ∧ (∀ w, (s.worker w).task = []) ∧ s.dtor = .alive

/-- The destructor has returned, and the workers are gone. -/
def State.Over (s : State n ι τ) : Prop := s.dtor = .done ∧ ∀ w, s.worker w = .exited

/-- No wake-up has been lost. -/
structure Awake (s : State n ι τ) : Prop where
  queued : s.taskQueue ≠ [] → (∃ w, s.worker w ≠ .sleeping) ∨ s.Announcing
  notified : s.dtor.hasNotified → ∀ w, s.worker w ≠ .sleeping
  joining : ∀ i, s.dtor = .joining i → i ≤ n

theorem awake_init : Awake ({} : State n ι τ) where
  queued h := absurd rfl h
  notified h := absurd h id
  joining _ h := by simp at h

variable {s : State n ι τ}

section Step

variable [DecidableEq ι] {a : Action n ι τ}

lemma wakeAll_ne_sleeping (worker : Fin n → WorkerPc τ) (w : Fin n) :
    wakeAll worker w ≠ .sleeping := by
  rcases wakeAll_cases worker w with hw | ⟨-, hw⟩
  · rw [hw]
    intro hsleep
    simp [wakeAll, hsleep] at hw
  · simp [hw]

/-- A caller that moves still announces its task, or had none to announce. -/
lemma announcing_update {c : ι} {p q : AddPc τ} (hc : s.caller c = p)
    (hpq : p.ticket = none ∨ ∃ k, q.ticket = some k) (h : s.Announcing) :
    ∃ d k, (update s.caller c q d).ticket = some k := by
  obtain ⟨d, k, hk⟩ := h
  by_cases hd : d = c
  · subst hd
    rcases hpq with hp | ⟨k', hq⟩
    · rw [hc, hp] at hk
      simp at hk
    · exact ⟨d, k', by rw [update_self, hq]⟩
  · exact ⟨d, k, by rw [update_of_ne hd, hk]⟩

/-- A queued task has somebody to see to it, after every step.  The workers that move are awake
afterwards unless they have seen the queue empty; a caller stops announcing only in
`notify_one`, after which some worker is awake. -/
lemma queued_step (hn : 0 < n) (h : Awake s) (hg : guard s a) (hq : (effect s a).taskQueue ≠ []) :
    (∃ w, (effect s a).worker w ≠ .sleeping) ∨ (effect s a).Announcing := by
  have moved : ∀ {f : Fin n → WorkerPc τ} (w : Fin n) {p : WorkerPc τ}, p ≠ .sleeping →
      ∃ v, update f w p v ≠ .sleeping := fun w _ hp => ⟨w, by rwa [update_self]⟩
  cases a with
  | lock w => exact .inl (moved w (by simp))
  | test w =>
      rw [effect_test] at hq ⊢
      have hwake : s.wakeable = true := wakeable_eq_true.mpr (.inr hq)
      exact .inl (moved w (by simp [hwake]))
  | spuriousWake w => exact .inl (moved w (by simp))
  | pop w =>
      rw [effect_pop]
      exact .inl (moved w (by cases s.taskQueue <;> simp))
  | unlock w t => exact .inl (moved w (by simp))
  | finish w t o => exact .inl (moved w (by simp))
  | add c f =>
      exact (h.queued hq).imp_right (announcing_update (q := .entering f) hg (.inl rfl))
  | addLock c f =>
      exact (h.queued hq).imp_right (announcing_update (q := .locked f) hg.1 (.inl rfl))
  | addTest c f =>
      rw [effect_addTest] at hq ⊢
      exact (h.queued hq).imp_right (announcing_update hg (.inl rfl))
  | addPush c f => exact .inr ⟨c, s.pushed.length, by simp [effect, AddPc.ticket]⟩
  | addUnlock c k =>
      exact (h.queued hq).imp_right
        (announcing_update (q := .notifying k) hg (.inr ⟨k, rfl⟩))
  | addNotify c k wakes =>
      cases wakes with
      | none => exact .inl ⟨⟨0, hn⟩, hg.2 _⟩
      | some w => exact .inl (moved w (by simp))
  | dtorNotifyAll => exact .inl ⟨⟨0, hn⟩, wakeAll_ne_sleeping _ _⟩
  | _ => exact h.queued hq

/-- Once everybody has been woken nobody falls asleep again: the test of the wait sees `stop_`. -/
lemma notified_step (hs : s.dtor.hasNotified → s.stop = true) (h : Awake s) (hg : guard s a)
    (hd : (effect s a).dtor.hasNotified) (v : Fin n) : (effect s a).worker v ≠ .sleeping := by
  intro hv
  obtain ⟨taken, ended, hgoes, -, -⟩ := worker_step hg v
  rw [hv] at hgoes
  generalize hp : s.worker v = p at hgoes
  cases hgoes with
  | stays =>
      have hold := h.notified
      have hdtor := dtor_step hg
      generalize (effect s a).dtor = q at hdtor hd
      generalize (effect s a).stop = b' at hdtor
      generalize s.dtor = p at hdtor hold
      cases hdtor with
      | stays => exact hold hd v hp
      | notifyAll => exact wakeAll_ne_sleeping _ _ hv
      | join => exact hold trivial v hp
      | finish => exact hold trivial v hp
      | _ => exact hd
  | sleep =>
      rw [effect_test] at hd hv
      simp [wakeable_eq_true.mpr (.inl (hs hd))] at hv

lemma joining_step (h : ∀ i, s.dtor = .joining i → i ≤ n) (hg : guard s a) (i : ℕ)
    (hi : (effect s a).dtor = .joining i) : i ≤ n := by
  have hgoes := dtor_step hg
  rw [hi] at hgoes
  generalize (effect s a).stop = b' at hgoes
  generalize hp : s.dtor = p at hgoes
  cases hgoes with
  | stays => exact h i hp
  | notifyAll => exact Nat.zero_le n
  | @join w => exact w.isLt

omit [DecidableEq ι] in
lemma Inv.stop_of_notified (h : Inv s) (hd : s.dtor.hasNotified) : s.stop = true := by
  refine h.stopped.mp ?_
  cases hdtor : s.dtor <;> simp_all [DtorPc.hasNotified, DtorPc.hasStopped]

theorem awake_step (hn : 0 < n) (hi : Inv s) (h : Awake s) (hg : guard s a) :
    Awake (effect s a) where
  queued := queued_step hn h hg
  notified := notified_step hi.stop_of_notified h hg
  joining := joining_step h.joining hg

end Step

/-! ## Somebody can go on -/

/-- A thread that is neither idle nor at a wait can take its next step, when the mutex is free. -/
lemma worker_owed (h : Inv s) (hm : s.tasksMtx = none) {w : Fin n}
    (hw : s.worker w ≠ .sleeping) (hexit : s.worker w ≠ .exited) :
    ∃ a : Action n ι τ, a.Owed ∧ guard s a := by
  cases hp : s.worker w with
  | top => exact ⟨.lock w, trivial, .inl hp, hm⟩
  | test => exact ⟨.test w, trivial, hp⟩
  | sleeping => exact absurd hp hw
  | woken => exact ⟨.lock w, trivial, .inr hp, hm⟩
  | ready => exact ⟨.pop w, trivial, hp, wakeable_eq_true.mp (h.ready w hp)⟩
  | popped t => exact ⟨.unlock w t, trivial, hp⟩
  | running t => exact ⟨.finish w t .returned, trivial, hp⟩
  | exited => exact absurd hp hexit

/-- `notify_one` can always be called: there is a sleeping worker to wake, or none. -/
lemma exists_mayNotify (s : State n ι τ) : ∃ wakes, s.mayNotify wakes := by
  by_cases hw : ∃ w, s.worker w = .sleeping
  · obtain ⟨w, hw⟩ := hw
    exact ⟨some w, hw⟩
  · exact ⟨none, fun w hsleep => hw ⟨w, hsleep⟩⟩

lemma caller_owed (hm : s.tasksMtx = none) {c : ι} (hc : s.caller c ≠ .idle) :
    ∃ a : Action n ι τ, a.Owed ∧ guard s a := by
  cases hp : s.caller c with
  | idle => exact absurd hp hc
  | entering f => exact ⟨.addLock c f, trivial, hp, hm⟩
  | locked f => exact ⟨.addTest c f, trivial, hp⟩
  | admitted f => exact ⟨.addPush c f, trivial, hp⟩
  | pushed k => exact ⟨.addUnlock c k, trivial, hp⟩
  | notifying k =>
      obtain ⟨wakes, hwakes⟩ := exists_mayNotify s
      exact ⟨.addNotify c k wakes, trivial, hp, hwakes⟩

/-- The owner of the mutex can take its next step. -/
lemma owner_owed (h : Inv s) {t : Thread n ι} (hm : s.tasksMtx = some t) :
    ∃ a : Action n ι τ, a.Owed ∧ guard s a := by
  have hin : s.inside t := (h.excl t).mpr hm
  cases t with
  | worker w =>
      cases hp : s.worker w with
      | test => exact ⟨.test w, trivial, hp⟩
      | ready => exact ⟨.pop w, trivial, hp, wakeable_eq_true.mp (h.ready w hp)⟩
      | popped t => exact ⟨.unlock w t, trivial, hp⟩
      | _ => exact absurd ((State.inside_worker hp).mp hin) id
  | caller c =>
      cases hp : s.caller c with
      | locked f => exact ⟨.addTest c f, trivial, hp⟩
      | admitted f => exact ⟨.addPush c f, trivial, hp⟩
      | pushed k => exact ⟨.addUnlock c k, trivial, hp⟩
      | _ => exact absurd ((State.inside_caller hp).mp hin) id
  | destructor =>
      cases hp : s.dtor with
      | locked => exact ⟨.dtorStop, trivial, hp⟩
      | stopped => exact ⟨.dtorUnlock, trivial, hp⟩
      | _ => exact absurd ((State.inside_dtor hp).mp hin) id

/-- With everybody else asleep or gone, the destructor can take its next step: the workers it
joins do not sleep. -/
lemma dtor_owed (h : Awake s) (hm : s.tasksMtx = none)
    (hworkers : ∀ w, s.worker w = .sleeping ∨ s.worker w = .exited)
    (hd : s.dtor ≠ .alive) (hdone : s.dtor ≠ .done) :
    ∃ a : Action n ι τ, a.Owed ∧ guard s a := by
  cases hp : s.dtor with
  | alive => exact absurd hp hd
  | entering => exact ⟨.dtorLock, trivial, hp, hm⟩
  | locked => exact ⟨.dtorStop, trivial, hp⟩
  | stopped => exact ⟨.dtorUnlock, trivial, hp⟩
  | notifying => exact ⟨.dtorNotifyAll, trivial, hp⟩
  | joining i =>
      rcases Nat.lt_or_eq_of_le (h.joining i hp) with hlt | rfl
      · have hawake := h.notified (by rw [hp]; trivial) ⟨i, hlt⟩
        exact ⟨.dtorJoin ⟨i, hlt⟩, trivial, hp, (hworkers ⟨i, hlt⟩).resolve_left hawake⟩
      · exact ⟨.dtorReturn, trivial, hp⟩
  | done => exact absurd hp hdone

/-- **Progress.**  The owner of the mutex can go on.  If the mutex is free, so can every worker
that does not sleep and every caller of `Add`.  With all workers asleep or gone and all callers
idle, a queued task would be one whose wake-up was lost, and the destructor can go on. -/
theorem owed_or_settled (hi : Inv s) (h : Awake s) :
    (∃ a : Action n ι τ, a.Owed ∧ guard s a) ∨ s.Quiet ∨ s.Over := by
  cases hm : s.tasksMtx with
  | some t => exact .inl (owner_owed hi hm)
  | none =>
      by_cases hw : ∃ w, s.worker w ≠ .sleeping ∧ s.worker w ≠ .exited
      · obtain ⟨w, hsleep, hexit⟩ := hw
        exact .inl (worker_owed hi hm hsleep hexit)
      by_cases hc : ∃ c, s.caller c ≠ .idle
      · obtain ⟨c, hc⟩ := hc
        exact .inl (caller_owed hm hc)
      have hworkers : ∀ w, s.worker w = .sleeping ∨ s.worker w = .exited := by
        intro w
        by_contra hne
        exact hw ⟨w, not_or.mp hne⟩
      by_cases hdone : s.dtor = .done
      · refine .inr (.inr ⟨hdone, fun w => ?_⟩)
        exact (hworkers w).resolve_left (h.notified (by rw [hdone]; trivial) w)
      by_cases hd : s.dtor = .alive
      · refine .inr (.inl ⟨?_, fun w => ?_, hd⟩)
        · by_contra hq
          rcases h.queued hq with ⟨w, hsleep⟩ | ⟨c, k, hk⟩
          · exact hq (hi.exited w ((hworkers w).resolve_left hsleep)).2
          · rw [show s.caller c = .idle from by_contra fun hne => hc ⟨c, hne⟩] at hk
            simp [AddPc.ticket] at hk
        · rcases hworkers w with hw | hw
          · rw [hw]
            rfl
          · rw [hw]
            rfl
      · exact .inl (dtor_owed h hm hworkers hd hdone)

/-- **No wake-up is lost.**  With a task queued, or `stop_` set and a worker left, the workers do
not all wait unless a notification is still to come. -/
theorem announced_of_all_wait (hi : Inv s) (h : Awake s)
    (hwork : s.taskQueue ≠ [] ∨ s.stop = true ∧ ∃ w, s.worker w ≠ .exited)
    (hworkers : ∀ w, s.worker w = .sleeping ∨ s.worker w = .exited) :
    s.Announcing ∨ s.dtor.Announcing := by
  rcases hwork with hq | ⟨hstop, w, hw⟩
  · rcases h.queued hq with ⟨w, hsleep⟩ | hann
    · exact absurd (hi.exited w ((hworkers w).resolve_left hsleep)).2 hq
    · exact .inl hann
  · have hsleep := (hworkers w).resolve_right hw
    have hpast := hi.stopped.mpr hstop
    have hawake : ¬ s.dtor.hasNotified := fun hd => h.notified hd w hsleep
    generalize s.dtor = d at hpast hawake
    cases d with
    | stopped => exact .inr (.inl rfl)
    | notifying => exact .inr (.inr rfl)
    | joining i => exact absurd trivial hawake
    | done => exact absurd trivial hawake
    | _ => exact absurd hpast id

/-! ## Every reachable state -/

variable [DecidableEq ι] [DecidableEq τ]

theorem awake_inductive (hn : 0 < n) : (machine n ι τ).Inductive fun s => Inv s ∧ Awake s :=
  Machine.guarded_inductive (fun _ hs => hs ▸ ⟨inv_init, awake_init⟩) fun _ _ h hg =>
    ⟨inv_step h.1 hg, awake_step hn h.1 h.2 hg⟩

/-- **The pool is never stuck.**  In every reachable state of a pool with at least one worker,
some thread can go on, or no task is queued or running and no destructor pending, or the
destructor has returned and the workers are gone.  And while a task is queued, or `stop_` is set
and a worker left, the workers do not all wait without a notification under way. -/
theorem never_stuck (hn : 0 < n) {s : State n ι τ} (hs : (machine n ι τ).Reachable s) :
    ((machine n ι τ).CanStep Action.Owed s ∨ s.Quiet ∨ s.Over) ∧
    (s.taskQueue ≠ [] ∨ (s.stop = true ∧ ∃ w, s.worker w ≠ .exited) →
      (∀ w, s.worker w = .sleeping ∨ s.worker w = .exited) →
      s.Announcing ∨ s.dtor.Announcing) := by
  obtain ⟨hi, h⟩ := (awake_inductive hn).reachable hs
  refine ⟨(owed_or_settled hi h).imp_left Machine.guarded_canStep.mpr, ?_⟩
  exact fun hwork hworkers => announced_of_all_wait hi h hwork hworkers

/-- The only worker sleeps, and a task has been queued for it. -/
def queuedBehindSleeper (w : Fin 1) : List (Action 1 Unit ℕ) :=
  [.lock w, .test w, .add () 7, .addLock () 7, .addTest () 7, .addPush () 7, .addUnlock () 0]

theorem never_stuck_queuedBehindSleeper :
    ∃ s : State 1 Unit ℕ, (machine 1 Unit ℕ).Reachable s ∧ s.taskQueue ≠ [] ∧
      (∀ w, s.worker w = .sleeping) ∧ (s.Announcing ∨ s.dtor.Announcing) := by
  obtain ⟨s, hs, hp⟩ := Machine.exists_reachable_of_run (m := machine 1 Unit ℕ) rfl
    (queuedBehindSleeper 0)
    (fun s => decide (s.taskQueue ≠ [] ∧ ∀ w, s.worker w = .sleeping)) (by decide)
  obtain ⟨hq, hsleep⟩ := of_decide_eq_true hp
  exact ⟨s, hs, hq, hsleep, (never_stuck Nat.one_pos hs).2 (.inl hq) fun w => .inl (hsleep w)⟩

end CppServer.ThreadPool
