import CppServer.Lib.History
import CppServer.ThreadPool.Model

/-!
# What one step of the pool changes

For each part of the state an inductive predicate lists what the actions do to it, and one theorem
says that nothing else is done to it.  What holds of all steps is then read off the lists.

* `worker_step` — where a worker goes, with the tasks it takes and the tasks it ends.
* `caller_step` — where a caller of `Add` goes.
* `queue_step` — what is pushed and popped.
* `dtor_step` — where the destructor goes, with what becomes of `stop_`.
-/

namespace CppServer.ThreadPool

open Function (update update_self update_of_ne)

variable {n : ℕ} {ι τ : Type*}

/-- A woken worker was sleeping, and holds as little as before. -/
lemma wakeAll_cases (worker : Fin n → WorkerPc τ) (w : Fin n) :
    wakeAll worker w = worker w ∨ (worker w = .sleeping ∧ wakeAll worker w = .woken) := by
  unfold wakeAll
  cases worker w <;> simp

/-! ## The workers -/

/-- The action moves a worker from one point to another, which takes some tasks off the queue and
ends some. -/
inductive WorkerGoes : Action n ι τ → Fin n → WorkerPc τ → WorkerPc τ →
    List (Task τ) → List (Task τ) → Prop
  | stays {a : Action n ι τ} {w : Fin n} {p : WorkerPc τ} : WorkerGoes a w p p [] []
  | lock {w : Fin n} : WorkerGoes (.lock w) w .top .test [] []
  | relock {w : Fin n} : WorkerGoes (.lock w) w .woken .test [] []
  | ready {w : Fin n} : WorkerGoes (.test w) w .test .ready [] []
  | sleep {w : Fin n} : WorkerGoes (.test w) w .test .sleeping [] []
  | spuriousWake {w : Fin n} : WorkerGoes (.spuriousWake w) w .sleeping .woken [] []
  | exit {w : Fin n} : WorkerGoes (.pop w) w .ready .exited [] []
  | pop {w : Fin n} {t : Task τ} : WorkerGoes (.pop w) w .ready (.popped t) [t] []
  | unlock {w : Fin n} {t : Task τ} : WorkerGoes (.unlock w t) w (.popped t) (.running t) [] []
  | finish {w : Fin n} {t : Task τ} {o : Outcome} :
      WorkerGoes (.finish w t o) w (.running t) .top [] [t]
  | notified {c : ι} {k : ℕ} {w : Fin n} :
      WorkerGoes (.addNotify c k (some w)) w .sleeping .woken [] []
  | notifiedAll {w : Fin n} : WorkerGoes .dtorNotifyAll w .sleeping .woken [] []

/-- What a step that moves worker `w` so makes of its part of the state. -/
structure WorkerStep (s s' : State n ι τ) (a : Action n ι τ) (w : Fin n)
    (taken ended : List (Task τ)) : Prop where
  goes : WorkerGoes a w (s.worker w) (s'.worker w) taken ended
  taken : part w s'.taken = part w s.taken ++ taken
  ran : part w s'.ran = part w s.ran ++ ended

section Steps

variable [DecidableEq ι] {s : State n ι τ} {a : Action n ι τ}

/-- **Every step moves each worker on the list.** -/
theorem worker_step (hg : guard s a) (v : Fin n) :
    ∃ taken ended, WorkerStep s (effect s a) a v taken ended := by
  have stays {b : Action n ι τ} {s' : State n ι τ} (hw : s'.worker v = s.worker v)
      (ht : s'.taken = s.taken) (hr : s'.ran = s.ran) :
      ∃ taken ended, WorkerStep s s' b v taken ended :=
    ⟨[], [], hw ▸ .stays, by rw [ht, List.append_nil], by rw [hr, List.append_nil]⟩
  -- a step of worker `w`
  have moves {b : Action n ι τ} {s' : State n ι τ} {w : Fin n} {p q : WorkerPc τ}
      {taken ended : List (Task τ)} (hp : s.worker w = p) (hgoes : WorkerGoes b w p q taken ended)
      (hw : s'.worker = update s.worker w q) (ht : s'.taken = s.taken ++ taken.map fun t => (w, t))
      (hr : s'.ran = s.ran ++ ended.map fun t => (w, t)) :
      ∃ taken ended, WorkerStep s s' b v taken ended := by
    by_cases hv : v = w
    · subst hv
      refine ⟨taken, ended, ?_, by rw [ht, part_append, part_map_self],
        by rw [hr, part_append, part_map_self]⟩
      rw [hw, update_self, hp]
      exact hgoes
    · have hvw : w ≠ v := Ne.symm hv
      refine ⟨[], [], ?_, by rw [ht, part_append, part_map_of_ne hvw],
        by rw [hr, part_append, part_map_of_ne hvw]⟩
      rw [hw, update_of_ne hv]
      exact .stays
  cases a with
  | lock w =>
      rcases hg.1 with hw | hw
      · exact moves hw .lock rfl (by simp [effect]) (by simp [effect])
      · exact moves hw .relock rfl (by simp [effect]) (by simp [effect])
  | test w =>
      have hgoes : WorkerGoes (.test w : Action n ι τ) w .test
          (if s.wakeable then .ready else .sleeping) [] [] := by
        split
        · exact .ready
        · exact .sleep
      rw [effect_test]
      exact moves hg hgoes rfl (by simp) (by simp)
  | spuriousWake w => exact moves hg .spuriousWake rfl (by simp [effect]) (by simp [effect])
  | pop w =>
      cases hq : s.taskQueue with
      | nil =>
          simp only [effect, hq]
          exact moves hg.1 .exit rfl (by simp) (by simp)
      | cons t rest =>
          simp only [effect, hq]
          exact moves hg.1 .pop rfl rfl (by simp)
  | unlock w t => exact moves hg .unlock rfl (by simp [effect]) (by simp [effect])
  | finish w t o => exact moves hg .finish rfl (by simp [effect]) rfl
  | addTest c f =>
      rw [effect_addTest]
      exact stays rfl rfl rfl
  | addNotify c k wakes =>
      cases wakes with
      | none => exact stays rfl rfl rfl
      | some w => exact moves hg.2 .notified rfl (by simp [effect]) (by simp [effect])
  | dtorNotifyAll =>
      rcases wakeAll_cases s.worker v with hw | ⟨hw, hwake⟩
      · exact stays hw rfl rfl
      · refine ⟨[], [], ?_, by simp [effect], by simp [effect]⟩
        show WorkerGoes _ v (s.worker v) (wakeAll s.worker v) [] []
        rw [hw, hwake]
        exact .notifiedAll
  | _ => exact stays rfl rfl rfl

/-! ## The callers -/

/-- The action moves a caller of `Add` from one point to another, given `stop_` and the number of
pushes so far. -/
inductive CallerGoes (stop : Bool) (pushes : ℕ) : Action n ι τ → ι → AddPc τ → AddPc τ → Prop
  | stays {a : Action n ι τ} {c : ι} {p : AddPc τ} : CallerGoes stop pushes a c p p
  | add {c : ι} {f : τ} : CallerGoes stop pushes (.add c f) c .idle (.entering f)
  | lock {c : ι} {f : τ} : CallerGoes stop pushes (.addLock c f) c (.entering f) (.locked f)
  | refuse {c : ι} {f : τ} : stop = true →
      CallerGoes stop pushes (.addTest c f) c (.locked f) .idle
  | pass {c : ι} {f : τ} : stop = false →
      CallerGoes stop pushes (.addTest c f) c (.locked f) (.admitted f)
  | push {c : ι} {f : τ} :
      CallerGoes stop pushes (.addPush c f) c (.admitted f) (.pushed pushes)
  | unlock {c : ι} {k : ℕ} :
      CallerGoes stop pushes (.addUnlock c k) c (.pushed k) (.notifying k)
  | notify {c : ι} {k : ℕ} {wakes : Option (Fin n)} :
      CallerGoes stop pushes (.addNotify c k wakes) c (.notifying k) .idle

theorem caller_step (hg : guard s a) (d : ι) :
    CallerGoes s.stop s.pushed.length a d (s.caller d) ((effect s a).caller d) := by
  have moves {b : Action n ι τ} {s' : State n ι τ} {c : ι} {p q : AddPc τ} (hp : s.caller c = p)
      (hgoes : CallerGoes s.stop s.pushed.length b c p q) (hc : s'.caller = update s.caller c q) :
      CallerGoes s.stop s.pushed.length b d (s.caller d) (s'.caller d) := by
    rw [hc]
    by_cases hd : d = c
    · subst hd
      rw [update_self, hp]
      exact hgoes
    · rw [update_of_ne hd]
      exact .stays
  cases a with
  | test w =>
      rw [effect_test]
      exact .stays
  | pop w =>
      rw [effect_pop]
      exact .stays
  | add c f => exact moves hg .add rfl
  | addLock c f => exact moves hg.1 .lock rfl
  | addTest c f =>
      rw [effect_addTest]
      refine moves hg ?_ rfl
      split
      · rename_i hstop
        exact .refuse hstop
      · rename_i hstop
        exact .pass (by simpa using hstop)
  | addPush c f => exact moves hg .push rfl
  | addUnlock c k => exact moves hg .unlock rfl
  | addNotify c k wakes => exact moves hg.1 .notify rfl
  | _ => exact .stays

/-! ## The queue -/

/-- What the action makes of the queue: what is popped, and by whom, and what is pushed. -/
inductive QueueGoes (pushes : ℕ) : Action n ι τ → List (Task τ) → List (Task τ) →
    List (Fin n × Task τ) → List (Task τ) → Prop
  | stays {a : Action n ι τ} {q : List (Task τ)} : QueueGoes pushes a q q [] []
  | pop {w : Fin n} {t : Task τ} {rest : List (Task τ)} :
      QueueGoes pushes (.pop w) (t :: rest) rest [(w, t)] []
  | push {c : ι} {f : τ} {q : List (Task τ)} :
      QueueGoes pushes (.addPush c f) q (q ++ [⟨pushes, f⟩]) [] [⟨pushes, f⟩]

/-- What such a step makes of the queue and the two histories. -/
structure QueueStep (s s' : State n ι τ) (a : Action n ι τ) (popped : List (Fin n × Task τ))
    (pushed : List (Task τ)) : Prop where
  goes : QueueGoes s.pushed.length a s.taskQueue s'.taskQueue popped pushed
  taken : s'.taken = s.taken ++ popped
  pushed : s'.pushed = s.pushed ++ pushed

theorem queue_step (s : State n ι τ) (a : Action n ι τ) :
    ∃ popped pushed, QueueStep s (effect s a) a popped pushed := by
  have stays {b : Action n ι τ} {s' : State n ι τ} (hq : s'.taskQueue = s.taskQueue)
      (ht : s'.taken = s.taken) (hp : s'.pushed = s.pushed) :
      ∃ popped pushed, QueueStep s s' b popped pushed :=
    ⟨[], [], hq ▸ .stays, by simpa using ht, by simpa using hp⟩
  cases a with
  | test w =>
      rw [effect_test]
      exact stays rfl rfl rfl
  | pop w =>
      cases hq : s.taskQueue with
      | nil =>
          simp only [effect, hq]
          exact stays hq.symm rfl rfl
      | cons t rest =>
          exact ⟨[(w, t)], [], by simpa [effect, hq] using .pop, by simp [effect, hq],
            by simp [effect, hq]⟩
  | addTest c f =>
      rw [effect_addTest]
      exact stays rfl rfl rfl
  | addPush c f => exact ⟨[], [⟨s.pushed.length, f⟩], .push, by simp [effect], rfl⟩
  | _ => exact stays rfl rfl rfl

/-! ## The destructor -/

/-- The action moves the destructor from one point to another, and sets `stop_`, or not. -/
inductive DtorGoes : Action n ι τ → DtorPc → Bool → DtorPc → Bool → Prop
  | stays {a : Action n ι τ} {p : DtorPc} {b : Bool} : DtorGoes a p b p b
  | enter {b : Bool} : DtorGoes .dtorBegin .alive b .entering b
  | lock {b : Bool} : DtorGoes .dtorLock .entering b .locked b
  | stop {b : Bool} : DtorGoes .dtorStop .locked b .stopped true
  | unlock {b : Bool} : DtorGoes .dtorUnlock .stopped b .notifying b
  | notifyAll {b : Bool} : DtorGoes .dtorNotifyAll .notifying b (.joining 0) b
  | join {w : Fin n} {b : Bool} : DtorGoes (.dtorJoin w) (.joining w) b (.joining (w + 1)) b
  | finish {b : Bool} : DtorGoes .dtorReturn (.joining n) b .done b

theorem dtor_step (hg : guard s a) :
    DtorGoes a s.dtor s.stop (effect s a).dtor (effect s a).stop := by
  have moves {b : Action n ι τ} {s' : State n ι τ} {p : DtorPc} (hp : s.dtor = p)
      (hgoes : DtorGoes b p s.stop s'.dtor s'.stop) :
      DtorGoes b s.dtor s.stop s'.dtor s'.stop := hp ▸ hgoes
  cases a with
  | test w =>
      rw [effect_test]
      exact .stays
  | pop w =>
      rw [effect_pop]
      exact .stays
  | addTest c f =>
      rw [effect_addTest]
      exact .stays
  | dtorBegin => exact moves hg .enter
  | dtorLock => exact moves hg.1 .lock
  | dtorStop => exact moves hg .stop
  | dtorUnlock => exact moves hg .unlock
  | dtorNotifyAll => exact moves hg .notifyAll
  | dtorJoin w => exact moves hg.1 .join
  | dtorReturn => exact moves hg .finish
  | _ => exact .stays

end Steps

end CppServer.ThreadPool
