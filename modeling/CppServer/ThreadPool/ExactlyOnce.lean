import CppServer.ThreadPool.Safety

/-!
# What the pool does with its tasks

The consequences of the invariant, over every reachable state of a pool.

* `RunsInOrder` — first in, first out, and one worker for each task: in every reachable state.
* `pop_enabled` — a worker past its wait never looks at the front of an empty queue it may not
  look at: its next step is defined.
* `all_run` — when the destructor has returned, nothing is queued and everything has been run.
* `accepted_exactly_once` — these together, for every interleaving of the callers of `Add`, the
  workers and the destructor.
-/

namespace CppServer.ThreadPool

variable {n : ℕ} {ι τ : Type*}

/-- Tasks leave the queue in the order they were pushed, each goes to one worker, and a worker
runs what it takes, in that order, once. -/
structure RunsInOrder (s : State n ι τ) : Prop where
  fifo : s.taken.map Prod.snd ++ s.taskQueue = s.pushed
  distinct : (s.pushed.map Task.ticket).Nodup
  oneWorker : ∀ p ∈ s.taken, ∀ q ∈ s.taken, p.2.ticket = q.2.ticket → p = q
  runsItsOwn : ∀ w, part w s.taken = part w s.ran ++ (s.worker w).task
  once : (s.ran.map fun p => p.2.ticket).Nodup

/-! ## The parts of the result -/

section Invariant

variable {s : State n ι τ}

lemma Inv.tickets_nodup (h : Inv s) : (s.pushed.map Task.ticket).Nodup :=
  h.tickets ▸ List.nodup_range

/-- What was taken off the queue carries pairwise different tickets. -/
lemma Inv.taken_nodup (h : Inv s) : ((s.taken.map Prod.snd).map Task.ticket).Nodup := by
  have hp := h.tickets_nodup
  rw [← h.order, List.map_append] at hp
  exact (List.nodup_append.mp hp).1

/-- What has been run was taken by the worker that ran it. -/
lemma Inv.mem_taken (h : Inv s) {w : Fin n} {t : Task τ} (hr : (w, t) ∈ s.ran) :
    (w, t) ∈ s.taken := by
  rw [← mem_part, h.held w]
  exact List.mem_append_left _ (mem_part.mpr hr)

theorem Inv.runsInOrder (h : Inv s) : RunsInOrder s := by
  have htaken : (s.taken.map fun p => p.2.ticket).Nodup := by
    have := h.taken_nodup
    rwa [List.map_map] at this
  have hone : ∀ p ∈ s.taken, ∀ q ∈ s.taken, p.2.ticket = q.2.ticket → p = q :=
    List.inj_on_of_nodup_map htaken
  have hran : s.ran.Nodup := by
    refine nodup_of_part fun w => ?_
    have hw : (part w s.taken).Nodup :=
      (List.Nodup.of_map _ h.taken_nodup).sublist (part_sublist w s.taken)
    rw [h.held w] at hw
    exact (List.nodup_append.mp hw).1
  refine ⟨h.order, h.tickets_nodup, hone, h.held, hran.map_on ?_⟩
  exact fun p hp q hq heq => hone p (h.mem_taken hp) q (h.mem_taken hq) heq

/-- **A worker past its wait has a defined next step**: there is a task at the front of the queue,
or `stop_` is set and it returns. -/
theorem Inv.pop_enabled (h : Inv s) {w : Fin n} (hw : s.worker w = .ready) : guard s (.pop w) :=
  ⟨hw, wakeable_eq_true.mp (h.ready w hw)⟩

/-- **Nothing is left behind.**  The destructor has joined every worker, and there is one: it is
gone, so the queue is empty; and no worker holds a task, so what was taken was run. -/
theorem Inv.all_run (hn : 0 < n) (h : Inv s) (hdone : s.dtor = .done) :
    s.taskQueue = [] ∧ ∀ t ∈ s.pushed, ∃! w, (w, t) ∈ s.ran := by
  have hexit : ∀ w, s.worker w = .exited := fun w => h.joined w (by rw [hdone]; trivial)
  have hempty : s.taskQueue = [] := (h.exited ⟨0, hn⟩ (hexit _)).2
  refine ⟨hempty, fun t ht => ?_⟩
  rw [← h.order, hempty, List.append_nil] at ht
  obtain ⟨⟨w, t⟩, hmem, rfl⟩ := List.mem_map.mp ht
  have hran : (w, t) ∈ s.ran := by
    have hw := h.held w
    rw [hexit w, show (WorkerPc.exited : WorkerPc τ).task = [] from rfl, List.append_nil] at hw
    exact mem_part.mp (hw ▸ mem_part.mpr hmem)
  refine ⟨w, hran, fun v hv => ?_⟩
  have heq := h.runsInOrder.oneWorker (v, t) (h.mem_taken hv) (w, t) hmem rfl
  exact congrArg Prod.fst heq

/-- The future of every accepted task has been made ready once all tasks have been run. -/
lemma Inv.accepted_ready (hn : 0 < n) (h : Inv s) (hdone : s.dtor = .done) {k : ℕ}
    (hk : k ∈ s.accepted) :
    ∃ t ∈ s.pushed, t.ticket = k ∧ s.future k ≠ none := by
  have hlt : k ∈ s.pushed.map Task.ticket := by
    rw [h.tickets]
    exact List.mem_range.mpr (h.accepted k hk)
  obtain ⟨t, ht, rfl⟩ := List.mem_map.mp hlt
  obtain ⟨w, hw, -⟩ := (h.all_run hn hdone).2 t ht
  exact ⟨t, ht, rfl, h.future (w, t) hw⟩

end Invariant

/-! ## The result -/

variable [DecidableEq ι] [DecidableEq τ]

/-- **Every accepted task is run exactly once.**  In every reachable state of a pool with at least
one worker: tasks leave the queue in the order of their pushes and each is run by one worker; an
`Add` that finds `stop_` set throws and leaves the queue alone; a task that throws leaves its
worker in its loop, which no worker leaves before `stop_` is set and the queue is empty; and when
the destructor has returned, the queue is empty and each task that was pushed, in particular each
that was accepted, has been run to its end by exactly one worker. -/
theorem accepted_exactly_once (hn : 0 < n) {s : State n ι τ} (hs : (machine n ι τ).Reachable s) :
    RunsInOrder s ∧
    (∀ c f s', s.stop = true → (machine n ι τ).step s (.addTest c f) = some s' →
      s'.refused = s.refused ++ [(c, f)] ∧ s'.caller c = .idle ∧ s'.tasksMtx = none ∧
        s'.taskQueue = s.taskQueue ∧ s'.pushed = s.pushed ∧ s'.accepted = s.accepted) ∧
    (∀ w t o s', (machine n ι τ).step s (.finish w t o) = some s' →
      s'.worker w = .top ∧ s'.future t.ticket = some o) ∧
    (∀ w, s.worker w = .exited → s.stop = true ∧ s.taskQueue = []) ∧
    (s.dtor = .done → s.taskQueue = [] ∧ (∀ t ∈ s.pushed, ∃! w, (w, t) ∈ s.ran) ∧
      ∀ k ∈ s.accepted, ∃ t ∈ s.pushed, t.ticket = k ∧ s.future k ≠ none) := by
  have h : Inv s := inv_inductive.reachable hs
  refine ⟨h.runsInOrder, ?_, ?_, h.exited, fun hdone => ?_⟩
  · intro c f s' hstop hst
    obtain ⟨-, rfl⟩ := Machine.guarded_step_eq_some.mp hst
    simp [effect, hstop]
  · intro w t o s' hst
    obtain ⟨-, rfl⟩ := Machine.guarded_step_eq_some.mp hst
    simp [effect]
  · have hall := h.all_run hn hdone
    exact ⟨hall.1, hall.2, fun k hk => h.accepted_ready hn hdone hk⟩

/-- One worker, one caller: the worker `w` falls asleep, is given a task that throws, and is
then stopped and joined. -/
def oneTask (w : Fin 1) : List (Action 1 Unit ℕ) :=
  [.lock w, .test w, .add () 7, .addLock () 7, .addTest () 7, .addPush () 7, .addUnlock () 0,
    .addNotify () 0 (some w), .lock w, .test w, .pop w, .unlock w ⟨0, 7⟩, .finish w ⟨0, 7⟩ .threw,
    .dtorBegin, .dtorLock, .dtorStop, .dtorUnlock, .dtorNotifyAll, .lock w, .test w, .pop w,
    .dtorJoin w, .dtorReturn]

theorem accepted_exactly_once_oneTask :
    ∃ s : State 1 Unit ℕ, (machine 1 Unit ℕ).Reachable s ∧ s.dtor = .done ∧ s.accepted = [0] ∧
      s.taskQueue = [] ∧ s.future 0 ≠ none := by
  obtain ⟨s, hs, hp⟩ := Machine.exists_reachable_of_run (m := machine 1 Unit ℕ) rfl (oneTask 0)
    (fun s => decide (s.dtor = .done ∧ s.accepted = [0])) (by decide)
  obtain ⟨hdone, hacc⟩ := of_decide_eq_true hp
  obtain ⟨-, -, -, -, hend⟩ := accepted_exactly_once Nat.one_pos hs
  obtain ⟨hempty, -, hready⟩ := hend hdone
  obtain ⟨t, -, ht, hfut⟩ := hready 0 (by simp [hacc])
  exact ⟨s, hs, hdone, hacc, hempty, hfut⟩

end CppServer.ThreadPool
