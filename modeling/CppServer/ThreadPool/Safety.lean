import Mathlib.Data.List.Basic
import CppServer.Lib.Mutex
import CppServer.ThreadPool.Moves

/-!
# Every accepted task is run exactly once

The invariant `Inv` of the pool, one field for each fact, and one lemma for each field that says
that every step keeps it.  Four of the fields carry the result:

* `order` — what was taken off the queue, followed by what is on it, is what was pushed;
* `held` — what a worker took is what it ran, followed by what it holds now;
* `exited` — a worker is gone only once `stop_` is set and the queue is empty;
* `joined` — the destructor has joined only workers that are gone.

Mutual exclusion on `tasks_mtx_` is what makes a test of the queue or of `stop_` still true at the
step that relies on it (`ready`, `admitted`).
-/

namespace CppServer.ThreadPool

open Function (update update_of_ne)

variable {n : ℕ} {ι τ : Type*}

/-! ## Program points -/

/-- The task a worker holds, if any. -/
def WorkerPc.task : WorkerPc τ → List (Task τ)
  | .popped t => [t]
  | .running t => [t]
  | _ => []

/-- The points of a worker between taking and releasing the mutex. -/
def WorkerPc.inside : WorkerPc τ → Prop
  | .test => True
  | .ready => True
  | .popped _ => True
  | _ => False

/-- Those of a caller. -/
def AddPc.inside : AddPc τ → Prop
  | .locked _ => True
  | .admitted _ => True
  | .pushed _ => True
  | _ => False

/-- Those of the destructor. -/
def DtorPc.inside : DtorPc → Prop
  | .locked => True
  | .stopped => True
  | _ => False

/-- The threads in the critical section. -/
def State.inside (s : State n ι τ) : Thread n ι → Prop
  | .worker w => (s.worker w).inside
  | .caller c => (s.caller c).inside
  | .destructor => s.dtor.inside

/-- The ticket of a caller that has pushed its task. -/
def AddPc.ticket : AddPc τ → Option ℕ
  | .pushed k => some k
  | .notifying k => some k
  | _ => none

/-- The destructor has set `stop_`. -/
def DtorPc.hasStopped : DtorPc → Prop
  | .stopped => True
  | .notifying => True
  | .joining _ => True
  | .done => True
  | _ => False

/-- The destructor has joined worker `w`. -/
def DtorPc.hasJoined (w : Fin n) : DtorPc → Prop
  | .joining i => w < i
  | .done => True
  | _ => False

lemma State.moves_worker {s s' : State n ι τ} {w : Fin n} {p : WorkerPc τ}
    (hw : s'.worker = update s.worker w p) (hc : s'.caller = s.caller) (hd : s'.dtor = s.dtor) :
    Moves s.inside s'.inside (.worker w) p.inside where
  self := by simp [State.inside, hw]
  others u hu := by
    cases u with
    | worker v =>
        have hv : v ≠ w := fun h => hu (by rw [h])
        simp [State.inside, hw, update_of_ne hv]
    | caller c => simp [State.inside, hc]
    | destructor => simp [State.inside, hd]

lemma State.moves_caller [DecidableEq ι] {s s' : State n ι τ} {c : ι} {p : AddPc τ}
    (hw : s'.worker = s.worker) (hc : s'.caller = update s.caller c p) (hd : s'.dtor = s.dtor) :
    Moves s.inside s'.inside (.caller c) p.inside where
  self := by simp [State.inside, hc]
  others u hu := by
    cases u with
    | worker v => simp [State.inside, hw]
    | caller d =>
        have hne : d ≠ c := fun h => hu (by rw [h])
        simp [State.inside, hc, update_of_ne hne]
    | destructor => simp [State.inside, hd]

lemma State.moves_dtor {s s' : State n ι τ} (hw : s'.worker = s.worker)
    (hc : s'.caller = s.caller) : Moves s.inside s'.inside .destructor s'.dtor.inside where
  self := Iff.rfl
  others u hu := by
    cases u with
    | worker v => simp [State.inside, hw]
    | caller d => simp [State.inside, hc]
    | destructor => exact absurd rfl hu

lemma State.inside_worker {s : State n ι τ} {w : Fin n} {p : WorkerPc τ} (h : s.worker w = p) :
    s.inside (.worker w) ↔ p.inside := by rw [State.inside, h]

lemma State.inside_caller {s : State n ι τ} {c : ι} {p : AddPc τ} (h : s.caller c = p) :
    s.inside (.caller c) ↔ p.inside := by rw [State.inside, h]

lemma State.inside_dtor {s : State n ι τ} {p : DtorPc} (h : s.dtor = p) :
    s.inside .destructor ↔ p.inside := by rw [State.inside, h]

lemma wakeable_eq_true {s : State n ι τ} :
    s.wakeable = true ↔ s.stop = true ∨ s.taskQueue ≠ [] := by
  cases hq : s.taskQueue <;> simp [State.wakeable, hq]

/-! ## The invariant -/

/-- What holds in every reachable state of the pool. -/
structure Inv (s : State n ι τ) : Prop where
  excl : Excl s.inside s.tasksMtx
  order : s.taken.map Prod.snd ++ s.taskQueue = s.pushed
  tickets : s.pushed.map Task.ticket = List.range s.pushed.length
  held : ∀ w, part w s.taken = part w s.ran ++ (s.worker w).task
  future : ∀ p ∈ s.ran, s.future p.2.ticket ≠ none
  ready : ∀ w, s.worker w = .ready → s.wakeable = true
  admitted : ∀ c f, s.caller c = .admitted f → s.stop = false
  ticketed : ∀ c k, (s.caller c).ticket = some k → k < s.pushed.length
  accepted : ∀ k ∈ s.accepted, k < s.pushed.length
  stopped : s.dtor.hasStopped ↔ s.stop = true
  exited : ∀ w, s.worker w = .exited → s.stop = true ∧ s.taskQueue = []
  joined : ∀ w, s.dtor.hasJoined w → s.worker w = .exited

theorem inv_init : Inv ({} : State n ι τ) where
  excl t := by cases t <;> simp [State.inside, WorkerPc.inside, AddPc.inside, DtorPc.inside]
  order := rfl
  tickets := rfl
  held _ := rfl
  future := by simp
  ready := by simp
  admitted := by simp
  ticketed := by simp [AddPc.ticket]
  accepted := by simp
  stopped := by simp [DtorPc.hasStopped]
  exited := by simp
  joined := by simp [DtorPc.hasJoined]

variable [DecidableEq ι] {s : State n ι τ} {a : Action n ι τ}

/-- Mutual exclusion: every step is a lock, an unlock, or stays on its side of the mutex. -/
lemma excl_step (h : Excl s.inside s.tasksMtx) (hg : guard s a) :
    Excl (effect s a).inside (effect s a).tasksMtx := by
  cases a with
  | lock w => exact (hg.2 ▸ h).enter (State.moves_worker rfl rfl rfl) trivial
  | test w =>
      have hin : s.inside (.worker w) := (State.inside_worker hg).mpr trivial
      simp only [effect]
      split
      · exact h.stay (State.moves_worker rfl rfl rfl) (State.inside_worker hg).symm
      · exact h.leave hin (State.moves_worker rfl rfl rfl) id
  | spuriousWake w => exact h.stay (State.moves_worker rfl rfl rfl) (State.inside_worker hg).symm
  | pop w =>
      have hin : s.inside (.worker w) := (State.inside_worker hg.1).mpr trivial
      simp only [effect]
      split
      · exact h.leave hin (State.moves_worker rfl rfl rfl) id
      · exact h.stay (State.moves_worker rfl rfl rfl) (State.inside_worker hg.1).symm
  | unlock w t =>
      exact h.leave ((State.inside_worker hg).mpr trivial) (State.moves_worker rfl rfl rfl) id
  | finish w t o => exact h.stay (State.moves_worker rfl rfl rfl) (State.inside_worker hg).symm
  | add c f => exact h.stay (State.moves_caller rfl rfl rfl) (State.inside_caller hg).symm
  | addLock c f => exact (hg.2 ▸ h).enter (State.moves_caller rfl rfl rfl) trivial
  | addTest c f =>
      have hin : s.inside (.caller c) := (State.inside_caller hg).mpr trivial
      simp only [effect]
      split
      · exact h.leave hin (State.moves_caller rfl rfl rfl) id
      · exact h.stay (State.moves_caller rfl rfl rfl) (State.inside_caller hg).symm
  | addPush c f => exact h.stay (State.moves_caller rfl rfl rfl) (State.inside_caller hg).symm
  | addUnlock c k =>
      exact h.leave ((State.inside_caller hg).mpr trivial) (State.moves_caller rfl rfl rfl) id
  | addNotify c k wakes =>
      -- the caller moves, and then the worker it wakes
      have hm : Moves s.inside
          { s with caller := update s.caller c .idle }.inside (.caller c) AddPc.idle.inside :=
        State.moves_caller rfl rfl rfl
      have hc := h.stay hm (State.inside_caller hg.1).symm
      cases wakes with
      | none => exact hc
      | some w =>
          have hw : s.worker w = .sleeping := hg.2
          exact hc.stay (State.moves_worker rfl rfl rfl) (State.inside_worker hw).symm
  | dtorBegin => exact h.stay (State.moves_dtor rfl rfl) (State.inside_dtor hg).symm
  | dtorLock => exact (hg.2 ▸ h).enter (State.moves_dtor rfl rfl) trivial
  | dtorStop => exact h.stay (State.moves_dtor rfl rfl) (State.inside_dtor hg).symm
  | dtorUnlock =>
      exact h.leave ((State.inside_dtor hg).mpr trivial) (State.moves_dtor rfl rfl) id
  | dtorNotifyAll =>
      have hm : Moves s.inside { s with dtor := .joining 0 }.inside .destructor
          (DtorPc.joining 0).inside := State.moves_dtor rfl rfl
      have hd := h.stay hm (State.inside_dtor hg).symm
      refine hd.congr fun u => ?_
      cases u with
      | worker w =>
          show (wakeAll s.worker w).inside ↔ (s.worker w).inside
          rcases wakeAll_cases s.worker w with hw | ⟨hw, hw'⟩
          · rw [hw]
          · rw [hw, hw']
            exact Iff.rfl
      | caller c => exact Iff.rfl
      | destructor => exact Iff.rfl
  | dtorJoin w => exact h.stay (State.moves_dtor rfl rfl) (State.inside_dtor hg.1).symm
  | dtorReturn => exact h.stay (State.moves_dtor rfl rfl) (State.inside_dtor hg).symm

/-! ## Queue and history -/

lemma order_step (h : s.taken.map Prod.snd ++ s.taskQueue = s.pushed) :
    (effect s a).taken.map Prod.snd ++ (effect s a).taskQueue = (effect s a).pushed := by
  obtain ⟨popped, pushed, hgoes, htaken, hpushed⟩ := queue_step s a
  rw [htaken, hpushed, List.map_append, ← h]
  generalize (effect s a).taskQueue = q' at hgoes
  generalize s.taskQueue = q at hgoes
  cases hgoes <;> simp

lemma tickets_step (h : s.pushed.map Task.ticket = List.range s.pushed.length) :
    (effect s a).pushed.map Task.ticket = List.range (effect s a).pushed.length := by
  obtain ⟨popped, pushed, hgoes, -, hpushed⟩ := queue_step s a
  rw [hpushed]
  generalize (effect s a).taskQueue = q' at hgoes
  generalize s.taskQueue = q at hgoes
  cases hgoes with
  | push => simp [h, List.range_succ]
  | _ => simpa using h

lemma held_step (h : ∀ w, part w s.taken = part w s.ran ++ (s.worker w).task)
    (hg : guard s a) (v : Fin n) :
    part v (effect s a).taken
      = part v (effect s a).ran ++ ((effect s a).worker v).task := by
  obtain ⟨taken, ended, hgoes, htaken, hran⟩ := worker_step hg v
  rw [htaken, hran, h v]
  generalize (effect s a).worker v = q at hgoes
  generalize s.worker v = p at hgoes
  cases hgoes <;> simp [WorkerPc.task]

lemma future_step (h : ∀ p ∈ s.ran, s.future p.2.ticket ≠ none) :
    ∀ p ∈ (effect s a).ran, (effect s a).future p.2.ticket ≠ none := by
  cases a with
  | test w =>
      rw [effect_test]
      exact h
  | pop w =>
      rw [effect_pop]
      exact h
  | finish w t o =>
      intro p hp
      simp only [effect, List.mem_append, List.mem_singleton] at hp ⊢
      by_cases hk : p.2.ticket = t.ticket
      · simp [hk]
      · rw [update_of_ne hk]
        rcases hp with hp | rfl
        · exact h p hp
        · exact absurd rfl hk
  | addTest c f =>
      rw [effect_addTest]
      exact h
  | _ => exact h

/-! ## What a test under the mutex is worth -/

/-- Nobody takes `stop_` back. -/
lemma stop_kept (h : s.stop = true) (hg : guard s a) : (effect s a).stop = true := by
  have hgoes := dtor_step hg
  rw [h] at hgoes
  generalize (effect s a).stop = b at hgoes ⊢
  generalize (effect s a).dtor = q at hgoes
  generalize s.dtor = p at hgoes
  cases hgoes <;> rfl

/-- The predicate of the wait can only be made false by a worker that takes a task. -/
lemma wakeable_step (h : s.wakeable = true) (hg : guard s a) (ha : ∀ w, a ≠ .pop w) :
    (effect s a).wakeable = true := by
  rw [wakeable_eq_true] at h ⊢
  rcases h with hstop | hqueue
  · exact .inl (stop_kept hstop hg)
  · refine .inr ?_
    obtain ⟨popped, pushed, hgoes, -, -⟩ := queue_step s a
    generalize (effect s a).taskQueue = q' at hgoes ⊢
    generalize s.taskQueue = q at hgoes hqueue
    cases hgoes with
    | stays => exact hqueue
    | pop => exact absurd rfl (ha _)
    | push => simp

/-- A worker past its wait can still take a task or exit: nobody else gets at the queue. -/
lemma ready_step (hx : Excl s.inside s.tasksMtx)
    (h : ∀ w, s.worker w = .ready → s.wakeable = true) (hg : guard s a) (v : Fin n)
    (hv : (effect s a).worker v = .ready) : (effect s a).wakeable = true := by
  obtain ⟨taken, ended, hgoes, -, -⟩ := worker_step hg v
  rw [hv] at hgoes
  generalize hp : s.worker v = p at hgoes
  cases hgoes with
  | stays =>
      refine wakeable_step (h v hp) hg ?_
      rintro w rfl
      -- two workers past their wait would both hold the mutex
      have heq : Thread.worker (ι := ι) v = .worker w :=
        hx.unique ((State.inside_worker hp).mpr trivial)
          ((State.inside_worker hg.1).mpr trivial)
      obtain rfl := Thread.worker.inj heq
      rw [effect_pop] at hv
      cases hq : s.taskQueue <;> simp [hq] at hv
  | ready =>
      rw [effect_test] at hv ⊢
      by_contra hwake
      simp [show ¬ s.wakeable = true from hwake] at hv

/-- A caller past its test of `stop_` holds the mutex, which the destructor needs to set it. -/
lemma admitted_step (hx : Excl s.inside s.tasksMtx)
    (h : ∀ c f, s.caller c = .admitted f → s.stop = false) (hg : guard s a) (d : ι) (g : τ)
    (hd : (effect s a).caller d = .admitted g) : (effect s a).stop = false := by
  have hstop : s.stop = false := by
    have hgoes := caller_step hg d
    rw [hd] at hgoes
    generalize hp : s.caller d = p at hgoes
    cases hgoes with
    | stays => exact h d g hp
    | pass hstop => exact hstop
  have hgoes := dtor_step hg
  rw [hstop] at hgoes
  generalize (effect s a).stop = b at hgoes ⊢
  generalize (effect s a).dtor = q at hgoes
  generalize s.dtor = p at hgoes
  cases hgoes with
  | stop =>
      have hin : s.inside (.caller d) := (State.inside_caller hd).mpr trivial
      have heq := hx.unique hin ((State.inside_dtor hg).mpr trivial)
      exact absurd heq (by simp)
  | _ => rfl

/-! ## The callers of `Add` -/

lemma pushed_length_le (s : State n ι τ) (a : Action n ι τ) :
    s.pushed.length ≤ (effect s a).pushed.length := by
  obtain ⟨popped, pushed, -, -, hpushed⟩ := queue_step s a
  rw [hpushed, List.length_append]
  exact Nat.le_add_right _ _

lemma ticketed_step (h : ∀ c k, (s.caller c).ticket = some k → k < s.pushed.length)
    (hg : guard s a) (d : ι) (k : ℕ) (hk : ((effect s a).caller d).ticket = some k) :
    k < (effect s a).pushed.length := by
  have hold := h d k
  have hle := pushed_length_le s a
  have hgoes := caller_step hg d
  generalize (effect s a).caller d = q at hgoes hk
  generalize s.caller d = p at hgoes hold
  cases hgoes with
  | stays => exact (hold hk).trans_le hle
  | push =>
      rw [AddPc.ticket, Option.some.injEq] at hk
      simp [effect, ← hk]
  | unlock => exact (hold hk).trans_le hle
  | _ => simp [AddPc.ticket] at hk

lemma accepted_step (ht : ∀ c k, (s.caller c).ticket = some k → k < s.pushed.length)
    (h : ∀ k ∈ s.accepted, k < s.pushed.length) (hg : guard s a) :
    ∀ k ∈ (effect s a).accepted, k < (effect s a).pushed.length := by
  have keep : ∀ k ∈ s.accepted, k < (effect s a).pushed.length :=
    fun k hk => (h k hk).trans_le (pushed_length_le s a)
  cases a with
  | test w =>
      rw [effect_test] at keep ⊢
      exact keep
  | pop w =>
      rw [effect_pop] at keep ⊢
      exact keep
  | addTest c f =>
      rw [effect_addTest] at keep ⊢
      exact keep
  | addNotify c j wakes =>
      intro k hk
      simp only [effect, List.mem_append, List.mem_singleton] at hk
      rcases hk with hk | rfl
      · exact keep k hk
      · exact ht c k (by rw [hg.1]; rfl)
  | _ => exact keep

/-! ## Shutting down -/

lemma stopped_step (h : s.dtor.hasStopped ↔ s.stop = true) (hg : guard s a) :
    (effect s a).dtor.hasStopped ↔ (effect s a).stop = true := by
  have hgoes := dtor_step hg
  generalize (effect s a).stop = b' at hgoes ⊢
  generalize (effect s a).dtor = q at hgoes ⊢
  generalize s.stop = b at hgoes h
  generalize s.dtor = p at hgoes h
  cases hgoes with
  | stop => exact iff_of_true trivial rfl
  | _ => exact h

/-- A worker leaves its loop only with `stop_` set and nothing queued, and nothing is queued
afterwards. -/
lemma exited_step (ha : ∀ c f, s.caller c = .admitted f → s.stop = false)
    (h : ∀ w, s.worker w = .exited → s.stop = true ∧ s.taskQueue = []) (hg : guard s a)
    (v : Fin n) (hv : (effect s a).worker v = .exited) :
    (effect s a).stop = true ∧ (effect s a).taskQueue = [] := by
  obtain ⟨taken, ended, hgoes, -, -⟩ := worker_step hg v
  rw [hv] at hgoes
  generalize hp : s.worker v = p at hgoes
  cases hgoes with
  | stays =>
      obtain ⟨hstop, hempty⟩ := h v hp
      refine ⟨stop_kept hstop hg, ?_⟩
      obtain ⟨popped, pushed, hqueue, -, -⟩ := queue_step s a
      rw [hempty] at hqueue
      generalize (effect s a).taskQueue = q at hqueue ⊢
      cases hqueue with
      | stays => rfl
      | push =>
          rw [ha _ _ hg] at hstop
          exact absurd hstop (by simp)
  | exit =>
      cases hq : s.taskQueue with
      | nil =>
          simp only [effect, hq]
          exact ⟨hg.2.resolve_right (fun hne => hne hq), trivial⟩
      | cons t rest => simp [effect, hq] at hv

lemma joined_step (h : ∀ w, s.dtor.hasJoined w → s.worker w = .exited) (hg : guard s a)
    (v : Fin n) (hj : (effect s a).dtor.hasJoined v) : (effect s a).worker v = .exited := by
  have hexited : s.worker v = .exited := by
    have hold := h v
    have hgoes := dtor_step hg
    generalize (effect s a).dtor = q at hgoes hj
    generalize (effect s a).stop = b' at hgoes
    generalize s.dtor = p at hgoes hold
    cases hgoes with
    | stays => exact hold hj
    | notifyAll => exact absurd hj (Nat.not_lt_zero v)
    | @join w =>
        rcases Nat.lt_succ_iff_lt_or_eq.mp (show (v : ℕ) < w + 1 from hj) with hlt | heq
        · exact hold hlt
        · exact Fin.ext heq ▸ hg.2
    | finish => exact hold v.isLt
    | _ => exact absurd hj id
  obtain ⟨taken, ended, hgoes, -, -⟩ := worker_step hg v
  rw [hexited] at hgoes
  generalize (effect s a).worker v = q at hgoes ⊢
  cases hgoes
  rfl

/-! ## Every reachable state -/

theorem inv_step (h : Inv s) (hg : guard s a) : Inv (effect s a) where
  excl := excl_step h.excl hg
  order := order_step h.order
  tickets := tickets_step h.tickets
  held := held_step h.held hg
  future := future_step h.future
  ready := ready_step h.excl h.ready hg
  admitted := admitted_step h.excl h.admitted hg
  ticketed := ticketed_step h.ticketed hg
  accepted := accepted_step h.ticketed h.accepted hg
  stopped := stopped_step h.stopped hg
  exited := exited_step h.admitted h.exited hg
  joined := joined_step h.joined hg

variable [DecidableEq τ]

theorem inv_inductive : (machine n ι τ).Inductive Inv :=
  Machine.guarded_inductive (fun _ hs => hs ▸ inv_init) fun _ _ => inv_step

end CppServer.ThreadPool
