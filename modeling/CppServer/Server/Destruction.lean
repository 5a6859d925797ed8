import CppServer.Server.Sizing

/-!
# Destroying a server

`Server::~Server` deletes the loops of the sub reactors.  Only then, as the member `threadpool_`
goes, are the workers told to stop, and joined.  `Start` returns by an exception or not at all; the
loops that were added to the pool go on without it, since `quit_` is never set.

The machine is that of `Reactors.lean` with the destructor beside it.  What a worker does in a
deleted loop is undefined: it reads `quit_` and `ep_` from memory that has been freed.  The machine
lets it go on as before, and `misused` says that it has; behind that step a run says nothing of the
code.

* `doomed_step` — deleting a loop that is in use is the only thing that dooms a destructor: a loop
  is left only by an exception, and that is a step of the loop.
* `clean_iff_left` — a destructor that has returned deleted no loop in use, if and only if every
  loop had been left by an exception before it was deleted.
* `returns_iff_left` — if nothing else fails, the destructor can return without that if and only
  if all loops had been left by an exception before it was called.
-/

namespace CppServer.Destruction

open Function (update update_self update_of_ne)
open Reactors (Places LoopPc Worker MainPc)

/-- Where the destructor is. -/
inductive DtorPc where
  | outside
  /-- the loops below `i` have been deleted -/
  | deleting (i : ℕ)
  /-- `stop_` is set, and the workers below `w` have been joined -/
  | joining (w : ℕ)
  | destroyed
  deriving DecidableEq, Repr

structure State (n : ℕ) where
  server : Reactors.State n := {}
  dtor : DtorPc := .outside
  /-- a loop has been used that had been deleted -/
  misused : Bool := false

/-- One step of one thread. -/
inductive Action (n : ℕ) where
  | run (a : Reactors.Action n)
  | dtorBegin
  | deleteLoop (i : ℕ)
  | setStop
  | join (w : Fin n)
  | dtorEnd
  deriving DecidableEq, Repr

variable {n : ℕ}

/-- The steps of the thread that calls `Start`. -/
def ofMain : Reactors.Action n → Bool
  | .add => true
  | .enterLoop => true
  | .mainPoll _ => true
  | .mainAccept _ _ => true
  | _ => false

/-- The loop a step is a step of. -/
def loopOf : Reactors.Action n → Option ℕ
  | .poll _ r _ => some r
  | .handle _ r _ _ _ => some r
  | .endOfBatch _ r => some r
  | _ => none

/-- The loops below this one have been deleted. -/
def DtorPc.deleted (n : ℕ) : DtorPc → ℕ
  | .outside => 0
  | .deleting i => i
  | .joining _ => n
  | .destroyed => n

/-- The workers below this one have been joined. -/
def DtorPc.joined (n : ℕ) : DtorPc → ℕ
  | .joining w => w
  | .destroyed => n
  | _ => 0

/-- When a step can be taken. -/
def guard (s : State n) : Action n → Prop
  | .run a => Reactors.guard s.server a ∧ (ofMain a = true → s.dtor = .outside)
  -- `Start` has not been called, or an exception has left it
  | .dtorBegin => s.dtor = .outside ∧ (s.server.main = .starting 0 ∨ s.server.main = .stopped)
  | .deleteLoop i => s.dtor = .deleting i ∧ i < n
  | .setStop => s.dtor = .deleting n
  -- a worker returns when it has no task and finds none
  | .join w => s.dtor = .joining w ∧ s.server.worker w = .idle ∧ s.server.taskQueue = []
  | .dtorEnd => s.dtor = .joining n

/-- What a step does. -/
def effect (s : State n) : Action n → State n
  | .run a =>
      { s with server := Reactors.effect s.server a,
               misused := s.misused || (loopOf a).any (· < s.dtor.deleted n) }
  | .dtorBegin => { s with dtor := .deleting 0 }
  | .deleteLoop i => { s with dtor := .deleting (i + 1) }
  | .setStop => { s with dtor := .joining 0 }
  | .join w => { s with dtor := .joining (w + 1) }
  | .dtorEnd => { s with dtor := .destroyed }

instance decidableGuard (s : State n) : ∀ a, Decidable (guard s a)
  | .run a => inferInstanceAs (Decidable (Reactors.guard s.server a ∧ (_ → _)))
  | .dtorBegin => inferInstanceAs (Decidable (_ ∧ _))
  | .deleteLoop _ => inferInstanceAs (Decidable (_ ∧ _))
  | .setStop => inferInstanceAs (Decidable (s.dtor = _))
  | .join _ => inferInstanceAs (Decidable (_ ∧ _ ∧ _))
  | .dtorEnd => inferInstanceAs (Decidable (s.dtor = _))

/-- A server that has been constructed, with `n` sub reactors and as many workers. -/
def machine (n : ℕ) : Machine (State n) (Action n) :=
  Machine.guarded (fun s => s = {}) guard effect

/-! ## What the workers do by themselves -/

section Workers

variable {t : Reactors.State n} {a : Reactors.Action n}

lemma main_of_worker (ha : ofMain a = false) : (Reactors.effect t a).main = t.main := by
  cases a with
  | add => simp [ofMain] at ha
  | enterLoop => simp [ofMain] at ha
  | mainPoll answer => simp [ofMain] at ha
  | mainAccept answer callback => simp [ofMain] at ha
  | take w r rest => rfl
  | poll w r answer =>
      simp only [Reactors.effect]
      split <;> rfl
  | handle w r fd rest callback => cases callback <;> rfl
  | endOfBatch w r => rfl

/-- **A loop is lost by a step of that loop**, in which an oracle fails. -/
lemma lost_effect (t : Reactors.State n) (a : Reactors.Action n) :
    (Reactors.effect t a).lost = t.lost ∨
      ∃ r, loopOf a = some r ∧ ¬ a.Benign ∧ (Reactors.effect t a).lost = t.lost ++ [r] := by
  cases a with
  | add =>
      refine .inl ?_
      simp only [Reactors.effect]
      split <;> rfl
  | poll w r answer =>
      cases answer with
      | ok batch => exact .inl rfl
      | error e => exact .inr ⟨r, rfl, id, rfl⟩
  | handle w r fd rest callback =>
      cases callback with
      | returned => exact .inl rfl
      | threw => exact .inr ⟨r, rfl, id, rfl⟩
  | _ => exact .inl rfl

/-- A step of a loop is taken by a worker that is in it. -/
lemma holds_of_loopOf (hg : Reactors.guard t a) {r : ℕ} (hr : loopOf a = some r) :
    ∃ w, t.Holds w r := by
  cases a with
  | poll w r' answer =>
      obtain rfl : r' = r := Option.some.inj hr
      exact ⟨w, by rw [Reactors.State.Holds, show t.worker w = .inLoop r' .polling from hg]; rfl⟩
  | handle w r' fd rest callback =>
      obtain rfl : r' = r := Option.some.inj hr
      have hw : t.worker w = .inLoop r' (.dispatching (fd :: rest)) := hg
      exact ⟨w, by rw [Reactors.State.Holds, hw]; rfl⟩
  | endOfBatch w r' =>
      obtain rfl : r' = r := Option.some.inj hr
      have hw : t.worker w = .inLoop r' (.dispatching []) := hg
      exact ⟨w, by rw [Reactors.State.Holds, hw]; rfl⟩
  | _ => simp [loopOf] at hr

/-- A worker that has nothing to do, with nothing in the queue, does nothing. -/
lemma idle_effect (hg : Reactors.guard t a) (ha : ofMain a = false) (hq : t.taskQueue = [])
    {w : Fin n} (hw : t.worker w = .idle) :
    (Reactors.effect t a).worker w = .idle ∧ (Reactors.effect t a).taskQueue = [] := by
  have hother : ∀ {v : Fin n} {r : ℕ} {pc pc' : LoopPc}, t.worker v = .inLoop r pc →
      (t.goOn v r pc').worker w = .idle := by
    intro v r pc pc' hv
    have hne : w ≠ v := by
      rintro rfl
      rw [hw] at hv
      simp at hv
    exact (update_of_ne hne _ _).trans hw
  have hleft : ∀ {v : Fin n} {r : ℕ}, (t.swallow v r).worker w = .idle := by
    intro v r
    by_cases hv : w = v
    · rw [hv]
      exact update_self _ _ _
    · exact (update_of_ne hv _ _).trans hw
  cases a with
  | add => simp [ofMain] at ha
  | enterLoop => simp [ofMain] at ha
  | mainPoll answer => simp [ofMain] at ha
  | mainAccept answer callback => simp [ofMain] at ha
  | take v r rest =>
      have hqueue : t.taskQueue = r :: rest := hg.2
      rw [hq] at hqueue
      simp at hqueue
  | poll v r answer =>
      simp only [Reactors.effect]
      split
      · exact ⟨hother hg, hq⟩
      · exact ⟨hleft, hq⟩
  | handle v r fd rest callback =>
      cases callback with
      | returned => exact ⟨hother hg, hq⟩
      | threw => exact ⟨hleft, hq⟩
  | endOfBatch v r => exact ⟨hother hg, hq⟩

end Workers

/-! ## The invariant -/

/-- What holds in every reachable state. -/
structure Inv (s : State n) : Prop where
  placed : s.server.places.WellPlaced
  main : s.dtor ≠ .outside → s.server.main = .starting 0 ∨ s.server.main = .stopped
  joined : ∀ w : Fin n, w < s.dtor.joined n →
    s.server.worker w = .idle ∧ s.server.taskQueue = []
  /-- nothing is misused before it has been deleted -/
  unharmed : s.dtor.deleted n = 0 → s.misused = false

theorem inv_init : Inv ({} : State n) where
  placed := Reactors.wellPlaced_init
  main h := absurd rfl h
  joined _ h := absurd h (Nat.not_lt_zero _)
  unharmed _ := rfl

variable {s : State n} {a : Action n}

lemma joined_step (h : Inv s) (hg : guard s a) (w : Fin n)
    (hw : w < (effect s a).dtor.joined n) :
    (effect s a).server.worker w = .idle ∧ (effect s a).server.taskQueue = [] := by
  cases a with
  | run a =>
      obtain ⟨hidle, hq⟩ := h.joined w hw
      refine idle_effect hg.1 ?_ hq hidle
      by_contra ha
      have hout := hg.2 (by simpa using ha)
      simp only [effect, hout, DtorPc.joined] at hw
      exact Nat.not_lt_zero _ hw
  | dtorBegin => exact absurd hw (Nat.not_lt_zero _)
  | deleteLoop i => exact absurd hw (Nat.not_lt_zero _)
  | setStop => exact absurd hw (Nat.not_lt_zero _)
  | join v =>
      rcases Nat.lt_succ_iff_lt_or_eq.mp hw with hlt | heq
      · refine h.joined w ?_
        rw [hg.1]
        exact hlt
      · rw [Fin.ext heq]
        exact hg.2
  | dtorEnd =>
      refine h.joined w ?_
      rw [show s.dtor = .joining n from hg]
      exact w.isLt

theorem inv_step (h : Inv s) (hg : guard s a) : Inv (effect s a) where
  placed := by
    cases a with
    | run a => exact Reactors.wellPlaced_step h.placed hg.1
    | _ => exact h.placed
  main hout := by
    cases a with
    | run a =>
        have ha : ofMain a = false := by
          by_contra ha
          exact hout (hg.2 (by simpa using ha))
        simp only [effect, main_of_worker ha]
        exact h.main hout
    | dtorBegin => exact hg.2
    | deleteLoop i => exact h.main (by rw [hg.1]; simp)
    | setStop => exact h.main (by rw [show s.dtor = .deleting n from hg]; simp)
    | join w => exact h.main (by rw [hg.1]; simp)
    | dtorEnd => exact h.main (by rw [show s.dtor = .joining n from hg]; simp)
  joined := joined_step h hg
  unharmed hnone := by
    cases a with
    | run a =>
        have hnone : s.dtor.deleted n = 0 := hnone
        simp [effect, h.unharmed hnone, hnone]
    | dtorBegin => exact h.unharmed (by rw [hg.1]; rfl)
    | deleteLoop i => simp [effect, DtorPc.deleted] at hnone
    | setStop => exact h.unharmed (by rw [show s.dtor = .deleting n from hg]; exact hnone)
    | join w => exact h.unharmed (by rw [hg.1]; exact hnone)
    | dtorEnd => exact h.unharmed (by rw [show s.dtor = .joining n from hg]; exact hnone)

theorem inv_inductive : (machine n).Inductive Inv :=
  Machine.guarded_inductive (fun _ hs => hs ▸ inv_init) fun _ _ => inv_step

/-! ## The loops -/

/-- Nobody will use loop `r` any more: an exception has left it, or it was never started. -/
def State.Left (s : State n) (r : ℕ) : Prop :=
  r ∈ s.server.lost ∨ s.server.places.added ≤ r

instance (s : State n) (r : ℕ) : Decidable (s.Left r) := inferInstanceAs (Decidable (_ ∨ _))

/-- A loop that nobody will use is not used. -/
lemma Inv.not_used (h : Inv s) {r : ℕ} (hr : s.Left r) {a : Reactors.Action n}
    (hg : Reactors.guard s.server a) : loopOf a ≠ some r := by
  intro hloop
  obtain ⟨w, hw⟩ := holds_of_loopOf hg hloop
  rcases hr with hlost | hadded
  · exact h.placed.not_lost hw hlost
  · exact absurd (h.placed.held_lt hw) (Nat.not_lt.mpr hadded)

/-- A loop that has been left stays left, and while the destructor runs, a loop is left only by
a step of its own. -/
lemma left_step (hg : guard s a) (hout : s.dtor ≠ .outside) (r : ℕ) :
    (s.Left r → (effect s a).Left r) ∧
    ((effect s a).Left r → s.Left r ∨ ∃ b, a = .run b ∧ loopOf b = some r ∧ ¬ b.Benign) := by
  cases a with
  | run b =>
      have hb : ofMain b = false := by
        by_contra hb
        exact hout (hg.2 (by simpa using hb))
      have hadded : (Reactors.effect s.server b).places.added = s.server.places.added := by
        simp only [Reactors.State.places, main_of_worker hb]
      simp only [State.Left, effect, hadded]
      rcases lost_effect s.server b with hsame | ⟨r', hloop, hbad, hmore⟩
      · rw [hsame]
        exact ⟨id, .inl⟩
      · rw [hmore, List.mem_append, List.mem_singleton]
        refine ⟨Or.imp_left .inl, ?_⟩
        rintro ((hold | hnew) | hnone)
        · exact .inl (.inl hold)
        · exact .inr ⟨b, rfl, hnew ▸ hloop, hbad⟩
        · exact .inl (.inr hnone)
  | _ => exact ⟨id, .inl⟩

/-- A deleted loop has been used, or it will be. -/
def State.Doomed (s : State n) : Prop :=
  s.misused = true ∨ ∃ r < s.dtor.deleted n, ¬ s.Left r

/-- The step deletes no loop that is still in use. -/
def DeletesLeft (s : State n) (a : Action n) : Prop := ∀ i, a = .deleteLoop i → s.Left i

instance (s : State n) : ∀ a, Decidable (DeletesLeft s a)
  | .deleteLoop i =>
      decidable_of_iff (s.Left i) ⟨fun h _ hi => Action.deleteLoop.inj hi ▸ h, fun h => h i rfl⟩
  | .run _ => isTrue fun _ h => nomatch h
  | .dtorBegin => isTrue fun _ h => nomatch h
  | .setStop => isTrue fun _ h => nomatch h
  | .join _ => isTrue fun _ h => nomatch h
  | .dtorEnd => isTrue fun _ h => nomatch h

/-- A step of a worker changes nothing about it: who leaves a deleted loop has used it. -/
lemma doomed_run (h : Inv s) {b : Reactors.Action n} (hg : guard s (.run b)) :
    (effect s (.run b)).Doomed ↔ s.Doomed := by
  by_cases hout : s.dtor = .outside
  · simp [State.Doomed, effect, hout, DtorPc.deleted]
  · have hleft := left_step hg hout
    constructor
    · rintro (hmis | ⟨r, hr, hnot⟩)
      · rcases Bool.or_eq_true_iff.mp hmis with hold | hnew
        · exact .inl hold
        · obtain ⟨r, hloop, hr⟩ := (Option.any_eq_true _ _).mp hnew
          exact .inr ⟨r, of_decide_eq_true hr, fun hr => h.not_used hr hg.1 hloop⟩
      · exact .inr ⟨r, hr, fun hold => hnot ((hleft r).1 hold)⟩
    · rintro (hmis | ⟨r, hr, hnot⟩)
      · exact .inl (by simp [effect, hmis])
      · by_cases hnow : (effect s (.run b)).Left r
        · rcases (hleft r).2 hnow with hold | ⟨b', heq, hloop, -⟩
          · exact absurd hold hnot
          · refine .inl ?_
            rw [← Action.run.inj heq] at hloop
            simp [effect, hloop, hr]
        · exact .inr ⟨r, hr, hnow⟩

/-- **What dooms a destructor**: deleting a loop that is in use, and nothing else. -/
theorem doomed_step (h : Inv s) (hg : guard s a) :
    (effect s a).Doomed ↔ s.Doomed ∨ ¬ DeletesLeft s a := by
  cases a with
  | run b => simp [doomed_run h hg, DeletesLeft]
  | dtorBegin => simp [State.Doomed, State.Left, effect, DtorPc.deleted, hg.1, DeletesLeft]
  | deleteLoop i =>
      have hmore : (effect s (.deleteLoop i)).Doomed ↔
          s.misused = true ∨ ∃ r < i + 1, ¬ s.Left r := Iff.rfl
      have hdeletes : DeletesLeft s (.deleteLoop i) ↔ s.Left i := by simp [DeletesLeft]
      have hdoomed : s.Doomed ↔ s.misused = true ∨ ∃ r < i, ¬ s.Left r := by
        rw [State.Doomed, hg.1, DtorPc.deleted]
      rw [hmore, hdeletes, hdoomed, or_assoc]
      simp only [Nat.lt_succ_iff_lt_or_eq, or_and_right, exists_or, exists_eq_left]
  | setStop =>
      have hpc : s.dtor = .deleting n := hg
      simp [State.Doomed, State.Left, effect, DtorPc.deleted, hpc, DeletesLeft]
  | join w => simp [State.Doomed, State.Left, effect, DtorPc.deleted, hg.1, DeletesLeft]
  | dtorEnd =>
      have hpc : s.dtor = .joining n := hg
      simp [State.Doomed, State.Left, effect, DtorPc.deleted, hpc, DeletesLeft]

/-- When the destructor has returned, all loops have been left. -/
lemma Inv.all_left (h : Inv s) (hdead : s.dtor = .destroyed) (r : ℕ) : s.Left r := by
  by_contra hnot
  obtain ⟨hlost, hadded⟩ := not_or.mp hnot
  have hr : r < s.server.places.added := Nat.not_le.mp hadded
  have hpos : 0 < n := Nat.zero_lt_of_lt (hr.trans_le h.placed.bound)
  have hjoined : ∀ w : Fin n, s.server.worker w = .idle ∧ s.server.taskQueue = [] := by
    intro w
    refine h.joined w ?_
    rw [hdead]
    exact w.isLt
  rcases h.placed.served hr hlost with hqueued | ⟨w, hw⟩
  · have hq : r ∈ s.server.taskQueue := hqueued
    rw [(hjoined ⟨0, hpos⟩).2] at hq
    simp at hq
  · have hheld : (s.server.worker w).loop = some r := hw
    rw [(hjoined w).1] at hheld
    simp [Worker.loop] at hheld

/-! ## The results -/

/-- **When a server is destroyed cleanly.**  For every run of any number of sub reactors, at whose
end the destructor has returned: no loop was used that had been deleted, if and only if every
loop, when it was deleted, had been left by an exception or never been started. -/
theorem clean_iff_left {s : State n} (as : List (Action n)) (hrun : (machine n).run {} as = some s)
    (hdead : s.dtor = .destroyed) :
    s.misused = false ↔ (machine n).Along DeletesLeft {} as := by
  have hinv : Inv s := inv_inductive.reachable ((Machine.Reachable.init rfl).run hrun)
  have hstep : ∀ s a t, Inv s → (machine n).step s a = some t →
      (¬ t.Doomed ↔ ¬ s.Doomed ∧ DeletesLeft s a) := fun s a t h hst => by
    obtain ⟨hg, rfl⟩ := Machine.guarded_step_eq_some.mp hst
    rw [doomed_step h hg, not_or, not_not]
  have hstart : ¬ ({} : State n).Doomed := by simp [State.Doomed, DtorPc.deleted]
  have hend : s.Doomed ↔ s.misused = true := by
    refine ⟨?_, .inl⟩
    rintro (hmis | ⟨r, -, hnot⟩)
    · exact hmis
    · exact absurd (hinv.all_left hdead r) hnot
  have hall := Machine.run_iff inv_inductive.step hstep as inv_init hrun
  rw [hend, and_iff_right hstart, Bool.not_eq_true] at hall
  exact hall

/-- A server of one sub reactor: `accept` fails while the worker is inside `epoll_wait`. -/
def acceptFails : List (Action 1) :=
  [.run .add, .run .enterLoop, .run (.take (Fin.last 0) 0 []), .run (.mainPoll (.ok [()])),
    .run (.mainAccept (.error (.other 24)) .returned)]

/-- The same server, where the loop has been interrupted by then. -/
def loopLeftFirst : List (Action 1) :=
  acceptFails ++ [.run (.poll (Fin.last 0) 0 (.error .EINTR)), .dtorBegin, .deleteLoop 0, .setStop,
    .join (Fin.last 0), .dtorEnd]

theorem clean_iff_left_loopLeftFirst :
    ∃ s, (machine 1).run {} loopLeftFirst = some s ∧ s.dtor = .destroyed ∧ s.misused = false := by
  obtain ⟨s, hrun, hp⟩ := (Option.any_eq_true
    (fun s : State 1 => decide (s.dtor = .destroyed)) ((machine 1).run {} loopLeftFirst)).mp
    (by decide +kernel)
  have hdead : s.dtor = .destroyed := of_decide_eq_true hp
  exact ⟨s, hrun, hdead, (clean_iff_left loopLeftFirst hrun hdead).mpr (by decide +kernel)⟩

/-! ### Whether it returns -/

/-- If nobody uses any loop, the workers have nothing to do. -/
lemma Inv.idle_of_left (h : Inv s) (hleft : ∀ r, s.Left r) :
    (∀ w, s.server.worker w = .idle) ∧ s.server.taskQueue = [] := by
  have hheld : ∀ w r, (s.server.worker w).loop ≠ some r := by
    intro w r hw
    rcases hleft r with hlost | hadded
    · exact h.placed.not_lost hw hlost
    · exact absurd (h.placed.held_lt hw) (Nat.not_lt.mpr hadded)
  constructor
  · intro w
    cases hw : s.server.worker w with
    | idle => rfl
    | inLoop r pc => exact absurd (by rw [hw]; rfl) (hheld w r)
  · refine List.eq_nil_iff_forall_not_mem.mpr fun r hr => ?_
    have hcount : 0 < s.server.taskQueue.count r := List.count_pos_iff.mpr hr
    have hcensus := h.placed.census r
    rw [Places.census, show s.server.places.queue = s.server.taskQueue from rfl] at hcensus
    rcases hleft r with hlost | hadded
    · have hlostCount : 0 < s.server.places.lost.count r := List.count_pos_iff.mpr hlost
      split at hcensus <;> omega
    · rw [if_neg (Nat.not_lt.mpr hadded)] at hcensus
      omega

/-- The loops are deleted one after the other: by induction on how many are left. -/
lemma deletes (k : ℕ) : ∀ {s : State n} {i : ℕ}, i + k = n → s.dtor = .deleting i →
    ∃ as, (machine n).run s as = some { s with dtor := .deleting n } ∧ ∀ b, .run b ∉ as := by
  induction k with
  | zero =>
      intro s i hi hpc
      refine ⟨[], ?_, fun b => List.not_mem_nil⟩
      have hn : s.dtor = .deleting n := by rw [hpc, ← hi, Nat.add_zero]
      rw [Machine.run_nil, ← hn]
  | succ k ih =>
      intro s i hi hpc
      have hg : guard s (.deleteLoop i) := ⟨hpc, by omega⟩
      obtain ⟨as, hrun, hnone⟩ := ih (s := effect s (.deleteLoop i)) (i := i + 1) (by omega) rfl
      refine ⟨.deleteLoop i :: as, ?_, ?_⟩
      · exact Machine.run_cons_eq_some.mpr ⟨_, Machine.guarded_step_eq_some.mpr ⟨hg, rfl⟩, hrun⟩
      · intro b hb
        rcases List.mem_cons.mp hb with heq | hrest
        · simp at heq
        · exact hnone b hrest

/-- And so are idle workers joined. -/
lemma joins (k : ℕ) : ∀ {s : State n} {w : ℕ}, w + k = n → s.dtor = .joining w →
    (∀ v, s.server.worker v = .idle) → s.server.taskQueue = [] →
    ∃ as, (machine n).run s as = some { s with dtor := .joining n } ∧ ∀ b, .run b ∉ as := by
  induction k with
  | zero =>
      intro s w hw hpc _ _
      refine ⟨[], ?_, fun b => List.not_mem_nil⟩
      have hn : s.dtor = .joining n := by rw [hpc, ← hw, Nat.add_zero]
      rw [Machine.run_nil, ← hn]
  | succ k ih =>
      intro s w hw hpc hidle hq
      have hlt : w < n := by omega
      have hg : guard s (.join ⟨w, hlt⟩) := ⟨hpc, hidle _, hq⟩
      obtain ⟨as, hrun, hnone⟩ := ih (s := effect s (.join ⟨w, hlt⟩)) (w := w + 1) (by omega) rfl
        hidle hq
      refine ⟨.join ⟨w, hlt⟩ :: as, ?_, ?_⟩
      · exact Machine.run_cons_eq_some.mpr ⟨_, Machine.guarded_step_eq_some.mpr ⟨hg, rfl⟩, hrun⟩
      · intro b hb
        rcases List.mem_cons.mp hb with heq | hrest
        · simp at heq
        · exact hnone b hrest

/-- A destructor that finds the workers idle returns, by its own steps alone. -/
lemma returns {s : State n} (hpc : s.dtor = .deleting 0) (hidle : ∀ v, s.server.worker v = .idle)
    (hq : s.server.taskQueue = []) :
    ∃ as t, (machine n).run s as = some t ∧ t.dtor = .destroyed ∧ t.misused = s.misused ∧
      ∀ b, .run b ∉ as := by
  obtain ⟨as, hdeletes, hno⟩ := deletes n (Nat.zero_add n) hpc
  obtain ⟨bs, hjoins, hno'⟩ := joins (s := { s with dtor := .joining 0 }) n (Nat.zero_add n) rfl
    hidle hq
  have hstop : (machine n).step { s with dtor := .deleting n } .setStop
      = some { s with dtor := .joining 0 } := Machine.guarded_step_eq_some.mpr ⟨rfl, rfl⟩
  have hend : (machine n).step { s with dtor := .joining n } .dtorEnd
      = some { s with dtor := .destroyed } := Machine.guarded_step_eq_some.mpr ⟨rfl, rfl⟩
  refine ⟨as ++ .setStop :: (bs ++ [.dtorEnd]), { s with dtor := .destroyed }, ?_, rfl, rfl, ?_⟩
  · rw [Machine.run_append, hdeletes, Option.bind_some, Machine.run_cons, hstop, Option.bind_some,
      Machine.run_append, hjoins, Option.bind_some, Machine.run_cons, hend]
    rfl
  · intro b hb
    simp only [List.mem_append, List.mem_cons, reduceCtorEq, List.not_mem_nil, or_false,
      false_or] at hb
    exact hb.elim (hno b) (hno' b)

/-- **When the destructor can return.**  In every reachable state in which it has just been called:
unless an oracle fails again, it can return with no deleted loop used if and only if every loop had
been left by an exception, or never been started.  Then it returns by its own steps. -/
theorem returns_iff_left {s : State n} (hs : (machine n).Reachable s) (hpc : s.dtor = .deleting 0) :
    (∃ as t, (machine n).run s as = some t ∧ t.dtor = .destroyed ∧ t.misused = false ∧
      ∀ b, .run b ∈ as → b.Benign) ↔ ∀ r, s.Left r := by
  have hinv : Inv s := inv_inductive.reachable hs
  constructor
  · rintro ⟨as, t, hrun, hdead, -, hbenign⟩ r
    by_contra hnot
    -- along steps that do not fail nobody leaves loop `r`
    have hkept : Inv t ∧ t.dtor ≠ .outside ∧ ¬ t.Left r := by
      refine Machine.run_guarded (P := fun _ a => ∀ b, a = .run b → b.Benign)
        (I := fun t => Inv t ∧ t.dtor ≠ .outside ∧ ¬ t.Left r) (fun s a t h hb hst => ?_) as
        ⟨hinv, by rw [hpc]; simp, hnot⟩ (Machine.along_of_forall as ?_) hrun
      · obtain ⟨hg, rfl⟩ := Machine.guarded_step_eq_some.mp hst
        refine ⟨inv_step h.1 hg, ?_, fun hleft => ?_⟩
        · cases a with
          | run b => exact h.2.1
          | _ => simp [effect]
        · rcases (left_step hg h.2.1 r).2 hleft with hold | ⟨b, hrunb, -, hbad⟩
          · exact h.2.2 hold
          · exact hbad (hb b hrunb)
      · intro a ha b hab
        exact hbenign b (hab ▸ ha)
    exact hkept.2.2 (hkept.1.all_left hdead r)
  · intro hleft
    obtain ⟨hidle, hq⟩ := hinv.idle_of_left hleft
    obtain ⟨as, t, hrun, hdead, hsame, hno⟩ := returns hpc hidle hq
    refine ⟨as, t, hrun, hdead, ?_, fun b hb => absurd hb (hno b)⟩
    rw [hsame]
    exact hinv.unharmed (by rw [hpc]; rfl)

/-- A worker inside `epoll_wait` keeps the destructor from returning, unless it uses the deleted
loop. -/
theorem returns_iff_left_acceptFails :
    ∃ s : State 1, (machine 1).Reachable s ∧ s.dtor = .deleting 0 ∧
      ¬ ∃ as t, (machine 1).run s as = some t ∧ t.dtor = .destroyed ∧ t.misused = false ∧
        ∀ b, .run b ∈ as → b.Benign := by
  obtain ⟨s, hs, hp⟩ := Machine.exists_reachable_of_run (m := machine 1) rfl
    (acceptFails ++ [.dtorBegin])
    (fun s => decide (s.dtor = .deleting 0 ∧ ¬ s.Left 0)) (by decide +kernel)
  obtain ⟨hpc, hnot⟩ := of_decide_eq_true hp
  exact ⟨s, hs, hpc, fun hreturns => hnot ((returns_iff_left hs hpc).mp hreturns 0)⟩

end CppServer.Destruction
