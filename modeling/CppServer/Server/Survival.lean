import Mathlib.Algebra.BigOperators.Group.Finset.Piecewise
import Mathlib.Data.Fintype.Card
import CppServer.Server.Reactors

/-!
# A reactor survives exactly as long as no oracle fails

Where the loops are is all that matters, so the machine is first reduced to `Places`: the queue of
the pool, the loop each worker is in, and the loops that were lost.  Every step of the machine is
a move of a loop from one place to the next (`places_move`), and the moves keep `WellPlaced`:
each loop that was added is in exactly one place.

A loop that is lost stays lost, and so does the main reactor once an exception has left it.

* `serving_iff_benign` — for every run: once all loops have been started, every reactor is still
  in its loop exactly when no answer of an oracle was a failure, whatever its errno.
* `reactor_lost_to_EINTR` — one interrupted `epoll_wait` is enough.
-/

namespace CppServer.Reactors

open Finset (univ)
open Function (update update_self update_of_ne)
open ThreadPool (Outcome)

variable {n : ℕ}

/-! ## Where the loops are -/

/-- The places a loop can be in. -/
structure Places (n : ℕ) where
  queue : List ℕ
  held : Fin n → Option ℕ
  lost : List ℕ
  added : ℕ

namespace Places

/-- How many workers are in the loop of sub reactor `r`. -/
def holders (p : Places n) (r : ℕ) : ℕ := (univ.filter fun w => p.held w = some r).card

/-- In how many places the loop of sub reactor `r` is. -/
def census (p : Places n) (r : ℕ) : ℕ := p.queue.count r + p.holders r + p.lost.count r

/-- A loop moves from one place to the next. -/
inductive Move : Places n → Places n → Prop
  | stay {p : Places n} : Move p p
  | add {p : Places n} : p.added < n →
      Move p { p with queue := p.queue ++ [p.added], added := p.added + 1 }
  | take {p : Places n} {w : Fin n} {r : ℕ} {rest : List ℕ} : p.held w = none →
      p.queue = r :: rest → Move p { p with queue := rest, held := update p.held w (some r) }
  | lose {p : Places n} {w : Fin n} {r : ℕ} : p.held w = some r →
      Move p { p with held := update p.held w none, lost := p.lost ++ [r] }

/-- Every loop that was added is in exactly one place, and no other is anywhere. -/
structure WellPlaced (p : Places n) : Prop where
  bound : p.added ≤ n
  census : ∀ r, p.census r = if r < p.added then 1 else 0

/-- When one worker changes its loop, the counts change by what it gives up and what it takes. -/
lemma holders_update (p : Places n) (w : Fin n) (x : Option ℕ) (r : ℕ) :
    { p with held := update p.held w x }.holders r + (if p.held w = some r then 1 else 0)
      = p.holders r + if x = some r then 1 else 0 := by
  simp only [holders, Finset.card_filter]
  rw [← Finset.add_sum_erase univ (fun v => if update p.held w x v = some r then 1 else 0)
      (Finset.mem_univ w),
    ← Finset.add_sum_erase univ (fun v => if p.held v = some r then 1 else 0)
      (Finset.mem_univ w)]
  have hothers : ∑ v ∈ univ.erase w, (if update p.held w x v = some r then 1 else 0)
      = ∑ v ∈ univ.erase w, if p.held v = some r then 1 else 0 := by
    refine Finset.sum_congr rfl fun v hv => ?_
    rw [update_of_ne (Finset.ne_of_mem_erase hv)]
  rw [hothers]
  simp only [update_self]
  omega

/-- **A move keeps every loop in exactly one place.** -/
theorem WellPlaced.move {p q : Places n} (h : p.WellPlaced) (hm : p.Move q) : q.WellPlaced := by
  cases hm with
  | stay => exact h
  | add hlt =>
      refine ⟨hlt, fun r => ?_⟩
      have hr := h.census r
      simp only [Places.census, List.count_append, List.count_singleton, beq_iff_eq] at hr ⊢
      change _ + p.holders r + _ = _
      split <;> split at hr <;> split <;> omega
  | @take w r' rest hw hq =>
      refine ⟨h.bound, fun r => ?_⟩
      have hr := h.census r
      have hheld := p.holders_update w (some r') r
      rw [hw] at hheld
      simp only [reduceCtorEq, if_false, Option.some.injEq, Nat.add_zero] at hheld
      simp only [Places.census, hq, List.count_cons, beq_iff_eq] at hr ⊢
      change _ + { p with held := update p.held w (some r') }.holders r + _ = _
      omega
  | @lose w r' hw =>
      refine ⟨h.bound, fun r => ?_⟩
      have hr := h.census r
      have hheld := p.holders_update w none r
      rw [hw] at hheld
      simp only [reduceCtorEq, if_false, Option.some.injEq, Nat.add_zero] at hheld
      simp only [Places.census, List.count_append, List.count_singleton, beq_iff_eq] at hr ⊢
      change _ + { p with held := update p.held w none }.holders r + _ = _
      omega

variable {p : Places n}

/-- With nothing queued and nothing lost, each loop is held by exactly one worker. -/
theorem WellPlaced.existsUnique (h : p.WellPlaced) (hq : p.queue = []) {r : ℕ} (hr : r < p.added)
    (hlost : r ∉ p.lost) : ∃! w, p.held w = some r := by
  have hcensus := h.census r
  rw [Places.census, hq, List.count_nil, List.count_eq_zero.mpr hlost, if_pos hr] at hcensus
  rw [Fintype.existsUnique_iff_card_one]
  simpa [holders] using hcensus

/-- A loop that is held is not lost. -/
lemma WellPlaced.not_lost (h : p.WellPlaced) {w : Fin n} {r : ℕ} (hw : p.held w = some r) :
    r ∉ p.lost := by
  intro hlost
  have hholders : 0 < p.holders r := Finset.card_pos.mpr ⟨w, by simpa using hw⟩
  have hcount : 0 < p.lost.count r := List.count_pos_iff.mpr hlost
  have hcensus := h.census r
  rw [Places.census] at hcensus
  split at hcensus <;> omega

/-- A loop that was added and is not lost is held or will be taken. -/
lemma WellPlaced.served (h : p.WellPlaced) {r : ℕ} (hr : r < p.added) (hlost : r ∉ p.lost) :
    r ∈ p.queue ∨ ∃ w, p.held w = some r := by
  have hcensus := h.census r
  rw [Places.census, List.count_eq_zero.mpr hlost, if_pos hr, Nat.add_zero] at hcensus
  rcases Nat.eq_zero_or_pos (p.queue.count r) with hzero | hpos
  · have hholders : 0 < p.holders r := by omega
    obtain ⟨w, hw⟩ := Finset.card_pos.mp hholders
    exact .inr ⟨w, by simpa using hw⟩
  · exact .inl (List.count_pos_iff.mp hpos)

/-- A loop is lost only from a place where it was. -/
lemma WellPlaced.lost_lt (h : p.WellPlaced) {r : ℕ} (hlost : r ∈ p.lost) : r < p.added := by
  have hcount : 0 < p.lost.count r := List.count_pos_iff.mpr hlost
  have hcensus := h.census r
  rw [Places.census] at hcensus
  by_contra hlt
  rw [if_neg hlt] at hcensus
  omega

end Places

/-! ## The machine moves loops -/

/-- The loop a worker is in. -/
def Worker.loop : Worker → Option ℕ
  | .idle => none
  | .inLoop r _ => some r

/-- How many loops have been added. -/
def MainPc.added (n : ℕ) : MainPc → ℕ
  | .starting i => i
  | _ => n

/-- Where the loops are. -/
def State.places (s : State n) : Places n where
  queue := s.taskQueue
  held w := (s.worker w).loop
  lost := s.lost
  added := s.main.added n

/-- The worker is in the loop of sub reactor `r`. -/
def State.Holds (s : State n) (w : Fin n) (r : ℕ) : Prop := (s.worker w).loop = some r

/-- No oracle has failed in this step. -/
def Action.Benign : Action n → Prop
  | .poll _ _ (.error _) => False
  | .handle _ _ _ _ .threw => False
  | .mainPoll (.error _) => False
  | .mainAccept (.error _) _ => False
  | .mainAccept _ .threw => False
  | _ => True

variable {s : State n} {a : Action n}

lemma loop_update (worker : Fin n → Worker) (w : Fin n) (x : Worker) :
    (fun v => (update worker w x v).loop) = update (fun v => (worker v).loop) w x.loop := by
  funext v
  by_cases hv : v = w
  · subst hv
    simp
  · rw [update_of_ne hv, update_of_ne hv]

/-- A worker that stays in its loop moves nothing. -/
lemma goOn_places {w : Fin n} {r : ℕ} (pc : LoopPc) (hw : (s.worker w).loop = some r) :
    (s.goOn w r pc).places = s.places := by
  have hheld : (fun v => (update s.worker w (.inLoop r pc) v).loop)
      = fun v => (s.worker v).loop := by
    rw [loop_update, show (Worker.inLoop r pc).loop = some r from rfl, ← hw]
    exact Function.update_eq_self w _
  simp only [State.places, State.goOn, hheld]

/-- An exception loses the loop. -/
lemma swallow_move {w : Fin n} {r : ℕ} (hw : (s.worker w).loop = some r) :
    s.places.Move (s.swallow w r).places := by
  have hmove : s.places.Move
      { s.places with held := update s.places.held w none, lost := s.places.lost ++ [r] } :=
    .lose hw
  have hheld : (fun v => (update s.worker w .idle v).loop)
      = update (fun v => (s.worker v).loop) w none := loop_update s.worker w .idle
  simpa only [State.places, State.swallow, hheld] using hmove

lemma added_of_ne_starting {m : MainPc} (h : ∀ i, m ≠ .starting i) : m.added n = n := by
  cases m with
  | starting i => exact absurd rfl (h i)
  | _ => rfl

/-- The main reactor moves no loop once it has added them all. -/
lemma main_places {m : MainPc} (hold : s.main.added n = n) (hnew : m.added n = n) :
    { s with main := m }.places = s.places := by
  simp only [State.places, hold, hnew]

lemma added_afterPoll (x : Except String (List Unit)) : (MainPc.afterPoll x).added n = n := by
  rcases x with _ | ⟨_ | ⟨_, _⟩⟩ <;> rfl

lemma added_afterAccept (x : Option (Except String ℕ)) (o : Outcome) :
    (MainPc.afterAccept x o).added n = n := by
  rcases x with _ | ⟨_ | _⟩ <;> cases o <;> rfl

/-- **Every step is a move.** -/
theorem places_move (hg : guard s a) : s.places.Move (effect s a).places := by
  cases a with
  | add =>
      obtain ⟨i, hi, hm⟩ := hg
      have hadded : s.places.added = i := by simp [State.places, hm, MainPc.added]
      have hmove := Places.Move.add (p := s.places) (by rw [hadded]; exact hi)
      have hplaces : (effect s .add).places
          = { s.places with queue := s.places.queue ++ [s.places.added],
                            added := s.places.added + 1 } := by
        rw [hadded]
        simp [effect, hm, State.places, MainPc.added]
      rw [hplaces]
      exact hmove
  | enterLoop =>
      have hm : s.main = .starting n := hg
      have hplaces : (effect s .enterLoop).places = s.places :=
        main_places (by rw [hm]; rfl) rfl
      rw [hplaces]
      exact .stay
  | take w r rest =>
      have hidle : (s.worker w).loop = none := by
        rw [hg.1]
        rfl
      have hmove : s.places.Move
          { s.places with queue := rest, held := update s.places.held w (some r) } :=
        .take hidle hg.2
      have hheld : (fun v => (update s.worker w (.inLoop r .polling) v).loop)
          = update (fun v => (s.worker v).loop) w (some r) :=
        loop_update s.worker w (.inLoop r .polling)
      simpa only [State.places, effect, State.goOn, hheld] using hmove
  | poll w r answer =>
      have hw : (s.worker w).loop = some r := by
        rw [show s.worker w = .inLoop r .polling from hg]
        rfl
      simp only [effect]
      split
      · rw [goOn_places _ hw]
        exact .stay
      · exact swallow_move hw
  | handle w r fd rest callback =>
      have hw : (s.worker w).loop = some r := by
        rw [show s.worker w = .inLoop r (.dispatching (fd :: rest)) from hg]
        rfl
      cases callback with
      | returned =>
          simp only [effect]
          rw [goOn_places _ hw]
          exact .stay
      | threw => exact swallow_move hw
  | endOfBatch w r =>
      have hw : (s.worker w).loop = some r := by
        rw [show s.worker w = .inLoop r (.dispatching []) from hg]
        rfl
      simp only [effect]
      rw [goOn_places _ hw]
      exact .stay
  | mainPoll answer =>
      have hm : s.main = .polling := hg
      have hplaces : (effect s (.mainPoll answer)).places = s.places :=
        main_places (by rw [hm]; rfl) (added_afterPoll _)
      rw [hplaces]
      exact .stay
  | mainAccept answer callback =>
      have hplaces : (effect s (.mainAccept answer callback)).places = s.places :=
        main_places (by rw [hg.1]; rfl) (added_afterAccept _ _)
      rw [hplaces]
      exact .stay

theorem wellPlaced_init : ({} : State n).places.WellPlaced where
  bound := Nat.zero_le n
  census r := by simp [Places.census, Places.holders, State.places, Worker.loop, MainPc.added]

theorem wellPlaced_step (h : s.places.WellPlaced) (hg : guard s a) :
    (effect s a).places.WellPlaced := h.move (places_move hg)

theorem wellPlaced_inductive : (machine n).Inductive fun s => s.places.WellPlaced :=
  Machine.guarded_inductive (fun _ hs => hs ▸ wellPlaced_init) fun _ _ => wellPlaced_step

/-! ## What a failure leaves behind -/

/-- A loop has been lost, or the main reactor has. -/
def State.Hurt (s : State n) : Prop := s.lost ≠ [] ∨ s.main = .stopped

lemma epollPoll_ok {ρ : Type} (batch : List ρ) : epollPoll (.ok batch) = .ok batch := rfl

lemma epollPoll_error {ρ : Type} (e : Errno) :
    epollPoll (.error e : Except Errno (List ρ)) = .error "epoll wait error" := rfl

lemma accept_error (e : Errno) :
    socketAccept listeningSocket [.error e] = some (.error "socket accept error") := by
  cases e <;> rfl

/-- A step in which no oracle fails does no harm. -/
lemma not_hurt_step (h : ¬ s.Hurt) (hb : a.Benign) (hg : guard s a) : ¬ (effect s a).Hurt := by
  obtain ⟨hlost, hmain⟩ := not_or.mp h
  -- only the main reactor's own steps can stop it
  have keep : ∀ {s' : State n}, s'.lost = s.lost → s'.main ≠ .stopped → ¬ s'.Hurt := by
    intro s' hl hm
    exact not_or.mpr ⟨hl ▸ hlost, hm⟩
  cases a with
  | add =>
      obtain ⟨i, -, hm⟩ := hg
      simp only [effect, hm]
      exact keep rfl (by simp)
  | enterLoop => exact keep rfl (by simp [effect])
  | take w r rest => exact keep rfl hmain
  | poll w r answer =>
      cases answer with
      | ok batch =>
          simp only [effect, epollPoll_ok]
          exact keep rfl hmain
      | error e => exact absurd hb id
  | handle w r fd rest callback =>
      cases callback with
      | returned => exact keep rfl hmain
      | threw => exact absurd hb id
  | endOfBatch w r => exact keep rfl hmain
  | mainPoll answer =>
      cases answer with
      | ok batch =>
          refine keep rfl ?_
          simp only [effect, epollPoll_ok]
          cases batch <;> simp [MainPc.afterPoll]
      | error e => exact absurd hb id
  | mainAccept answer callback =>
      cases answer with
      | ok fd =>
          cases callback with
          | returned => exact keep rfl (by simp [effect, socketAccept, MainPc.afterAccept])
          | threw => exact absurd hb id
      | error e => exact absurd hb id

/-- A failure does harm, whatever its errno. -/
lemma hurt_of_not_benign (hb : ¬ a.Benign) : (effect s a).Hurt := by
  cases a with
  | poll w r answer =>
      cases answer with
      | ok batch => exact absurd trivial hb
      | error e =>
          simp only [effect, epollPoll_error]
          exact .inl (by simp [State.swallow])
  | handle w r fd rest callback =>
      cases callback with
      | returned => exact absurd trivial hb
      | threw => exact .inl (by simp [effect, State.swallow])
  | mainPoll answer =>
      cases answer with
      | ok batch => exact absurd trivial hb
      | error e => exact .inr (by simp [effect, epollPoll_error, MainPc.afterPoll])
  | mainAccept answer callback =>
      cases answer with
      | ok fd =>
          cases callback with
          | returned => exact absurd trivial hb
          | threw => exact .inr (by simp [effect, socketAccept, MainPc.afterAccept])
      | error e =>
          refine .inr ?_
          simp only [effect, accept_error]
          cases callback <;> rfl
  | _ => exact absurd trivial hb

/-- The harm stays: a lost loop is never added again, and a stopped reactor takes no step. -/
lemma hurt_step (h : s.Hurt) (hg : guard s a) : (effect s a).Hurt := by
  rcases h with hlost | hmain
  · -- no step takes anything off the list of lost loops
    refine .inl ?_
    cases a with
    | add =>
        obtain ⟨i, -, hm⟩ := hg
        simpa only [effect, hm] using hlost
    | poll w r answer =>
        simp only [effect]
        split
        · exact hlost
        · simp [State.swallow]
    | handle w r fd rest callback =>
        cases callback with
        | returned => exact hlost
        | threw => simp [effect, State.swallow]
    | _ => exact hlost
  · refine .inr ?_
    cases a with
    | add =>
        obtain ⟨i, -, hm⟩ := hg
        rw [hmain] at hm
        simp at hm
    | enterLoop =>
        rw [show s.main = .starting n from hg] at hmain
        simp at hmain
    | poll w r answer =>
        simp only [effect]
        split <;> exact hmain
    | handle w r fd rest callback => cases callback <;> exact hmain
    | mainPoll answer =>
        rw [show s.main = .polling from hg] at hmain
        simp at hmain
    | mainAccept answer callback =>
        rw [hg.1] at hmain
        simp at hmain
    | _ => exact hmain

/-- A run does no harm exactly when no oracle fails in it: by induction on the run. -/
theorem hurt_run_iff : ∀ {s s' : State n} (as : List (Action n)), ¬ s.Hurt →
    (machine n).run s as = some s' → (s'.Hurt ↔ ∃ a ∈ as, ¬ a.Benign)
  | s, s', [], h, hr => by
      rw [Machine.run_nil, Option.some.injEq] at hr
      subst hr
      simp [h]
  | s, s', a :: as, h, hr => by
      obtain ⟨t, hst, hrun⟩ := Machine.run_cons_eq_some.mp hr
      obtain ⟨hg, rfl⟩ := Machine.guarded_step_eq_some.mp hst
      by_cases hb : a.Benign
      · rw [hurt_run_iff as (not_hurt_step h hb hg) hrun]
        simp [hb]
      · have hkeep : (effect s a).Hurt → s'.Hurt := by
          refine Machine.run_rel (R := fun s s' => s.Hurt → s'.Hurt) (fun _ h => h)
            (fun s a t s' hst ht hs => ht ?_) as hrun
          obtain ⟨hg, rfl⟩ := Machine.guarded_step_eq_some.mp hst
          exact hurt_step hs hg
        exact iff_of_true (hkeep (hurt_of_not_benign hb)) ⟨a, by simp, hb⟩

/-! ## The result -/

/-- All loops have been added and taken. -/
def State.AllStarted (s : State n) : Prop := (∀ i, s.main ≠ .starting i) ∧ s.taskQueue = []

/-- The main reactor is inside its loop, and each sub reactor's loop is held by exactly one
worker. -/
def State.Serving (s : State n) : Prop :=
  (s.main = .polling ∨ s.main = .accepting) ∧ ∀ r < n, ∃! w, s.Holds w r

/-- If the step is `NewConnection`, then the sub reactor it chooses is polled by a worker, or will
be. -/
def AssignsServed (s : State n) (a : Action n) : Prop :=
  ∀ fd callback, a = .mainAccept (.ok fd) callback → guard s a →
    fd % n ∈ s.taskQueue ∨ ∃ w, s.Holds w (fd % n)

/-- Once everything has been started, serving means that no harm was done. -/
theorem serving_iff (h : s.places.WellPlaced) (hst : s.AllStarted) : s.Serving ↔ ¬ s.Hurt := by
  have hadded : s.main.added n = n := added_of_ne_starting hst.1
  constructor
  · rintro ⟨hmain, hheld⟩ (hlost | hstop)
    · obtain ⟨r, hr⟩ := List.exists_mem_of_ne_nil _ hlost
      have hlt : r < n := hadded ▸ h.lost_lt hr
      obtain ⟨w, hw, -⟩ := hheld r hlt
      exact h.not_lost hw hr
    · rw [hstop] at hmain
      simp at hmain
  · intro hurt
    obtain ⟨hlost, hstop⟩ := not_or.mp hurt
    have hnil : s.lost = [] := not_not.mp hlost
    refine ⟨?_, fun r hr => ?_⟩
    · cases hm : s.main with
      | starting i => exact absurd hm (hst.1 i)
      | polling => exact .inl rfl
      | accepting => exact .inr rfl
      | stopped => exact absurd hm hstop
    · exact h.existsUnique hst.2 (by simpa [State.places, hadded] using hr)
        (by simp [State.places, hnil])

/-- A server that has come to no harm assigns descriptors to reactors that are served. -/
lemma assignsServed (h : s.places.WellPlaced) (hurt : ¬ s.Hurt) (a : Action n) :
    AssignsServed s a := by
  rintro fd callback rfl ⟨hm, hn⟩
  have hadded : s.places.added = n := by simp [State.places, hm, MainPc.added]
  have hnil : s.lost = [] := not_not.mp (not_or.mp hurt).1
  exact h.served (by rw [hadded]; exact Nat.mod_lt fd hn) (by simp [State.places, hnil])

/-- **When every reactor survives.**  For every run of a server with any number of sub reactors:
once all loops have been started, the main reactor is inside its loop and each sub reactor's loop
is held by exactly one worker, exactly when so far every `epoll_wait` and `accept` has succeeded
and no callback has thrown.  Until then no descriptor is assigned to a reactor that is not
served. -/
theorem serving_iff_benign {s' : State n} (as : List (Action n))
    (hrun : (machine n).run {} as = some s') (hst : s'.AllStarted) :
    (s'.Serving ↔ ∀ a ∈ as, a.Benign) ∧
    ((∀ a ∈ as, a.Benign) → (machine n).Along AssignsServed {} as) := by
  have hunhurt : ¬ ({} : State n).Hurt := by simp [State.Hurt]
  have hplaced : s'.places.WellPlaced :=
    wellPlaced_inductive.reachable ((Machine.Reachable.init rfl).run hrun)
  refine ⟨?_, fun hbenign => ?_⟩
  · rw [serving_iff hplaced hst, hurt_run_iff as hunhurt hrun]
    simp only [not_exists, not_and, not_not]
  · refine Machine.along_guarded (I := fun s : State n => s.places.WellPlaced ∧ ¬ s.Hurt)
      (fun s a s' hI hP hst => ?_) (fun s a hI _ => assignsServed hI.1 hI.2 a) as
      ⟨wellPlaced_init, hunhurt⟩ (Machine.along_of_forall as hbenign)
    obtain ⟨hg, rfl⟩ := Machine.guarded_step_eq_some.mp hst
    exact ⟨wellPlaced_step hI.1 hg, not_hurt_step hI.2 hP hg⟩

/-- One sub reactor, started, and one connection accepted. -/
def oneConnection : List (Action 1) :=
  [.add, .enterLoop, .take 0 0 [], .mainPoll (.ok [()]), .mainAccept (.ok 5) .returned,
    .poll 0 0 (.ok [5]), .handle 0 0 5 [] .returned, .endOfBatch 0 0]

theorem serving_iff_benign_oneConnection :
    ∃ s' : State 1, (machine 1).run {} oneConnection = some s' ∧ s'.Serving := by
  obtain ⟨s', hrun, hq⟩ := (Option.any_eq_true
    (fun s : State 1 => decide (s.main = .polling ∧ s.taskQueue = []))
    ((machine 1).run {} oneConnection)).mp (by decide)
  obtain ⟨hm, hq⟩ := of_decide_eq_true hq
  refine ⟨s', hrun, ((serving_iff_benign oneConnection hrun ⟨by simp [hm], hq⟩).1).mpr ?_⟩
  simp [oneConnection, Action.Benign]

/-- The same sub reactor, with a signal at its first `epoll_wait`. -/
def interrupted : List (Action 1) :=
  [.add, .enterLoop, .take 0 0 [], .poll 0 0 (.error .EINTR)]

/-- An interrupted `epoll_wait` ends the loop of its sub reactor. -/
theorem reactor_lost_to_EINTR :
    ¬ ∀ (n : ℕ) (s' : State n) (as : List (Action n)), (machine n).run {} as = some s' →
      s'.AllStarted → s'.Serving := by
  intro h
  obtain ⟨s', hrun, hs⟩ := (Option.any_eq_true
    (fun s : State 1 => decide (s.main = .polling ∧ s.taskQueue = [] ∧ s.worker 0 = .idle))
    ((machine 1).run {} interrupted)).mp (by decide)
  obtain ⟨hm, hq, hidle⟩ := of_decide_eq_true hs
  obtain ⟨w, hw, -⟩ := (h 1 s' interrupted hrun ⟨by simp [hm], hq⟩).2 0 Nat.one_pos
  rw [State.Holds, Fin.fin_one_eq_zero w, hidle] at hw
  simp [Worker.loop] at hw

end CppServer.Reactors
