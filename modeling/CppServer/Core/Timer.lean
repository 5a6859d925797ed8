import CppServer.Lib.Machine
import CppServer.Lib.PriorityQueue

/-!
# `TimerManager`

Timers are created one after the other, each at some address, and handed to `AddTimer` in any
order.  The queue is a `std::priority_queue<TimerItem::ptr>` without a third argument: it compares
with `std::less`, and `operator<` on shared pointers compares the addresses.  `TimeCmp`, which
compares the times, is declared beside it and never used.

So the top is the timer at the highest address.  `deadline` is history: the time at which a timer
should expire, without the wrap-around of `size_t`.

* `ordered_iff` — the queue goes by deadlines exactly if each timer, when it is added, is at an
  address below every queued timer that is due before it and above every one that is due after.
-/

namespace CppServer.Timer

/-- What `gettimeofday` answers. -/
structure Timeval where
  sec : ℕ
  usec : ℕ

/-- `TimerItem::UpdateCurrentTime`: the new `current_time_`. -/
def updateCurrentTime (cur : Timeval) : UInt64 := UInt64.ofNat (cur.sec * 1000 + cur.usec / 1000)

/-- `TimerItem`, and the address it is at. -/
structure TimerItem where
  addr : ℕ
  expireTime : UInt64
  deadline : ℕ
  deriving DecidableEq, Repr

/-- `TimerItem(timeout)` -/
def TimerItem.new (addr : ℕ) (currentTime timeout : UInt64) : TimerItem where
  addr := addr
  expireTime := currentTime + timeout
  deadline := currentTime.toNat + timeout.toNat

/-- `operator<` on `TimerItem::ptr` -/
def TimerItem.Less (a b : TimerItem) : Prop := a.addr < b.addr

instance : DecidableRel TimerItem.Less := fun a b => inferInstanceAs (Decidable (a.addr < b.addr))

instance : IsStrictWeakOrder TimerItem TimerItem.Less where
  irrefl _ := Nat.lt_irrefl _
  trans _ _ _ := Nat.lt_trans
  incomp_trans a b c := by
    simp only [TimerItem.Less]
    omega

/-- The timers created so far, and a `TimerManager`. -/
structure State where
  currentTime : UInt64 := 0
  created : List TimerItem := []
  expireTimeThreshold : UInt64 := 0
  timerQueue : PriorityQueue TimerItem TimerItem.Less := .empty

/-- What is done with them. -/
inductive Action where
  | create (addr : ℕ) (cur : Timeval) (timeout : UInt64)
  | addTimer (timer : TimerItem)
  | setExpiretime (expireTime : UInt64)

/-- The clock does not go back, no two timers are at one address, and what is added exists. -/
def guard (s : State) : Action → Prop
  | .create addr cur _ => s.currentTime ≤ updateCurrentTime cur ∧ ∀ t ∈ s.created, t.addr ≠ addr
  | .addTimer timer => timer ∈ s.created
  | .setExpiretime _ => True

instance (s : State) : ∀ a, Decidable (guard s a)
  | .create _ _ _ => inferInstanceAs (Decidable (_ ∧ _))
  | .addTimer timer => inferInstanceAs (Decidable (timer ∈ s.created))
  | .setExpiretime _ => inferInstanceAs (Decidable True)

def effect (s : State) : Action → State
  | .create addr cur timeout =>
      { s with currentTime := updateCurrentTime cur,
               created := .new addr (updateCurrentTime cur) timeout :: s.created }
  | .addTimer timer => { s with timerQueue := s.timerQueue.push timer }
  | .setExpiretime expireTime => { s with expireTimeThreshold := expireTime }

def machine : Machine State Action :=
  Machine.guarded (fun s => ∃ expireTime, s = { expireTimeThreshold := expireTime }) guard effect

/-- The top is due first, and popping takes the timers off in the order of their deadlines. -/
def State.Ordered (s : State) : Prop :=
  (∀ t, s.timerQueue.top = some t → ∀ x ∈ s.timerQueue, t.deadline ≤ x.deadline) ∧
  s.timerQueue.drain.Pairwise fun t x => t.deadline ≤ x.deadline

/-- The address of an added timer agrees with its deadline, among those in the queue. -/
def FitsIn (s : State) : Action → Prop
  | .create _ _ _ => True
  | .addTimer x => ∀ t ∈ s.timerQueue,
      (x.addr < t.addr → t.deadline ≤ x.deadline) ∧ (t.addr < x.addr → x.deadline ≤ t.deadline)
  | .setExpiretime _ => True

instance (s : State) : ∀ a, Decidable (FitsIn s a)
  | .create _ _ _ => inferInstanceAs (Decidable True)
  | .addTimer x => inferInstanceAs (Decidable (∀ t ∈ s.timerQueue.elems,
      (x.addr < t.addr → t.deadline ≤ x.deadline) ∧ (t.addr < x.addr → x.deadline ≤ t.deadline)))
  | .setExpiretime _ => inferInstanceAs (Decidable True)

/-! ## The queue -/

/-- What is queued has been created, and an address tells which timer it is. -/
structure Inv (s : State) : Prop where
  queued : ∀ t ∈ s.timerQueue, t ∈ s.created
  addr : ∀ t ∈ s.created, ∀ x ∈ s.created, t.addr = x.addr → t = x

theorem inv_step {s : State} {a : Action} (h : Inv s) (hg : guard s a) : Inv (effect s a) := by
  cases a with
  | create addr cur timeout =>
      refine ⟨fun t ht => List.mem_cons_of_mem _ (h.queued t ht), ?_⟩
      simp only [effect, List.forall_mem_cons]
      refine ⟨⟨fun _ => trivial, fun x hx hax => absurd hax.symm (hg.2 x hx)⟩, ?_⟩
      exact fun t ht => ⟨fun hat => absurd hat (hg.2 t ht), h.addr t ht⟩
  | addTimer timer =>
      refine ⟨fun t ht => ?_, h.addr⟩
      rcases PriorityQueue.mem_push.mp ht with rfl | ht
      · exact hg
      · exact h.queued t ht
  | setExpiretime e => exact ⟨h.queued, h.addr⟩

/-- Popping in the order of the deadlines says everything. -/
lemma ordered_iff_drain {s : State} :
    s.Ordered ↔ s.timerQueue.drain.Pairwise fun t x => t.deadline ≤ x.deadline := by
  refine and_iff_right_of_imp fun h t ht x hx => ?_
  rcases PriorityQueue.top_of_drain h ht x hx with rfl | hle
  · exact le_rfl
  · exact hle

/-- What one step does to the order. -/
lemma ordered_step {s : State} {a : Action} (h : Inv s) (hg : guard s a) :
    (effect s a).Ordered ↔ s.Ordered ∧ FitsIn s a := by
  rw [ordered_iff_drain, ordered_iff_drain]
  cases a with
  | create addr cur timeout => exact (and_iff_left trivial).symm
  | addTimer timer =>
      rw [effect, PriorityQueue.pairwise_drain_push]
      refine and_congr_right fun _ => forall₂_congr fun t ht => and_congr_right fun _ => ?_
      constructor
      · exact fun hle hlt => hle (Nat.lt_asymm hlt)
      · intro hle hnot
        rcases Nat.lt_or_eq_of_le (Nat.not_lt.mp hnot) with hlt | heq
        · exact hle hlt
        · exact (congrArg _ (h.addr t (h.queued t ht) timer hg heq)).ge
  | setExpiretime e => exact (and_iff_left trivial).symm

/-- **When the timer queue goes by deadlines.**  After every series of creations and additions the
top is a timer due first, and popping takes the timers off in the order of their deadlines, if and
only if the address of each timer fitted in when it was added. -/
theorem ordered_iff {s₀ s : State} (hs₀ : machine.Init s₀) (as : List Action)
    (hrun : machine.run s₀ as = some s) : s.Ordered ↔ machine.Along FitsIn s₀ as := by
  have hinv : ∀ s a t, Inv s → machine.step s a = some t → Inv t := fun s a t h hst => by
    obtain ⟨hg, rfl⟩ := Machine.guarded_step_eq_some.mp hst
    exact inv_step h hg
  have hord : ∀ s a t, Inv s → machine.step s a = some t →
      (t.Ordered ↔ s.Ordered ∧ FitsIn s a) := fun s a t h hst => by
    obtain ⟨hg, rfl⟩ := Machine.guarded_step_eq_some.mp hst
    exact ordered_step h hg
  obtain ⟨e, rfl⟩ := hs₀
  have hempty : Inv { expireTimeThreshold := e } :=
    ⟨by simp [PriorityQueue.mem_def, PriorityQueue.empty], by simp⟩
  have hstart : State.Ordered { expireTimeThreshold := e } :=
    ordered_iff_drain.mpr (by simp [PriorityQueue.drain_eq, PriorityQueue.empty])
  rw [Machine.run_iff hinv hord as hempty hrun, and_iff_right hstart]

/-- Two timers, the second one due after the first one, at the given addresses. -/
def twoTimers (first second : ℕ) : List Action :=
  [.create first ⟨1, 0⟩ 100, .create second ⟨1, 5000⟩ 200,
    .addTimer (.new first 1000 100), .addTimer (.new second 1005 200)]

theorem ordered_iff_downwards : ∃ s, machine.run {} (twoTimers 96 64) = some s ∧ s.Ordered := by
  exact ⟨_, rfl, (ordered_iff ⟨0, rfl⟩ (twoTimers 96 64) rfl).mpr (by decide)⟩

/-- With the later timer at the higher address, the top is not the one due first. -/
theorem later_on_top :
    ¬ ∀ (s₀ s : State) (as : List Action), machine.Init s₀ → machine.run s₀ as = some s →
      s.Ordered := by
  intro h
  obtain ⟨s, hrun, hp⟩ := (Option.any_eq_true (fun s : State => decide
    (s.timerQueue.top = some (.new 96 1005 200) ∧ .new 64 1000 100 ∈ s.timerQueue.elems))
    (machine.run {} (twoTimers 64 96))).mp (by decide)
  obtain ⟨htop, hmem⟩ := of_decide_eq_true hp
  exact absurd ((h {} s _ ⟨0, rfl⟩ hrun).1 _ htop _ hmem) (by decide)

end CppServer.Timer
