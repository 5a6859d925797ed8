import Mathlib.Data.Fintype.EquivFin
import CppServer.Server.Survival

/-!
# As many workers as loops

The constructor of `Server` asks `std::thread::hardware_concurrency()` for a number, converts it to
`int`, and makes that many workers and that many sub reactors.  A worker that takes a loop never
gives it back, so with one worker too few a reactor would not be served.

* `WellPlaced.all_held` — with as many workers as loops, workers that all hold a loop hold them
  all, whatever the order in which they took them.
* `getsServed_iff` — for every number and every run: all is as it should be, unless there is no
  sub reactor at all and a descriptor is waiting to be given to one.  There is none if the number
  is `0`, and if the conversion to `int` makes it negative.
-/

namespace CppServer.Reactors

/-! ## The numbers -/

/-- `int num_threads = std::thread::hardware_concurrency()` -/
def numThreads (hardwareConcurrency : UInt32) : ℤ := toInt hardwareConcurrency.toNat

/-- How often the loop `for (int i = 0; i < num_threads; i++)` is run, in the constructor of
`ThreadPool` with its workers and in that of `Server` with its sub reactors. -/
def poolSize (hardwareConcurrency : UInt32) : ℕ := (numThreads hardwareConcurrency).toNat

/-- `int rand_choice = fd % sub_reactors_.size()`; the remainder by zero is undefined. -/
def randChoice (size fd : ℕ) : Option ℤ := if size = 0 then none else some (toInt (fd % size))

/-- A number from `2 ^ 31` on is negative as an `int`. -/
lemma toNat_toInt {k : ℕ} (hk : k < 2 ^ 32) : (toInt k).toNat = if k < 2 ^ 31 then k else 0 := by
  unfold toInt
  rw [Int.bmod_def]
  split <;> split <;> omega

lemma poolSize_eq (h : UInt32) : poolSize h = if h.toNat < 2 ^ 31 then h.toNat else 0 :=
  toNat_toInt h.toNat_lt

lemma poolSize_pos_iff (h : UInt32) : 0 < poolSize h ↔ 0 < h.toNat ∧ h.toNat < 2 ^ 31 := by
  rw [poolSize_eq]
  split <;> omega

lemma poolSize_lt (h : UInt32) : poolSize h < 2 ^ 31 := by
  rw [poolSize_eq]
  split <;> omega

/-- Where the remainder is defined, it is the index of a sub reactor. -/
lemma randChoice_eq {size : ℕ} (hpos : 0 < size) (hlt : size < 2 ^ 31) (fd : ℕ) :
    randChoice size fd = some ((fd % size : ℕ) : ℤ) := by
  have hmod : fd % size < size := Nat.mod_lt fd hpos
  rw [randChoice, if_neg hpos.ne', (toInt_eq_iff _).mpr (hmod.trans hlt)]

/-! ## The workers -/

variable {n : ℕ}

namespace Places

variable {p : Places n}

/-- A loop is held only once it was added, and by one worker. -/
lemma WellPlaced.held_lt (h : p.WellPlaced) {w : Fin n} {r : ℕ} (hw : p.held w = some r) :
    r < p.added := by
  have hpos : 0 < p.holders r := Finset.card_pos.mpr ⟨w, by simpa using hw⟩
  have hcensus := h.census r
  rw [Places.census] at hcensus
  by_contra hlt
  rw [if_neg hlt] at hcensus
  omega

lemma WellPlaced.held_inj (h : p.WellPlaced) {w v : Fin n} {r : ℕ} (hw : p.held w = some r)
    (hv : p.held v = some r) : w = v := by
  have hone : p.holders r ≤ 1 := by
    have hcensus := h.census r
    rw [Places.census] at hcensus
    split at hcensus <;> omega
  exact Finset.card_le_one.mp hone w (by simpa using hw) v (by simpa using hv)

/-- **Workers that all hold a loop hold them all.**  They hold different loops, and there are no
more loops than workers. -/
theorem WellPlaced.all_held (h : p.WellPlaced) (hall : ∀ w, p.held w ≠ none) :
    p.queue = [] ∧ ∀ r < n, ∃! w, p.held w = some r := by
  choose loop hloop using fun w => Option.ne_none_iff_exists'.mp (hall w)
  have hlt : ∀ w, loop w < n := fun w => (h.held_lt (hloop w)).trans_le h.bound
  have hinj : Function.Injective fun w => (⟨loop w, hlt w⟩ : Fin n) := fun w v hwv =>
    h.held_inj (hloop w) ((hloop v).trans (congrArg some (Fin.mk.inj hwv).symm))
  have hheld : ∀ r < n, ∃ w, p.held w = some r := fun r hr => by
    obtain ⟨w, hw⟩ := Finite.surjective_of_injective hinj ⟨r, hr⟩
    exact ⟨w, (hloop w).trans (congrArg some (Fin.mk.inj hw))⟩
  refine ⟨List.eq_nil_iff_forall_not_mem.mpr fun r hr => ?_, fun r hr => ?_⟩
  · -- what is queued is one of the loops, and it would be in two places
    have hcount : 0 < p.queue.count r := List.count_pos_iff.mpr hr
    have hcensus := h.census r
    rw [Places.census] at hcensus
    have hadded : r < p.added := by
      by_contra hle
      rw [if_neg hle] at hcensus
      omega
    obtain ⟨w, hw⟩ := hheld r (hadded.trans_le h.bound)
    have hpos : 0 < p.holders r := Finset.card_pos.mpr ⟨w, by simpa using hw⟩
    rw [if_pos hadded] at hcensus
    omega
  · obtain ⟨w, hw⟩ := hheld r hr
    exact ⟨w, hw, fun v hv => h.held_inj hv hw⟩

end Places

/-! ## The result -/

/-- What every connection and every reactor is promised. -/
structure State.GetsServed (s : State n) : Prop where
  /-- a descriptor that comes now is given to a sub reactor that is there and polled, or will be -/
  choice : s.main = .accepting → ∀ fd, ∃ r : ℕ, randChoice n fd = some (r : ℤ) ∧ r < n ∧
    (r ∈ s.taskQueue ∨ ∃ w, s.Holds w r)
  oneLoop : ∀ w r r', s.Holds w r → s.Holds w r' → r = r'
  oneWorker : ∀ r w w', s.Holds w r → s.Holds w' r → w = w'
  /-- once every worker has taken a loop, every loop is taken -/
  allTaken : (∀ w, s.worker w ≠ .idle) → s.taskQueue = [] ∧ ∀ r < n, ∃! w, s.Holds w r

/-- Whatever the number of sub reactors, it goes wrong only where there is none to choose. -/
lemma getsServed_iff_pos (hn : n < 2 ^ 31) {s : State n} (as : List (Action n))
    (hrun : (machine n).run {} as = some s) (hbenign : ∀ a ∈ as, a.Benign) :
    s.GetsServed ↔ 0 < n ∨ s.main ≠ .accepting := by
  have hplaced : s.places.WellPlaced :=
    wellPlaced_inductive.reachable ((Machine.Reachable.init rfl).run hrun)
  have hurt : ¬ s.Hurt := fun h => by
    obtain ⟨a, ha, hnot⟩ := (hurt_run_iff as (by simp [State.Hurt]) hrun).mp h
    exact hnot (hbenign a ha)
  constructor
  · intro h
    by_contra hno
    obtain ⟨hzero, hmain⟩ := not_or.mp hno
    obtain ⟨r, -, hr, -⟩ := h.choice (not_not.mp hmain) 0
    exact hzero (Nat.zero_lt_of_lt hr)
  · intro h
    refine ⟨fun hmain fd => ?_, fun w r r' hr hr' => ?_, fun r w w' => hplaced.held_inj,
      fun hall => hplaced.all_held fun w hw => hall w ?_⟩
    · have hpos : 0 < n := h.resolve_right (not_not.mpr hmain)
      refine ⟨fd % n, randChoice_eq hpos hn fd, Nat.mod_lt fd hpos, hplaced.served ?_ ?_⟩
      · rw [State.places, hmain]
        exact Nat.mod_lt fd hpos
      · rw [State.places, not_not.mp (not_or.mp hurt).1]
        exact List.not_mem_nil
    · exact Option.some.inj (hr.symm.trans hr')
    · have hloop : (s.worker w).loop = none := hw
      cases hs : s.worker w with
      | idle => rfl
      | inLoop r pc => simp [hs, Worker.loop] at hloop

/-- **When every connection gets a served reactor.**  For every number `hardware_concurrency` may
report and every run in which the loops never return: exactly if the number is neither `0` nor
negative as an `int`, or no connection is to be accepted. -/
theorem getsServed_iff (hardwareConcurrency : UInt32)
    {s : State (poolSize hardwareConcurrency)} (as : List (Action (poolSize hardwareConcurrency)))
    (hrun : (machine (poolSize hardwareConcurrency)).run {} as = some s)
    (hbenign : ∀ a ∈ as, a.Benign) :
    s.GetsServed ↔ (0 < hardwareConcurrency.toNat ∧ hardwareConcurrency.toNat < 2 ^ 31) ∨
      s.main ≠ .accepting := by
  rw [← poolSize_pos_iff]
  exact getsServed_iff_pos (poolSize_lt _) as hrun hbenign

/-- A server on one core, with a connection to be accepted. -/
def onOneCore : List (Action (poolSize 1)) := [.add, .enterLoop, .mainPoll (.ok [()])]

theorem getsServed_iff_onOneCore :
    ∃ s, (machine (poolSize 1)).run {} onOneCore = some s ∧ s.main = .accepting ∧
      s.GetsServed := by
  obtain ⟨s, hrun, hp⟩ := (Option.any_eq_true
    (fun s : State (poolSize 1) => decide (s.main = .accepting))
    ((machine (poolSize 1)).run {} onOneCore)).mp (by decide +kernel)
  refine ⟨s, hrun, of_decide_eq_true hp, (getsServed_iff 1 onOneCore hrun ?_).mpr (.inl ?_)⟩
  · simp [onOneCore, Action.Benign]
  · exact ⟨by decide, by decide⟩

/-- A server where the number of cores is not known: there is no sub reactor to choose. -/
theorem nothing_to_choose :
    ¬ ∀ (hardwareConcurrency : UInt32) (s : State (poolSize hardwareConcurrency))
      (as : List (Action (poolSize hardwareConcurrency))),
      (machine (poolSize hardwareConcurrency)).run {} as = some s → (∀ a ∈ as, a.Benign) →
      s.GetsServed := by
  intro h
  obtain ⟨s, hrun, hp⟩ := (Option.any_eq_true
    (fun s : State (poolSize 0) => decide (s.main = .accepting))
    ((machine (poolSize 0)).run {} [.enterLoop, .mainPoll (.ok [()])])).mp (by decide +kernel)
  have hserved := h 0 s _ hrun (by simp [Action.Benign])
  obtain ⟨r, hr, -⟩ := hserved.choice (of_decide_eq_true hp) 5
  rw [show randChoice (poolSize 0) 5 = none by decide +kernel] at hr
  exact absurd hr (by simp)

end CppServer.Reactors
