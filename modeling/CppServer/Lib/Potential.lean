import Mathlib
import CppServer.Lib.Machine

/-!
# Runs that come to an end

A *potential* pays for the steps of a machine: each step lowers it by one at least, except for the
credit that the action brings along.  The steps of the environment bring credit, those of the
program itself do not; so between two steps of the environment the program takes finitely many.

* `Potential.length_le` — how long a run may be.
* `Potential.exists_settled` — from every state the program comes to one in which it has nothing
  left to do.
* `restrict` — the machine without some of its actions, for a potential that does not pay for all.
* `sum_moved` — the potential of many parties, of which one moves.
-/

namespace CppServer

namespace Machine

variable {σ α : Type*}

/-- In the states with `I` each step is paid for. -/
structure Potential (m : Machine σ α) (I : σ → Prop) (credit : α → ℕ) (Φ : σ → ℕ) : Prop where
  invariant : ∀ s a s', I s → m.step s a = some s' → I s'
  pays : ∀ s a s', I s → m.step s a = some s' → Φ s' + 1 ≤ Φ s + credit a

variable {m : Machine σ α} {I : σ → Prop} {credit : α → ℕ} {Φ : σ → ℕ}

/-- **The potential pays for every step of a run**: by induction on its actions. -/
theorem Potential.length_le (h : m.Potential I credit Φ) :
    ∀ (as : List α) {s s' : σ}, I s → m.run s as = some s' →
      as.length + Φ s' ≤ Φ s + (as.map credit).sum := by
  intro as
  induction as with
  | nil =>
      intro s s' _ hr
      rw [run_nil, Option.some.injEq] at hr
      simp [hr]
  | cons a as ih =>
      intro s s' hs hr
      obtain ⟨t, hst, hrun⟩ := run_cons_eq_some.mp hr
      have hstep := h.pays s a t hs hst
      have hrest := ih (h.invariant s a t hs hst) hrun
      rw [List.length_cons, List.map_cons, List.sum_cons]
      omega

/-- **The program settles**, if nobody disturbs it: by induction on the potential. -/
theorem Potential.exists_settled (h : m.Potential I credit Φ) {P : α → Prop}
    (hP : ∀ a, P a → credit a = 0) :
    ∀ (k : ℕ) {s : σ}, Φ s ≤ k → I s →
      ∃ as s', (∀ a ∈ as, P a) ∧ m.run s as = some s' ∧ ¬ m.CanStep P s' := by
  intro k
  induction k with
  | zero =>
      intro s hk hs
      refine ⟨[], s, by simp, rfl, ?_⟩
      rintro ⟨a, ha, hen⟩
      obtain ⟨t, hst⟩ := Option.isSome_iff_exists.mp hen
      have hstep := h.pays s a t hs hst
      have hcredit := hP a ha
      omega
  | succ k ih =>
      intro s hk hs
      by_cases hcan : m.CanStep P s
      · obtain ⟨a, ha, hen⟩ := hcan
        obtain ⟨t, hst⟩ := Option.isSome_iff_exists.mp hen
        have hstep := h.pays s a t hs hst
        have hcredit := hP a ha
        obtain ⟨as, s', hall, hrun, hend⟩ := ih (by omega) (h.invariant s a t hs hst)
        refine ⟨a :: as, s', ?_, run_cons_eq_some.mpr ⟨t, hst, hrun⟩, hend⟩
        intro b hb
        rcases List.mem_cons.mp hb with hb | hb
        · rw [hb]
          exact ha
        · exact hall b hb
      · exact ⟨[], s, by simp, rfl, hcan⟩

/-! ## Some of the actions only -/

section Restrict

variable {P : α → Prop} [DecidablePred P]

/-- The machine without the other actions. -/
def restrict (m : Machine σ α) (P : α → Prop) [DecidablePred P] : Machine σ α where
  Init := m.Init
  step s a := if P a then m.step s a else none

lemma restrict_step_eq_some {s s' : σ} {a : α} :
    (m.restrict P).step s a = some s' ↔ P a ∧ m.step s a = some s' := by
  simp [restrict]

/-- Its runs are the runs that keep to the actions. -/
theorem restrict_run_eq_some {s' : σ} :
    ∀ {s : σ} (as : List α),
      (m.restrict P).run s as = some s' ↔ (∀ a ∈ as, P a) ∧ m.run s as = some s' := by
  intro s as
  induction as generalizing s with
  | nil => simp
  | cons a as ih =>
      simp only [run_cons_eq_some, restrict_step_eq_some, ih, List.forall_mem_cons]
      constructor
      · rintro ⟨t, ⟨ha, hst⟩, hall, hrun⟩
        exact ⟨⟨ha, hall⟩, t, hst, hrun⟩
      · rintro ⟨⟨ha, hall⟩, t, hst, hrun⟩
        exact ⟨t, ⟨ha, hst⟩, hall, hrun⟩

end Restrict

end Machine

/-! ## Many parties -/

open Function (update update_self update_of_ne)

variable {β δ : Type*}

/-- What one of the parties has changes. -/
theorem sum_others [DecidableEq β] {S : Finset β} {b : β} (hb : b ∈ S) {f f' : β → ℕ}
    (h : ∀ i, i ≠ b → f' i = f i) : ∑ i ∈ S, f' i + f b = ∑ i ∈ S, f i + f' b := by
  have hothers : ∑ i ∈ S.erase b, f' i = ∑ i ∈ S.erase b, f i := by
    refine Finset.sum_congr rfl ?_
    intro i hi
    exact h i (Finset.ne_of_mem_erase hi)
  have hafter := Finset.add_sum_erase S f' hb
  have hbefore := Finset.add_sum_erase S f hb
  omega

/-- One of the parties moves. -/
theorem sum_moved [DecidableEq β] {S : Finset β} {b : β} (hb : b ∈ S) (f : β → δ) (g : δ → ℕ)
    (x : δ) : ∑ i ∈ S, g (update f b x i) + g (f b) = ∑ i ∈ S, g (f i) + g x := by
  have hothers : ∀ i, i ≠ b → (fun i => g (update f b x i)) i = (fun i => g (f i)) i := by
    intro i hi
    simp only [update_of_ne hi]
  simpa using sum_others hb hothers

/-- Each party may gain, by a bounded amount. -/
theorem sum_le_add_card {S : Finset β} {f f' : β → ℕ} {k : ℕ} (h : ∀ i ∈ S, f' i ≤ f i + k) :
    ∑ i ∈ S, f' i ≤ ∑ i ∈ S, f i + S.card * k := by
  calc ∑ i ∈ S, f' i ≤ ∑ i ∈ S, (f i + k) := Finset.sum_le_sum h
    _ = ∑ i ∈ S, f i + S.card * k := by
        rw [Finset.sum_add_distrib, Finset.sum_const, Nat.nsmul_eq_mul]

end CppServer
