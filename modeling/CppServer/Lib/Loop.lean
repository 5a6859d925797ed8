import Mathlib.Logic.Function.Basic
import Mathlib.Data.List.Basic
import Mathlib.Tactic.Lemma

/-!
# Loops that ask an oracle

A loop around a system call gets one answer per iteration, and what it does next depends on that
answer.  `whileLoop guard body` runs such a loop on a *script*, the list of answers it will be
given: each iteration consumes one answer, and the loop ends when the guard fails or the body
breaks.  The script may be longer than what the loop needs (the rest is returned) or shorter:
`none` says that the loop is still waiting for its next answer.

`Comes` is the loop seen from inside: the states its iterations start in, with the part of the
script that is then still to be consumed.  The loop waits exactly where it comes to an iteration
with nothing to consume (`whileLoop_eq_none_iff`).
-/

namespace CppServer

/-- What an iteration does when its body is done. -/
inductive Control where
  | again
  | stop
  deriving DecidableEq, Repr

variable {σ ρ : Type*}

/-- The loop, on a script of answers. -/
def whileLoop (guard : σ → Bool) (body : σ → ρ → σ × Control) : σ → List ρ → Option (σ × List ρ)
  | s, [] => if guard s then none else some (s, [])
  | s, r :: rs =>
      if guard s then
        match body s r with
        | (s', .again) => whileLoop guard body s' rs
        | (s', .stop) => some (s', rs)
      else some (s, r :: rs)

variable {guard : σ → Bool} {body : σ → ρ → σ × Control}

/-- A loop whose guard fails leaves the state and the script alone. -/
lemma whileLoop_exit {s : σ} (h : guard s = false) (rs : List ρ) :
    whileLoop guard body s rs = some (s, rs) := by
  cases rs <;> simp [whileLoop, h]

lemma whileLoop_nil {s : σ} (h : guard s = true) : whileLoop guard body s [] = none := by
  simp [whileLoop, h]

lemma whileLoop_again {s s' : σ} {r : ρ} (h : guard s = true) (hb : body s r = (s', .again))
    (rs : List ρ) : whileLoop guard body s (r :: rs) = whileLoop guard body s' rs := by
  simp [whileLoop, h, hb]

lemma whileLoop_stop {s s' : σ} {r : ρ} (h : guard s = true) (hb : body s r = (s', .stop))
    (rs : List ρ) : whileLoop guard body s (r :: rs) = some (s', rs) := by
  simp [whileLoop, h, hb]

/-- The loop comes to an iteration in state `t`, with the answers `ts` to come. -/
inductive Comes (guard : σ → Bool) (body : σ → ρ → σ × Control) :
    σ → List ρ → σ → List ρ → Prop
  | here {s : σ} {rs : List ρ} : guard s = true → Comes guard body s rs s rs
  | next {s s' t : σ} {r : ρ} {rs ts : List ρ} : guard s = true → body s r = (s', .again) →
      Comes guard body s' rs t ts → Comes guard body s (r :: rs) t ts

/-- The invariant rule: what every iteration that goes on keeps holds in each of them. -/
theorem Comes.invariant {I : σ → List ρ → Prop}
    (hstep : ∀ s r rs s', guard s = true → I s (r :: rs) → body s r = (s', .again) → I s' rs)
    {s t : σ} {rs ts : List ρ} (h : Comes guard body s rs t ts) (hI : I s rs) :
    guard t = true ∧ I t ts := by
  induction h with
  | here hg => exact ⟨hg, hI⟩
  | next hg hb _ ih => exact ih (hstep _ _ _ _ hg hI hb)

/-- The loop waits exactly if it comes to an iteration that there is no answer for. -/
theorem whileLoop_eq_none_iff {s : σ} {rs : List ρ} :
    whileLoop guard body s rs = none ↔ ∃ t, Comes guard body s rs t [] := by
  induction rs generalizing s with
  | nil =>
      constructor
      · intro h
        by_cases hg : guard s = true
        · exact ⟨s, .here hg⟩
        · simp [whileLoop, hg] at h
      · rintro ⟨t, hcomes⟩
        cases hcomes with
        | here hg => exact whileLoop_nil hg
  | cons r rs ih =>
      by_cases hg : guard s = true
      · cases hb : body s r with
        | mk s' control =>
            cases control with
            | again =>
                rw [whileLoop_again hg hb, ih]
                refine exists_congr fun t => ⟨.next hg hb, fun h => ?_⟩
                cases h with
                | next _ hb' hcomes =>
                    rw [hb, Prod.mk.injEq] at hb'
                    exact hb'.1 ▸ hcomes
            | stop =>
                rw [whileLoop_stop hg hb]
                simp only [reduceCtorEq, false_iff, not_exists]
                intro t h
                cases h with
                | next _ hb' _ => simp [hb] at hb'
      · rw [whileLoop_exit (Bool.not_eq_true _ ▸ hg)]
        simp only [reduceCtorEq, false_iff, not_exists]
        intro t h
        cases h with
        | next hg' _ _ => exact hg hg'

end CppServer
