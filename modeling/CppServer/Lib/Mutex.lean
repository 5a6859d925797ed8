import Mathlib.Logic.Function.Basic
import Mathlib.Tactic.Lemma

/-!
# Mutual exclusion

A mutex is seen through the thread that owns it, if any.  `Excl inside owner` says that the
threads inside the critical section are exactly the owner.  A step moves one thread (`Moves`), and
the lemmas `enter`, `leave` and `stay` are what a lock, an unlock and any other step have to show.
-/

namespace CppServer

/-- Exactly the owner of the mutex is inside its critical section. -/
def Excl {θ : Type*} (inside : θ → Prop) (owner : Option θ) : Prop :=
  ∀ t, inside t ↔ owner = some t

/-- Only thread `t` moves, and it is inside afterwards if `now` holds. -/
structure Moves {θ : Type*} (inside inside' : θ → Prop) (t : θ) (now : Prop) : Prop where
  self : inside' t ↔ now
  others : ∀ u, u ≠ t → (inside' u ↔ inside u)

namespace Excl

variable {θ : Type*} {inside inside' : θ → Prop} {owner : Option θ} {t u : θ} {now : Prop}

lemma owner_eq (h : Excl inside owner) (ht : inside t) : owner = some t := (h t).mp ht

/-- At most one thread is inside. -/
lemma unique (h : Excl inside owner) (ht : inside t) (hu : inside u) : t = u :=
  Option.some.inj ((h.owner_eq ht).symm.trans (h.owner_eq hu))

/-- A step that leaves everybody where they are. -/
lemma congr (h : Excl inside owner) (hsame : ∀ u, inside' u ↔ inside u) : Excl inside' owner :=
  fun u => (hsame u).trans (h u)

/-- A lock: the mutex was free, and `t` comes in. -/
lemma enter (h : Excl inside none) (hm : Moves inside inside' t now) (hnow : now) :
    Excl inside' (some t) := by
  intro u
  by_cases hu : u = t
  · subst hu
    simp [hm.self, hnow]
  · rw [hm.others u hu, h u]
    simp [Ne.symm hu]

/-- An unlock: `t` was inside and goes out. -/
lemma leave (h : Excl inside owner) (ht : inside t) (hm : Moves inside inside' t now)
    (hnow : ¬ now) : Excl inside' none := by
  intro u
  by_cases hu : u = t
  · subst hu
    simp [hm.self, hnow]
  · rw [hm.others u hu]
    simp only [reduceCtorEq, iff_false]
    exact fun hin => hu (h.unique hin ht)

/-- Any other step of `t`: it stays on its side. -/
lemma stay (h : Excl inside owner) (hm : Moves inside inside' t now) (hnow : now ↔ inside t) :
    Excl inside' owner := by
  refine h.congr fun u => ?_
  by_cases hu : u = t
  · subst hu
    exact hm.self.trans hnow
  · exact hm.others u hu

end Excl

end CppServer
