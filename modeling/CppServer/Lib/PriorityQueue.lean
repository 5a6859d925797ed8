import Mathlib.Data.List.Sort
import Mathlib.Order.Defs.Unbundled

/-!
# Priority queues

`std::priority_queue` with the comparator `less`: the top is an element below no other one, and
`pop` removes it.  A queue is kept as the list of its elements in the order in which popping takes
them off, and carries the proof that this is an order from the greatest downwards.  Among elements
that are equal to the comparator the standard leaves the order open; here the last one comes first.

* `pairwise_drain_push` — the order of a queue that is not its comparator's: whether popping also
  goes by another relation is decided element by element, when it is pushed.
-/

namespace CppServer

/-- `std::priority_queue<α, …, less>` -/
structure PriorityQueue (α : Type*) (less : α → α → Prop) where
  elems : List α
  sorted : elems.Pairwise fun a b => ¬ less a b

namespace PriorityQueue

variable {α : Type*} {less : α → α → Prop}

instance : Membership α (PriorityQueue α less) := ⟨fun q x => x ∈ q.elems⟩

lemma mem_def {q : PriorityQueue α less} {x : α} : x ∈ q ↔ x ∈ q.elems := Iff.rfl

/-- The queue a constructor makes. -/
def empty : PriorityQueue α less := ⟨[], .nil⟩

/-- `top()`, where there is one. -/
def top (q : PriorityQueue α less) : Option α := q.elems.head?

/-- `pop()` -/
def pop (q : PriorityQueue α less) : PriorityQueue α less := ⟨q.elems.tail, q.sorted.tail⟩

/-- The tops one sees if one pops until the queue is empty. -/
def drain (q : PriorityQueue α less) : List α :=
  match _h : q.top with
  | none => []
  | some x => x :: q.pop.drain
termination_by q.elems.length
decreasing_by
  cases hq : q.elems with
  | nil => simp [top, hq] at _h
  | cons y ys => simp [pop, hq]

/-- Draining goes through the elements in order.  By induction on how many there are. -/
lemma drain_eq (q : PriorityQueue α less) : q.drain = q.elems := by
  obtain ⟨l, hl⟩ := q
  induction l with
  | nil => rw [drain]; rfl
  | cons x l ih =>
      rw [drain]
      exact congrArg (x :: ·) (ih hl.tail)

/-- The top comes first. -/
lemma top_of_drain {q : PriorityQueue α less} {D : α → α → Prop} (h : q.drain.Pairwise D) {x : α}
    (hx : q.top = some x) : ∀ y ∈ q, y = x ∨ D x y := by
  rw [drain_eq] at h
  intro y hy
  obtain ⟨l, hl⟩ := List.head?_eq_some_iff.mp hx
  rw [mem_def, hl, List.mem_cons] at hy
  rw [hl, List.pairwise_cons] at h
  exact hy.imp_right (h.1 y)

section Push

variable [IsStrictWeakOrder α less]

/-- An element below another one is not above it. -/
instance total_not_less : Std.Total fun a b : α => ¬ less a b where
  total a b := by
    by_contra h
    push Not at h
    exact asymm_of less h.1 h.2

/-- What is not below is transitive, in a strict weak order. -/
instance trans_not_less : IsTrans α fun a b => ¬ less a b where
  trans a b c hab hbc hac := by
    by_cases hba : less b a
    · exact hbc (trans_of less hba hac)
    · by_cases hcb : less c b
      · exact hab (trans_of less hac hcb)
      · exact (IsStrictWeakOrder.incomp_trans a b c ⟨hab, hba⟩ ⟨hbc, hcb⟩).1 hac

variable [DecidableRel less]

/-- `push(x)` -/
def push (q : PriorityQueue α less) (x : α) : PriorityQueue α less where
  elems := q.elems.orderedInsert (fun a b => ¬ less a b) x
  sorted := q.sorted.orderedInsert x

lemma mem_push {q : PriorityQueue α less} {x y : α} : y ∈ q.push x ↔ y = x ∨ y ∈ q :=
  List.mem_orderedInsert _

/-- **What a push does to the order of popping.**  The new element comes behind those above it and
before the others, so popping goes by `D` if it did before, and `D` agrees with that place. -/
theorem pairwise_drain_push {D : α → α → Prop} {q : PriorityQueue α less} {x : α} :
    (q.push x).drain.Pairwise D ↔
      q.drain.Pairwise D ∧ ∀ y ∈ q, (less x y → D y x) ∧ (¬ less x y → D x y) := by
  rw [drain_eq, drain_eq]
  obtain ⟨l, hl⟩ := q
  simp only [push, mem_def]
  induction l with
  | nil => simp
  | cons z l ih =>
      have hz : ∀ y ∈ l, ¬ less z y := (List.pairwise_cons.mp hl).1
      by_cases hxz : less x z
      · have hnot : ¬ ¬ less x z := not_not_intro hxz
        rw [List.orderedInsert_of_not_le _ _ hnot, List.pairwise_cons, ih hl.tail,
          List.pairwise_cons]
        simp only [List.mem_orderedInsert, List.forall_mem_cons, forall_eq_or_imp, hxz,
          forall_const, not_true, IsEmpty.forall_iff, and_true]
        tauto
      · -- behind `z` there is nothing above `x` either
        have hx : ∀ y ∈ l, ¬ less x y := fun y hy =>
          trans_of (fun a b => ¬ less a b) hxz (hz y hy)
        rw [List.orderedInsert_cons_of_le _ _ hxz, List.pairwise_cons]
        simp only [List.forall_mem_cons, hxz, IsEmpty.forall_iff, true_and, not_false_iff,
          forall_const]
        have hl' : (∀ y ∈ l, (less x y → D y x) ∧ (¬ less x y → D x y)) ↔ ∀ y ∈ l, D x y :=
          forall₂_congr fun y hy => by simp [hx y hy]
        rw [hl', and_comm]

end Push

end PriorityQueue

end CppServer
