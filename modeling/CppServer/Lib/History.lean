import Mathlib.Data.List.Basic
import Mathlib.Data.List.Nodup
import Mathlib.Tactic.Lemma

/-!
# Histories of several parties

A history is a list of entries in the order they happened, each tagged with the party it belongs
to.  `part k h` is what party `k` did, in its own order.
-/

namespace CppServer

variable {κ α : Type*} [DecidableEq κ]

/-- The part of party `k` in a history. -/
def part (k : κ) (h : List (κ × α)) : List α := (h.filter fun p => p.1 = k).map Prod.snd

@[simp] lemma part_nil (k : κ) : part k ([] : List (κ × α)) = [] := rfl

lemma part_append_self (k : κ) (h : List (κ × α)) (x : α) :
    part k (h ++ [(k, x)]) = part k h ++ [x] := by
  simp [part]

lemma part_append_of_ne {j k : κ} (hjk : j ≠ k) (h : List (κ × α)) (x : α) :
    part k (h ++ [(j, x)]) = part k h := by
  simp [part, hjk]

lemma part_append (k : κ) (h₁ h₂ : List (κ × α)) : part k (h₁ ++ h₂) = part k h₁ ++ part k h₂ := by
  simp [part]

lemma part_map_self (k : κ) (xs : List α) : part k (xs.map fun x => (k, x)) = xs := by
  induction xs with
  | nil => rfl
  | cons x xs ih => simpa [part] using ih

lemma part_map_of_ne {j k : κ} (hjk : j ≠ k) (xs : List α) :
    part k (xs.map fun x => (j, x)) = [] := by
  simp [part, hjk]

@[simp] lemma mem_part {k : κ} {x : α} {h : List (κ × α)} : x ∈ part k h ↔ (k, x) ∈ h := by
  simp [part]

lemma part_sublist (k : κ) (h : List (κ × α)) : (part k h).Sublist (h.map Prod.snd) :=
  List.filter_sublist.map _

/-- A history repeats nothing if no party's part of it does. -/
lemma nodup_of_part {h : List (κ × α)} (hk : ∀ k, (part k h).Nodup) : h.Nodup := by
  induction h with
  | nil => exact List.nodup_nil
  | cons p h ih =>
      have hp := hk p.1
      simp only [part, List.filter_cons, decide_true, if_true, List.map_cons,
        List.nodup_cons] at hp
      refine List.nodup_cons.mpr ⟨fun hmem => hp.1 (mem_part.mpr hmem), ih fun k => ?_⟩
      exact (hk k).sublist (((List.sublist_cons_self p h).filter _).map _)

/-- A prefix that does not contain the entry behind `before` ends within `before`. -/
lemma prefix_before {l before after : List α} {x : α} (h : l <+: before ++ x :: after)
    (hx : x ∉ l) : l <+: before := by
  refine List.prefix_of_prefix_length_le h (List.prefix_append _ _) (Nat.not_lt.mp fun hlt => hx ?_)
  have hlong : before ++ [x] <+: before ++ x :: after := by simp
  have hlen : (before ++ [x]).length ≤ l.length := by
    rw [List.length_append, List.length_singleton]
    exact hlt
  exact (List.prefix_of_prefix_length_le hlong h hlen).subset (by simp)

end CppServer
