import Mathlib.Data.Nat.Notation
import Mathlib.Logic.Function.Basic
import Mathlib.Tactic.Lemma

/-!
# Objects behind reference counts

A table of objects, each with the number of references to it.  The reference that goes last takes
its object with it.

`Exact` relates the counts to the holders a program really has: then an object is there exactly as
long as somebody holds it (`Exact.isSome_iff`), and the three operations keep this when the
holders follow them (`Exact.create`, `Exact.retain`, `Exact.release`).
-/

namespace CppServer

/-- An object and the number of references to it. -/
structure Counted (ω : Type*) where
  val : ω
  refs : ℕ
  deriving DecidableEq, Repr

namespace RefCount

open Function (update update_self update_of_ne)

/-- The objects that exist. -/
abbrev Table (κ ω : Type*) := κ → Option (Counted ω)

variable {κ ω : Type*} [DecidableEq κ] {t : Table κ ω} {k j : κ}

/-- A new object, with one reference. -/
def create (t : Table κ ω) (k : κ) (v : ω) : Table κ ω := update t k (some ⟨v, 1⟩)

/-- One more reference. -/
def retain (t : Table κ ω) (k : κ) : Table κ ω :=
  update t k ((t k).map fun c => { c with refs := c.refs + 1 })

/-- One reference less. -/
def release (t : Table κ ω) (k : κ) : Table κ ω :=
  update t k ((t k).bind fun c => if c.refs ≤ 1 then none else some { c with refs := c.refs - 1 })

/-- The object changes, and the references to it stay. -/
def modify (f : ω → ω) (t : Table κ ω) (k : κ) : Table κ ω :=
  update t k ((t k).map fun c => { c with val := f c.val })

/-- The object that goes if one reference to `k` does. -/
def dropped (t : Table κ ω) (k : κ) : Option ω :=
  (t k).bind fun c => if c.refs ≤ 1 then some c.val else none

@[simp] lemma create_self (t : Table κ ω) (k : κ) (v : ω) : create t k v k = some ⟨v, 1⟩ :=
  update_self _ _ _

@[simp] lemma create_of_ne (h : j ≠ k) (v : ω) : create t k v j = t j := update_of_ne h _ _

@[simp] lemma retain_of_ne (h : j ≠ k) : retain t k j = t j := update_of_ne h _ _

@[simp] lemma release_of_ne (h : j ≠ k) : release t k j = t j := update_of_ne h _ _

/-- What remains after a release was there before it, and is the same object. -/
lemma release_eq_some {c : Counted ω} (h : release t k j = some c) :
    ∃ c', t j = some c' ∧ c'.val = c.val := by
  by_cases hj : j = k
  · subst hj
    rw [release, update_self, Option.bind_eq_some_iff] at h
    obtain ⟨c', hc', h⟩ := h
    split at h
    · simp at h
    · rw [Option.some.injEq] at h
      exact ⟨c', hc', by rw [← h]⟩
  · rw [release_of_ne hj] at h
    exact ⟨c, h, rfl⟩

lemma retain_eq_some {c : Counted ω} (h : retain t k j = some c) :
    ∃ c', t j = some c' ∧ c'.val = c.val := by
  by_cases hj : j = k
  · subst hj
    rw [retain, update_self, Option.map_eq_some_iff] at h
    obtain ⟨c', hc', h⟩ := h
    exact ⟨c', hc', by rw [← h]⟩
  · rw [retain_of_ne hj] at h
    exact ⟨c, h, rfl⟩

lemma retain_isSome : (retain t k j).isSome = (t j).isSome := by
  by_cases hj : j = k
  · subst hj
    simp [retain]
  · rw [retain_of_ne hj]

lemma retain_of_none (h : t j = none) : retain t k j = none := by
  rw [← Option.not_isSome_iff_eq_none, retain_isSome, h]
  simp

lemma release_of_none (h : t j = none) : release t k j = none := by
  cases hr : release t k j with
  | none => rfl
  | some c =>
      obtain ⟨c', hc', -⟩ := release_eq_some hr
      rw [h] at hc'
      simp at hc'

lemma modify_isSome (f : ω → ω) : (modify f t k j).isSome = (t j).isSome := by
  by_cases hj : j = k
  · subst hj
    simp [modify]
  · rw [modify, update_of_ne hj]

lemma create_isSome (v : ω) (h : (t j).isSome) : (create t k v j).isSome := by
  by_cases hj : j = k
  · subst hj
    simp
  · rwa [create_of_ne hj]

/-- An object that is not dropped stays. -/
lemma release_of_dropped_none {c : Counted ω} (h : t k = some c) (hd : dropped t k = none) :
    release t k k = some { c with refs := c.refs - 1 } := by
  simp only [dropped, h, Option.bind_some] at hd
  rw [release, update_self, h, Option.bind_some]
  split at hd
  · simp at hd
  · rename_i hc
    rw [if_neg hc]

lemma release_of_dropped_some {v : ω} (hd : dropped t k = some v) : release t k k = none := by
  rw [dropped, Option.bind_eq_some_iff] at hd
  obtain ⟨c, hc, hd⟩ := hd
  rw [release, update_self, hc, Option.bind_some]
  split at hd
  · rename_i hle
    rw [if_pos hle]
  · simp at hd

omit [DecidableEq κ] in
lemma eq_some_of_dropped {v : ω} (hd : dropped t k = some v) : ∃ c, t k = some c ∧ c.val = v := by
  rw [dropped, Option.bind_eq_some_iff] at hd
  obtain ⟨c, hc, hd⟩ := hd
  split at hd
  · exact ⟨c, hc, by simpa using hd⟩
  · simp at hd

/-! ## Counts and holders -/

/-- Every object is counted as often as it is held, and none is there without a reference. -/
structure Exact (t : Table κ ω) (holders : κ → ℕ) : Prop where
  refs : ∀ k, (t k).elim 0 Counted.refs = holders k
  pos : ∀ k c, t k = some c → 0 < c.refs

variable {holders : κ → ℕ}

omit [DecidableEq κ] in
/-- An object exists exactly as long as somebody holds it. -/
theorem Exact.isSome_iff (h : Exact t holders) : (t k).isSome ↔ 0 < holders k := by
  have hrefs := h.refs k
  cases hk : t k with
  | none =>
      rw [hk] at hrefs
      simp [← hrefs]
  | some c =>
      have hpos := h.pos k c hk
      rw [hk] at hrefs
      simpa [← hrefs] using hpos

theorem Exact.create (h : Exact t holders) (v : ω) :
    Exact (create t k v) (update holders k 1) where
  refs j := by
    by_cases hj : j = k
    · subst hj
      simp
    · rw [create_of_ne hj, update_of_ne hj, h.refs]
  pos j c hc := by
    by_cases hj : j = k
    · subst hj
      rw [create_self, Option.some.injEq] at hc
      rw [← hc]
      exact Nat.one_pos
    · rw [create_of_ne hj] at hc
      exact h.pos j c hc

theorem Exact.retain (h : Exact t holders) (hk : (t k).isSome) :
    Exact (retain t k) (update holders k (holders k + 1)) where
  refs j := by
    by_cases hj : j = k
    · subst hj
      obtain ⟨c, hc⟩ := Option.isSome_iff_exists.mp hk
      have hrefs := h.refs j
      rw [hc] at hrefs
      simp [RefCount.retain, hc, ← hrefs]
    · rw [retain_of_ne hj, update_of_ne hj, h.refs]
  pos j c hc := by
    by_cases hj : j = k
    · subst hj
      simp only [RefCount.retain, update_self, Option.map_eq_some_iff] at hc
      obtain ⟨c', -, rfl⟩ := hc
      exact Nat.succ_pos _
    · rw [retain_of_ne hj] at hc
      exact h.pos j c hc

theorem Exact.modify (h : Exact t holders) (f : ω → ω) : Exact (modify f t k) holders where
  refs j := by
    by_cases hj : j = k
    · subst hj
      rw [← h.refs j, RefCount.modify, update_self]
      cases t j <;> rfl
    · rw [RefCount.modify, update_of_ne hj, h.refs]
  pos j c hc := by
    by_cases hj : j = k
    · subst hj
      simp only [RefCount.modify, update_self, Option.map_eq_some_iff] at hc
      obtain ⟨c', hc', rfl⟩ := hc
      exact h.pos j c' hc'
    · rw [RefCount.modify, update_of_ne hj] at hc
      exact h.pos j c hc

theorem Exact.release (h : Exact t holders) :
    Exact (release t k) (update holders k (holders k - 1)) where
  refs j := by
    by_cases hj : j = k
    · subst hj
      have hrefs := h.refs j
      cases hc : t j with
      | none =>
          rw [hc] at hrefs
          simp [RefCount.release, hc, ← hrefs]
      | some c =>
          have hpos := h.pos j c hc
          rw [hc] at hrefs
          simp only [Option.elim] at hrefs
          simp only [RefCount.release, update_self, hc, Option.bind_some, ← hrefs]
          split
          · simp only [Option.elim]
            omega
          · rfl
    · rw [release_of_ne hj, update_of_ne hj, h.refs]
  pos j c hc := by
    by_cases hj : j = k
    · subst hj
      rw [RefCount.release, update_self, Option.bind_eq_some_iff] at hc
      obtain ⟨c', -, hc⟩ := hc
      split at hc
      · simp at hc
      · rw [Option.some.injEq] at hc
        rw [← hc]
        show 0 < c'.refs - 1
        omega
    · rw [release_of_ne hj] at hc
      exact h.pos j c hc

/-- The last holder takes the object with it. -/
theorem Exact.release_isSome (h : Exact t holders) :
    (RefCount.release t k k).isSome ↔ 1 < holders k := by
  rw [h.release.isSome_iff, update_self]
  omega

end RefCount

end CppServer
