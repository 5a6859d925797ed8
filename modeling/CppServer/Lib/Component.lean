import CppServer.Lib.Machine

/-!
# The components of a machine

Where a machine is made of others that take turns, each of its steps is a step of one of them, or
of none.  `Component` says so for one of them, with what its steps have in common there; then
everything that is known of the component alone holds of it inside the machine.

* `Component.reachable` — a reachable state shows a reachable state of the component.
* `Component.run` — a run shows a run of the component.
-/

namespace CppServer

namespace Machine

variable {σ α τ β : Type*}

/-- `view` shows the component `m'` of `m`: a step of `m` with `P` is a step of `m'` with `Q`, or
nothing that concerns it. -/
structure Component (m : Machine σ α) (m' : Machine τ β) (view : σ → τ) (P : σ → α → Prop)
    (Q : τ → β → Prop) : Prop where
  init : ∀ s, m.Init s → m'.Init (view s)
  step : ∀ s a s', m.Reachable s → P s a → m.step s a = some s' →
    view s' = view s ∨ ∃ b, m'.step (view s) b = some (view s') ∧ Q (view s) b

variable {m : Machine σ α} {m' : Machine τ β} {view : σ → τ} {P : σ → α → Prop}
  {Q : τ → β → Prop} {s s' : σ}

/-- **A run shows a run of the component**: by induction on its actions. -/
theorem Component.run (h : m.Component m' view P Q) :
    ∀ {s s' : σ} (as : List α), m.Reachable s → m.Along P s as → m.run s as = some s' →
      ∃ bs, m'.run (view s) bs = some (view s') ∧ m'.Along Q (view s) bs := by
  intro s s' as
  induction as generalizing s with
  | nil =>
      intro _ _ hr
      rw [run_nil, Option.some.injEq] at hr
      exact ⟨[], by rw [hr, run_nil], trivial⟩
  | cons a as ih =>
      intro hs hP hr
      obtain ⟨t, hst, hrun⟩ := run_cons_eq_some.mp hr
      obtain ⟨bs, hbs, hQ⟩ := ih (hs.step hst) (hP.2 t hst) hrun
      rcases h.step s a t hs hP.1 hst with hsame | ⟨b, hb, hQb⟩
      · exact ⟨bs, by rw [← hsame, hbs], by rwa [← hsame]⟩
      · exact ⟨b :: bs, run_cons_eq_some.mpr ⟨view t, hb, hbs⟩, (along_cons hb bs).mpr ⟨hQb, hQ⟩⟩

/-- A reachable state shows a reachable state of the component. -/
theorem Component.reachable (h : m.Component m' view (fun _ _ => True) Q) (hs : m.Reachable s) :
    m'.Reachable (view s) := by
  induction hs with
  | init hi => exact .init (h.init _ hi)
  | step hs hst ih =>
      rcases h.step _ _ _ hs trivial hst with hsame | ⟨b, hb, -⟩
      · exact hsame ▸ ih
      · exact ih.step hb

end Machine

end CppServer
