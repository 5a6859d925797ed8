import CppServer.Server.RegistryCoherence

/-!
# The balance of the descriptor table

Which descriptors are open after a run of accepts and deletions (`open_iff`): those that were open
before, those of `connections_`, and for every accept one more.  The constructor of `Connection`
starts with `std::make_unique<Socket>()`, whose `socket()` opens a descriptor; `SetFd` then
overwrites it, and no destructor ever gets to see it.
-/

namespace CppServer.Registry

open Descriptors (Owner)
open Function (update update_self update_of_ne)

/-- The descriptor an accept opens that nobody will close. -/
def Action.leaked : Action → Option ℕ
  | .newConnection fd none => some fd
  | .newConnection _ (some g) => some g
  | _ => none

/-- What a descriptor is open for, if not for a connection. -/
def Owner.Stays : Owner → Prop
  | .connection _ => False
  | .leaked => True
  | .other => True

variable {n : ℕ} {s : State} {a : Action}

/-! ## One step -/

/-- A connection takes no descriptor along but its own. -/
lemma release_stays (h : Kernel n s) (k fd : ℕ) {x : Owner} (hx : Owner.Stays x) :
    (s.release k).table fd = some x ↔ s.table fd = some x := by
  rcases h.release_eq k with ⟨c, hc, -, heq⟩ | ⟨-, heq⟩
  · rw [heq]
    simp only [State.close]
    by_cases hfd : fd = c.val.sockFd
    · subst hfd
      rw [update_self, (h.live k c hc).owner]
      refine iff_of_false (by simp) ?_
      rintro ⟨rfl⟩
      exact hx
    · rw [update_of_ne hfd]
  · rw [heq]

/-- What a step does to the descriptors no connection owns: an accept adds one. -/
lemma stays_step (h : Inv n s) (hg : guard n s a) (fd : ℕ) {x : Owner} (hx : Owner.Stays x) :
    (effect n s a).table fd = some x ↔
      s.table fd = some x ∨ (a.leaked = some fd ∧ x = .leaked) := by
  cases a with
  | newConnection fd' g =>
      obtain ⟨-, hfd, hfree⟩ := hg
      cases g with
      | none =>
          simp only [effect, State.newConnection, Action.leaked]
          by_cases hf : fd = fd'
          · subst hf
            simp [hfd, eq_comm]
          · simp [update_of_ne hf, Ne.symm hf]
      | some g =>
          obtain ⟨hg, hne⟩ := hfree g rfl
          simp only [effect, h.newConnection_eq hfd, Action.leaked]
          by_cases hfg : fd = g
          · subst hfg
            simp [hg, eq_comm]
          · rw [update_of_ne hfg]
            by_cases hf : fd = fd'
            · subst hf
              rw [update_self, hfd]
              refine iff_of_false ?_ (by simp [Ne.symm hfg])
              rintro ⟨rfl⟩
              exact hx
            · rw [update_of_ne hf]
              simp [Ne.symm hfg]
  | deleteConnection y =>
      have hsame : (s.deleteConnection y).table fd = some x ↔ s.table fd = some x := by
        unfold State.deleteConnection State.erase
        split
        · cases hy : s.connections y with
          | none => exact Iff.rfl
          | some k =>
              exact release_stays (s := { s with connections := update s.connections y none })
                ⟨h.live, h.owner, h.watched, h.sub, h.unborn, h.legal⟩ k fd hx
        · exact Iff.rfl
      simpa [effect, Action.leaked] using hsame
  | retain k => simp [effect, Action.leaked]
  | drop k =>
      have hsame := release_stays
        (s := { s with retained := update s.retained k (s.retained k - 1) })
        ⟨h.live, h.owner, h.watched, h.sub, h.unborn, h.legal⟩ k fd hx
      simpa [effect, Action.leaked] using hsame

/-! ## A run -/

/-- What no connection owns at the end: what was there before, and what the accepts leaked. -/
lemma stays_run (fd : ℕ) {x : Owner} (hx : Owner.Stays x) :
    ∀ {s s' : State} (as : List Action), Inv n s → (machine n).run s as = some s' →
      (s'.table fd = some x ↔
        s.table fd = some x ∨ ((∃ a ∈ as, a.leaked = some fd) ∧ x = .leaked))
  | s, s', [], _, hr => by
      rw [Machine.run_nil, Option.some.injEq] at hr
      simp [hr]
  | s, s', a :: as, h, hr => by
      obtain ⟨t, hst, hrun⟩ := Machine.run_cons_eq_some.mp hr
      obtain ⟨hg, rfl⟩ := Machine.guarded_step_eq_some.mp hst
      rw [stays_run fd hx as (inv_step h hg) hrun, stays_step h hg fd hx]
      simp only [List.exists_mem_cons_iff, or_and_right, or_assoc]

/-- What an accept leaks was not open before the run. -/
lemma leaked_was_free {fd : ℕ} {x : Owner} (hx : Owner.Stays x) :
    ∀ {s s' : State} (as : List Action), Inv n s → (machine n).run s as = some s' →
      (∃ a ∈ as, a.leaked = some fd) → s.table fd ≠ some x
  | s, s', a :: as, h, hr, hleak => by
      obtain ⟨t, hst, hrun⟩ := Machine.run_cons_eq_some.mp hr
      obtain ⟨hg, rfl⟩ := Machine.guarded_step_eq_some.mp hst
      obtain ⟨b, hb, hleak⟩ := hleak
      rcases List.mem_cons.mp hb with rfl | hb
      · -- the kernel returns free descriptors only
        intro htable
        cases b with
        | newConnection fd' g =>
            obtain ⟨-, hfd, hfree⟩ := hg
            cases g with
            | none =>
                simp only [Action.leaked, Option.some.injEq] at hleak
                rw [← hleak, hfd] at htable
                simp at htable
            | some g =>
                simp only [Action.leaked, Option.some.injEq] at hleak
                rw [← hleak, (hfree g rfl).1] at htable
                simp at htable
        | _ => simp [Action.leaked] at hleak
      · have hlater := leaked_was_free hx as (inv_step h hg) hrun ⟨b, hb, hleak⟩
        exact fun htable => hlater ((stays_step h hg fd hx).mpr (.inl htable))

/-! ## The result -/

/-- The open descriptors are those from before, and those of `connections_`. -/
def Balanced (s₀ s : State) : Prop :=
  ∀ fd : ℕ, s.table fd ≠ none ↔ s₀.table fd ≠ none ∨ s.connections fd ≠ none

/-- No shared pointer to a deleted connection is retained. -/
def NoneRetained (s : State) : Prop := ∀ k, 0 < s.retained k → ∃ x, s.connections x = some k

/-- A descriptor is open for a connection exactly if it is registered. -/
lemma Inv.connection_iff (h : Inv n s) (hret : NoneRetained s) (fd : ℕ) :
    (∃ k, s.table fd = some (.connection k)) ↔ s.connections fd ≠ none := by
  constructor
  · rintro ⟨k, hk⟩
    obtain ⟨c, hc, hfd⟩ := h.owner fd k hk
    have hreg : ∃ x, s.connections x = some k := by
      rcases h.isSome_iff.mp (by rw [hc]; rfl) with hx | hpos
      · exact hx
      · exact hret k hpos
    obtain ⟨x, hx⟩ := hreg
    rw [← hfd, ← h.registered x k hx c hc, hx]
    simp
  · intro hne
    obtain ⟨k, hk⟩ := Option.ne_none_iff_exists'.mp hne
    obtain ⟨c, hc⟩ := h.exists_object hk
    have hfd : fd = c.val.sockFd := Int.ofNat.inj (h.registered fd k hk c hc)
    exact ⟨k, by rw [hfd, (h.live k c hc).owner]⟩

/-- **The balance.**  Every accept leaves one descriptor behind for good. -/
theorem open_iff {s₀ : State} (h₀ : Started s₀) (as : List Action)
    (hrun : (machine n).run s₀ as = some s) (hret : NoneRetained s) (fd : ℕ) :
    s.table fd ≠ none ↔
      s₀.table fd ≠ none ∨ s.connections fd ≠ none ∨ ∃ a ∈ as, a.leaked = some fd := by
  have h : Inv n s := inv_inductive.reachable ((Machine.Reachable.init h₀).run hrun)
  have hother := stays_run fd (x := .other) trivial as (inv_init h₀) hrun
  have hleaked := stays_run fd (x := .leaked) trivial as (inv_init h₀) hrun
  rw [← h.connection_iff hret]
  constructor
  · intro hne
    obtain ⟨x, hx⟩ := Option.ne_none_iff_exists'.mp hne
    cases x with
    | connection k => exact .inr (.inl ⟨k, hx⟩)
    | leaked =>
        rcases hleaked.mp hx with hold | hnew
        · exact .inl (by rw [hold]; simp)
        · exact .inr (.inr hnew.1)
    | other =>
        rcases hother.mp hx with hold | hnew
        · exact .inl (by rw [hold]; simp)
        · exact absurd hnew.2 (by simp)
  · rintro (hold | ⟨k, hk⟩ | hnew)
    · obtain ⟨x, hx⟩ := Option.ne_none_iff_exists'.mp hold
      cases x with
      | connection k => exact absurd hx (h₀.owner fd k)
      | leaked => simp [hleaked.mpr (.inl hx)]
      | other => simp [hother.mpr (.inl hx)]
    · simp [hk]
    · simp [hleaked.mpr (.inr ⟨hnew, rfl⟩)]

/-- **No descriptor leaks exactly if no connection is ever accepted.** -/
theorem balanced_iff_no_accept {s₀ : State} (h₀ : Started s₀) (as : List Action)
    (hrun : (machine n).run s₀ as = some s) (hret : NoneRetained s) :
    Balanced s₀ s ↔ ∀ a ∈ as, a.leaked = none := by
  have h : Inv n s := inv_inductive.reachable ((Machine.Reachable.init h₀).run hrun)
  constructor
  · intro hbal a ha
    by_contra hne
    obtain ⟨fd, hfd⟩ := Option.ne_none_iff_exists'.mp hne
    have hleak : ∃ a ∈ as, a.leaked = some fd := ⟨a, ha, hfd⟩
    have hnow : s.table fd = some .leaked :=
      (stays_run fd (x := .leaked) trivial as (inv_init h₀) hrun).mpr (.inr ⟨hleak, rfl⟩)
    rcases (hbal fd).mp (by simp [hnow]) with hold | hreg
    · obtain ⟨x, hx⟩ := Option.ne_none_iff_exists'.mp hold
      have hstays : Owner.Stays x := by
        cases x with
        | connection k => exact absurd hx (h₀.owner fd k)
        | leaked => trivial
        | other => trivial
      exact leaked_was_free hstays as (inv_init h₀) hrun hleak hx
    · obtain ⟨k, hk⟩ := (h.connection_iff hret fd).mpr hreg
      rw [hnow] at hk
      simp at hk
  · intro hnone fd
    rw [open_iff h₀ as hrun hret fd]
    refine or_congr_right (or_iff_left ?_)
    rintro ⟨a, ha, hfd⟩
    rw [hnone a ha] at hfd
    simp at hfd

/-- One connection comes and goes. -/
def comesAndGoes : List Action := [.newConnection 5 (some 6), .deleteConnection 5]

lemma run_comesAndGoes :
    ∃ s, (machine 4).run standard comesAndGoes = some s ∧ s.table 6 = some .leaked ∧
      s.connections 6 = none ∧ NoneRetained s := by
  refine ⟨_, rfl, by decide, by decide, fun k hk => ?_⟩
  have hzero : (effect 4 (effect 4 standard (.newConnection 5 (some 6)))
      (.deleteConnection 5)).retained k = 0 := rfl
  rw [hzero] at hk
  simp at hk

theorem balanced_iff_no_accept_comesAndGoes :
    ∃ s, (machine 4).run standard comesAndGoes = some s ∧ NoneRetained s ∧
      ¬ Balanced standard s := by
  obtain ⟨s, hrun, -, -, hret⟩ := run_comesAndGoes
  refine ⟨s, hrun, hret, fun hbal => ?_⟩
  have hnone := (balanced_iff_no_accept started_standard comesAndGoes hrun hret).mp hbal
    (.newConnection 5 (some 6)) (by simp [comesAndGoes])
  simp [Action.leaked] at hnone

/-- After one connection has come and gone, the descriptor its constructor opened is still
open. -/
theorem descriptor_leaked :
    ¬ ∀ (n : ℕ) (s₀ s : State) (as : List Action), Started s₀ → (machine n).run s₀ as = some s →
      NoneRetained s → Balanced s₀ s := by
  intro h
  obtain ⟨s, hrun, hopen, hkey, hret⟩ := run_comesAndGoes
  rcases (h 4 standard s comesAndGoes started_standard hrun hret 6).mp (by simp [hopen]) with hold | hreg
  · exact hold rfl
  · exact hreg hkey

end CppServer.Registry
