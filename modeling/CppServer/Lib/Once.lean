import CppServer.Lib.Machine

/-!
# Initialisation that is done once

Any number of threads that call `pthread_once` with one control and one routine, and then use what
the routine has initialised.  The first to come runs the routine, step by step; the others wait
until it has returned.  A use is a series of atomic accesses, each of which may change the data: an
access with a request goes on with another request, or answers.

* `inv_inductive` — if no use changes data that are initialised, then no thread uses them before
  they are, they are initialised once, and every use answers as if it were alone.
-/

namespace CppServer.Once

open Function (update update_self update_of_ne)

/-- `pthread_once_t` -/
inductive Control (τ : Type*) where
  | fresh
  /-- the thread runs the routine -/
  | running (t : τ)
  | done
  deriving DecidableEq, Repr

/-- Where a thread is that has come with request `k`. -/
inductive Pc (κ : Type*) where
  | outside
  | calling (k : κ)
  /-- in the routine, of which `i` steps are done -/
  | initialising (k : κ) (i : ℕ)
  /-- about to access the data with request `k'` -/
  | passed (k k' : κ)
  deriving DecidableEq, Repr

/-- The data, and what the uses have answered. -/
structure State (τ κ σ ρ : Type*) where
  control : Control τ := .fresh
  data : σ
  pc : τ → Pc κ := fun _ => .outside
  answers : List (κ × ρ) := []

/-- One step of one thread. -/
inductive Action (τ κ : Type*) where
  | call (t : τ) (k : κ)
  | begin (t : τ) (k : κ)
  | init (t : τ) (k : κ) (i : ℕ)
  | finish (t : τ) (k : κ)
  | pass (t : τ) (k : κ)
  | access (t : τ) (k k' : κ)
  deriving DecidableEq, Repr

/-- A routine and the uses of what it initialises. -/
structure Program (κ σ ρ : Type*) where
  start : σ
  steps : List (σ → σ)
  /-- what a use begins with -/
  Asks : κ → Prop
  access : κ → σ → (κ ⊕ ρ) × σ

variable {τ κ σ ρ : Type*} {P : Program κ σ ρ}

/-- The data when `i` steps of the routine are done. -/
def Program.built (P : Program κ σ ρ) (i : ℕ) : σ := (P.steps.take i).foldl (fun d f => f d) P.start

/-- The initialised data. -/
def Program.full (P : Program κ σ ρ) : σ := P.built P.steps.length

/-- The request a use gets to on initialised data. -/
inductive Program.Leads (P : Program κ σ ρ) : κ → κ → Prop
  | refl {k : κ} : P.Asks k → Leads P k k
  | next {k k' k'' : κ} : Leads P k k' → (P.access k' P.full).1 = .inl k'' → Leads P k k''

/-- What a use answers on initialised data. -/
def Program.Answers (P : Program κ σ ρ) (k : κ) (r : ρ) : Prop :=
  ∃ k', P.Leads k k' ∧ (P.access k' P.full).1 = .inr r

/-- No use changes initialised data. -/
def Program.ReadOnly (P : Program κ σ ρ) : Prop :=
  ∀ k k', P.Leads k k' → (P.access k' P.full).2 = P.full

/-- When a step can be taken. -/
def guard (P : Program κ σ ρ) (s : State τ κ σ ρ) : Action τ κ → Prop
  | .call t k => s.pc t = .outside ∧ P.Asks k
  | .begin t k => s.pc t = .calling k ∧ s.control = .fresh
  | .init t k i => s.pc t = .initialising k i ∧ i < P.steps.length
  | .finish t k => s.pc t = .initialising k P.steps.length
  | .pass t k => s.pc t = .calling k ∧ s.control = .done
  | .access t k k' => s.pc t = .passed k k'

variable [DecidableEq τ]

/-- A thread goes on with what an access has returned. -/
def State.goOn (s : State τ κ σ ρ) (t : τ) (k : κ) : (κ ⊕ ρ) × σ → State τ κ σ ρ
  | (.inl k', data) => { s with data := data, pc := update s.pc t (.passed k k') }
  | (.inr r, data) =>
      { s with data := data, pc := update s.pc t .outside, answers := s.answers ++ [(k, r)] }

/-- What a step does. -/
def effect (P : Program κ σ ρ) (s : State τ κ σ ρ) : Action τ κ → State τ κ σ ρ
  | .call t k => { s with pc := update s.pc t (.calling k) }
  | .begin t k => { s with control := .running t, pc := update s.pc t (.initialising k 0) }
  | .init t k i =>
      { s with data := (P.steps[i]?.getD id) s.data,
               pc := update s.pc t (.initialising k (i + 1)) }
  | .finish t k => { s with control := .done, pc := update s.pc t (.passed k k) }
  | .pass t k => { s with pc := update s.pc t (.passed k k) }
  | .access t k k' => s.goOn t k (P.access k' s.data)

instance decidableGuard [DecidableEq κ] [DecidablePred P.Asks] (s : State τ κ σ ρ) :
    ∀ a, Decidable (guard P s a)
  | .call _ _ => inferInstanceAs (Decidable (_ ∧ _))
  | .begin _ _ => inferInstanceAs (Decidable (_ ∧ _))
  | .init _ _ _ => inferInstanceAs (Decidable (_ ∧ _))
  | .finish _ _ => inferInstanceAs (Decidable (s.pc _ = _))
  | .pass _ _ => inferInstanceAs (Decidable (_ ∧ _))
  | .access _ _ _ => inferInstanceAs (Decidable (s.pc _ = _))

/-- Before the first call. -/
def machine (τ : Type*) [DecidableEq τ] [DecidableEq κ] (P : Program κ σ ρ)
    [DecidablePred P.Asks] : Machine (State τ κ σ ρ) (Action τ κ) :=
  Machine.guarded (fun s => s = { data := P.start }) (guard P) (effect P)

/-! ## The invariant -/

lemma Program.built_zero : P.built 0 = P.start := by simp [Program.built]

lemma Program.built_succ {i : ℕ} (hi : i < P.steps.length) :
    P.built (i + 1) = (P.steps[i]?.getD id) (P.built i) := by
  rw [Program.built, Program.built, List.take_succ_eq_append_getElem hi, List.foldl_append,
    List.getElem?_eq_getElem hi]
  rfl

/-- What holds in every reachable state. -/
structure Inv (P : Program κ σ ρ) (s : State τ κ σ ρ) : Prop where
  fresh : s.control = .fresh → s.data = P.start
  running : ∀ t k i, s.pc t = .initialising k i →
    s.control = .running t ∧ s.data = P.built i ∧ P.Asks k
  calling : ∀ t k, s.pc t = .calling k → P.Asks k
  passed : ∀ t k k', s.pc t = .passed k k' → s.control = .done ∧ P.Leads k k'
  done : s.control = .done → s.data = P.full
  answers : ∀ p ∈ s.answers, P.Answers p.1 p.2

omit [DecidableEq τ] in
theorem inv_init : Inv P ({ data := P.start } : State τ κ σ ρ) where
  fresh _ := rfl
  running t k i h := by simp at h
  calling t k h := by simp at h
  passed t k k' h := by simp at h
  done h := by simp at h
  answers p hp := by simp at hp

section Step

variable {s : State τ κ σ ρ} {t u : τ} {k : κ} {i : ℕ} {q : Pc κ}

/-- A thread that is somewhere after one thread has moved. -/
lemma pc_update (h : update s.pc t q u = Pc.initialising k i) :
    (u = t ∧ q = .initialising k i) ∨ s.pc u = .initialising k i := by
  by_cases hu : u = t
  · subst hu
    exact .inl ⟨rfl, (update_self u q s.pc).symm.trans h⟩
  · exact .inr ((update_of_ne hu q s.pc).symm.trans h)

lemma calling_update (h : ∀ u k, s.pc u = .calling k → P.Asks k)
    (hq : ∀ k, q = .calling k → P.Asks k) (u : τ) (k : κ) (hu : update s.pc t q u = .calling k) :
    P.Asks k := by
  by_cases hut : u = t
  · subst hut
    exact hq k ((update_self u q s.pc).symm.trans hu)
  · exact h u k ((update_of_ne hut q s.pc).symm.trans hu)

lemma passed_update {c : Control τ}
    (h : ∀ u k k', s.pc u = .passed k k' → c = .done ∧ P.Leads k k')
    (hq : ∀ k k', q = .passed k k' → c = .done ∧ P.Leads k k') (u : τ) (k k' : κ)
    (hu : update s.pc t q u = .passed k k') : c = .done ∧ P.Leads k k' := by
  by_cases hut : u = t
  · subst hut
    exact hq k k' ((update_self u q s.pc).symm.trans hu)
  · exact h u k k' ((update_of_ne hut q s.pc).symm.trans hu)

/-- A thread moves on, and nobody is in the routine but perhaps the one who was. -/
lemma Inv.move (h : Inv P s) (hrun : ∀ k i, q ≠ .initialising k i)
    (hcall : ∀ k, q = .calling k → P.Asks k)
    (hpass : ∀ k k', q = .passed k k' → s.control = .done ∧ P.Leads k k') :
    Inv P { s with pc := update s.pc t q } where
  fresh := h.fresh
  running u k i hu := by
    rcases pc_update hu with ⟨-, hq⟩ | hold
    · exact absurd hq (hrun k i)
    · exact h.running u k i hold
  calling := calling_update h.calling hcall
  passed := passed_update h.passed hpass
  done := h.done
  answers := h.answers

omit [DecidableEq τ] in
/-- A thread in the routine is alone there, and nobody has passed. -/
lemma Inv.alone (h : Inv P s) (ht : s.pc t = .initialising k i) {j : ℕ} {k' : κ}
    (hu : s.pc u = .initialising k' j) : u = t := by
  have hrunning := (h.running t k i ht).1
  rw [(h.running u k' j hu).1] at hrunning
  exact Control.running.inj hrunning

omit [DecidableEq τ] in
lemma Inv.not_passed (h : Inv P s) (ht : s.pc t = .initialising k i) (k' k'' : κ) :
    s.pc u ≠ .passed k' k'' := by
  intro hu
  have hdone := (h.passed u k' k'' hu).1
  rw [(h.running t k i ht).1] at hdone
  simp at hdone

theorem inv_step (hread : P.ReadOnly) (h : Inv P s) {a : Action τ κ} (hg : guard P s a) :
    Inv P (effect P s a) := by
  cases a with
  | call t k =>
      refine h.move (by simp) (fun k' hk' => ?_) (by simp)
      rw [← Pc.calling.inj hk']
      exact hg.2
  | begin t k =>
      obtain ⟨hpc, hfresh⟩ := hg
      refine ⟨by simp [effect], fun u k' i hu => ?_, calling_update h.calling (by simp),
        fun u k' k'' hu => ?_, by simp [effect], h.answers⟩
      · rcases pc_update hu with ⟨rfl, hq⟩ | hold
        · obtain ⟨rfl, rfl⟩ := Pc.initialising.inj hq
          exact ⟨rfl, (h.fresh hfresh).trans Program.built_zero.symm, h.calling u k hpc⟩
        · have hrunning := (h.running u k' i hold).1
          rw [hfresh] at hrunning
          simp at hrunning
      · have hdone := (passed_update (c := s.control) h.passed (by simp) u k' k'' hu).1
        rw [hfresh] at hdone
        simp at hdone
  | init t k i =>
      obtain ⟨hpc, hi⟩ := hg
      obtain ⟨hrunning, hdata, hasks⟩ := h.running t k i hpc
      refine ⟨by simp [effect, hrunning], fun u k' j hu => ?_, calling_update h.calling (by simp),
        passed_update h.passed (by simp), by simp [effect, hrunning], h.answers⟩
      rcases pc_update hu with ⟨rfl, hq⟩ | hold
      · obtain ⟨rfl, rfl⟩ := Pc.initialising.inj hq
        refine ⟨hrunning, ?_, hasks⟩
        rw [Program.built_succ hi, ← hdata]
        rfl
      · -- nobody else is in the routine
        obtain rfl := h.alone hpc hold
        have hmoved : (effect P s (.init u k i)).pc u = .initialising k (i + 1) :=
          update_self u _ s.pc
        rw [hu] at hmoved
        obtain ⟨rfl, rfl⟩ := Pc.initialising.inj hmoved
        rw [hpc] at hold
        have hsame := (Pc.initialising.inj hold).2
        omega
  | finish t k =>
      obtain ⟨hrunning, hdata, hasks⟩ := h.running t k _ hg
      refine ⟨by simp [effect], fun u k' i hu => ?_, calling_update h.calling (by simp),
        passed_update (fun u k' k'' hu => absurd hu (h.not_passed hg k' k'')) ?_,
        fun _ => hdata, h.answers⟩
      · rcases pc_update hu with ⟨-, hq⟩ | hold
        · simp at hq
        · obtain rfl := h.alone hg hold
          have hmoved : (effect P s (.finish u k)).pc u = .passed k k := update_self u _ s.pc
          rw [hu] at hmoved
          simp at hmoved
      · intro k' k'' hq
        obtain ⟨rfl, rfl⟩ := Pc.passed.inj hq
        exact ⟨rfl, .refl hasks⟩
  | pass t k =>
      refine h.move (by simp) (by simp) fun k' k'' hq => ?_
      obtain ⟨rfl, rfl⟩ := Pc.passed.inj hq
      exact ⟨hg.2, .refl (h.calling t k hg.1)⟩
  | access t k k' =>
      obtain ⟨hdone, hleads⟩ := h.passed t k k' hg
      have hdata := h.done hdone
      have hsame : (P.access k' s.data).2 = s.data := by
        rw [hdata]
        exact hread k k' hleads
      cases hnext : P.access k' s.data with
      | mk next data =>
          rw [hnext] at hsame
          obtain rfl : data = s.data := hsame
          cases next with
          | inl k'' =>
              rw [effect, hnext]
              refine h.move (q := .passed k k'') (by simp) (by simp) fun l l' hq => ?_
              obtain ⟨rfl, rfl⟩ := Pc.passed.inj hq
              exact ⟨hdone, hleads.next (by rw [← hdata, hnext])⟩
          | inr r =>
              rw [effect, hnext]
              have hout := h.move (t := t) (q := .outside) (by simp) (by simp) (by simp)
              refine ⟨hout.fresh, hout.running, hout.calling, hout.passed, hout.done,
                fun p hp => ?_⟩
              rcases List.mem_append.mp hp with hold | hnew
              · exact h.answers p hold
              · rw [List.mem_singleton.mp hnew]
                exact ⟨k', hleads, by rw [← hdata, hnext]⟩

end Step

/-- **Done once, and before any use.** -/
theorem inv_inductive [DecidableEq κ] [DecidablePred P.Asks] (hread : P.ReadOnly) :
    (machine τ P).Inductive (Inv P) :=
  Machine.guarded_inductive (fun _ hs => hs ▸ inv_init) fun _ _ h hg => inv_step hread h hg

end CppServer.Once
