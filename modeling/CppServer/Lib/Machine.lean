import Mathlib.Logic.Function.Basic
import Mathlib.Data.List.Basic
import Mathlib.Tactic.Lemma

/-!
# Guarded step machines

A concurrent program is modelled as a machine whose step function takes a state and an *action*:
which thread moves, and what the environment answered it.  `step s a = none` means that `a` is
not enabled in `s`.  One definition serves replay (`run`, which the kernel can evaluate on a
concrete schedule) and proof (`Reachable`, with its induction rule).

* `Inductive.reachable` — an inductive invariant holds of every reachable state.
* `CanStep` — some action of a kind is enabled, the conclusion of a proof of progress.
* `recorded` — the machine with a history variable beside its state: it has the same runs
  (`exists_recorded`), and invariants may speak about the history (`recorded_reachable`).
* `Along` — a property of every *step* of a run, with its rules: `along_iff` and `along_congr`
  compare two such properties, on reachable states and under an invariant; `run_guarded` carries
  an invariant through the runs whose steps all meet a condition; `run_iff` and `entered_iff` are
  for the properties that no other run keeps.
-/

namespace CppServer

/-- A machine: the states a run may start in, and what one action does to a state. -/
structure Machine (σ α : Type*) where
  Init : σ → Prop
  step : σ → α → Option σ

namespace Machine

/-- The machine that takes an action exactly when its guard holds. -/
def guarded {σ α : Type*} (Init : σ → Prop) (guard : σ → α → Prop)
    [∀ s a, Decidable (guard s a)] (effect : σ → α → σ) : Machine σ α where
  Init := Init
  step s a := if guard s a then some (effect s a) else none

variable {σ α : Type*} (m : Machine σ α)

/-- Take the actions in order; `none` as soon as one of them is not enabled. -/
def run : σ → List α → Option σ
  | s, [] => some s
  | s, a :: as => (m.step s a).bind fun s' => run s' as

/-- The states some run from an initial state ends in. -/
inductive Reachable : σ → Prop
  | init {s : σ} : m.Init s → Reachable s
  | step {s s' : σ} {a : α} : Reachable s → m.step s a = some s' → Reachable s'

/-- `I` holds initially and every enabled action keeps it. -/
structure Inductive (I : σ → Prop) : Prop where
  init : ∀ s, m.Init s → I s
  step : ∀ s a s', I s → m.step s a = some s' → I s'

/-- `P` holds of every step of the run: of the state the step is taken in and of its action. -/
def Along (P : σ → α → Prop) : σ → List α → Prop
  | _, [] => True
  | s, a :: as => P s a ∧ ∀ s', m.step s a = some s' → Along P s' as

/-- Some action of the kind `P` is enabled. -/
def CanStep (P : α → Prop) (s : σ) : Prop := ∃ a, P a ∧ (m.step s a).isSome

variable {m}

@[simp] lemma run_nil (s : σ) : m.run s [] = some s := rfl

@[simp] lemma run_cons (s : σ) (a : α) (as : List α) :
    m.run s (a :: as) = (m.step s a).bind fun s' => m.run s' as := rfl

lemma run_cons_eq_some {s s' : σ} {a : α} {as : List α} :
    m.run s (a :: as) = some s' ↔ ∃ t, m.step s a = some t ∧ m.run t as = some s' := by
  simp [Option.bind_eq_some_iff]

lemma run_append (s : σ) (as bs : List α) :
    m.run s (as ++ bs) = (m.run s as).bind fun t => m.run t bs := by
  induction as generalizing s with
  | nil => rfl
  | cons a as ih =>
      rw [List.cons_append, run_cons, run_cons, Option.bind_assoc]
      exact Option.bind_congr fun t _ => ih t

/-- What a guarded action can do: its guard held, and the state is what its effect makes of it. -/
lemma guarded_step_eq_some {Init : σ → Prop} {guard : σ → α → Prop}
    [∀ s a, Decidable (guard s a)] {effect : σ → α → σ} {s s' : σ} {a : α} :
    (guarded Init guard effect).step s a = some s' ↔ guard s a ∧ effect s a = s' := by
  simp [guarded]

lemma guarded_canStep {Init : σ → Prop} {guard : σ → α → Prop}
    [∀ s a, Decidable (guard s a)] {effect : σ → α → σ} {P : α → Prop} {s : σ} :
    (guarded Init guard effect).CanStep P s ↔ ∃ a, P a ∧ guard s a := by
  simp [CanStep, guarded]

/-- The invariant rule for guarded machines. -/
theorem guarded_inductive {Init : σ → Prop} {guard : σ → α → Prop}
    [∀ s a, Decidable (guard s a)] {effect : σ → α → σ} {I : σ → Prop}
    (hinit : ∀ s, Init s → I s) (hstep : ∀ s a, I s → guard s a → I (effect s a)) :
    (guarded Init guard effect).Inductive I where
  init := hinit
  step s a s' hI hst := by
    obtain ⟨hg, rfl⟩ := guarded_step_eq_some.mp hst
    exact hstep s a hI hg

/-- An inductive invariant holds of every reachable state. -/
theorem Inductive.reachable {I : σ → Prop} (h : m.Inductive I) {s : σ} (hs : m.Reachable s) :
    I s := by
  induction hs with
  | init hi => exact h.init _ hi
  | step _ hst ih => exact h.step _ _ _ ih hst

/-- A run from a reachable state ends in a reachable state. -/
theorem Reachable.run {s : σ} (hs : m.Reachable s) :
    ∀ {as : List α} {s' : σ}, m.run s as = some s' → m.Reachable s' := by
  intro as
  induction as generalizing s with
  | nil =>
      intro s' h
      rw [run_nil, Option.some.injEq] at h
      exact h ▸ hs
  | cons a as ih =>
      intro s' h
      obtain ⟨t, hst, hrun⟩ := run_cons_eq_some.mp h
      exact ih (hs.step hst) hrun

/-- What one step does to a state and every later step keeps, a run does. -/
theorem run_rel {R : σ → σ → Prop} (hrefl : ∀ s, R s s)
    (hstep : ∀ s a t s', m.step s a = some t → R t s' → R s s') :
    ∀ {s s' : σ} (as : List α), m.run s as = some s' → R s s'
  | s, s', [], hr => by
      rw [run_nil, Option.some.injEq] at hr
      exact hr ▸ hrefl s
  | s, s', a :: as, hr => by
      obtain ⟨t, hst, hrun⟩ := run_cons_eq_some.mp hr
      exact hstep s a t s' hst (run_rel hrefl hstep as hrun)

/-- An inductive invariant that holds at the start of a run holds at its end. -/
theorem Inductive.run {I : σ → Prop} (h : m.Inductive I) {s s' : σ} (as : List α) (hI : I s)
    (hr : m.run s as = some s') : I s' :=
  run_rel (R := fun s s' => I s → I s') (fun _ => id)
    (fun s a t _ hst ht hs => ht (h.step s a t hs hst)) as hr hI

/-- The last state of a run that a Boolean test accepts is reachable.  This is how a schedule the
kernel has evaluated becomes a statement about reachable states. -/
theorem exists_reachable_of_run {s : σ} (hs : m.Init s) (as : List α) (p : σ → Bool)
    (h : (m.run s as).any p = true) : ∃ s', m.Reachable s' ∧ p s' = true := by
  cases hr : m.run s as with
  | none => simp [hr] at h
  | some s' =>
      rw [hr, Option.any_some] at h
      exact ⟨s', (Reachable.init hs).run hr, h⟩

/-! ## History variables -/

section Recorded

variable {η : Type*} {start : η} {record : σ → α → η → η}

/-- The machine with a history variable: `record` says what a step taken in a state writes down. -/
def recorded (m : Machine σ α) (start : η) (record : σ → α → η → η) : Machine (σ × η) α where
  Init p := m.Init p.1 ∧ p.2 = start
  step p a := (m.step p.1 a).map fun s' => (s', record p.1 a p.2)

lemma recorded_step_eq_some {s s' : σ} {h h' : η} {a : α} :
    (m.recorded start record).step (s, h) a = some (s', h')
      ↔ m.step s a = some s' ∧ record s a h = h' := by
  simp [recorded]

/-- A history variable stops no run: every reachable state is reached with some history. -/
theorem exists_recorded {s : σ} (hs : m.Reachable s) :
    ∃ h, (m.recorded start record).Reachable (s, h) := by
  induction hs with
  | init hi => exact ⟨start, .init ⟨hi, rfl⟩⟩
  | @step s s' a _ hst ih =>
      obtain ⟨h, hr⟩ := ih
      exact ⟨record s a h, hr.step (recorded_step_eq_some.mpr ⟨hst, rfl⟩)⟩

/-- The runs are the same with and without the history. -/
theorem recorded_run : ∀ {as : List α} {s s' : σ} {h h' : η},
    (m.recorded start record).run (s, h) as = some (s', h') → m.run s as = some s' := by
  intro as
  induction as with
  | nil =>
      intro s s' h h' hr
      rw [run_nil, Option.some.injEq, Prod.mk.injEq] at hr
      rw [run_nil, hr.1]
  | cons a as ih =>
      intro s s' h h' hr
      obtain ⟨⟨t, k⟩, hst, hrun⟩ := run_cons_eq_some.mp hr
      exact run_cons_eq_some.mpr ⟨t, (recorded_step_eq_some.mp hst).1, ih hrun⟩

theorem exists_recorded_run : ∀ {as : List α} {s s' : σ} (h : η), m.run s as = some s' →
    ∃ h', (m.recorded start record).run (s, h) as = some (s', h') := by
  intro as
  induction as with
  | nil =>
      intro s s' h hr
      rw [run_nil, Option.some.injEq] at hr
      exact ⟨h, by rw [run_nil, hr]⟩
  | cons a as ih =>
      intro s s' h hr
      obtain ⟨t, hst, hrun⟩ := run_cons_eq_some.mp hr
      obtain ⟨h', hrun'⟩ := ih (record s a h) hrun
      exact ⟨h', run_cons_eq_some.mpr
        ⟨(t, record s a h), recorded_step_eq_some.mpr ⟨hst, rfl⟩, hrun'⟩⟩

/-- The invariant rule for a history variable, given an invariant of the machine itself. -/
theorem recorded_reachable {I : σ → Prop} {J : σ → η → Prop} (hI : m.Inductive I)
    (hinit : ∀ s, m.Init s → J s start)
    (hstep : ∀ s a s' h, I s → J s h → m.step s a = some s' → J s' (record s a h)) :
    ∀ {p : σ × η}, (m.recorded start record).Reachable p → I p.1 ∧ J p.1 p.2 := by
  intro p hp
  refine Inductive.reachable (m := m.recorded start record) (I := fun p => I p.1 ∧ J p.1 p.2)
    ⟨?_, ?_⟩ hp
  · rintro ⟨s, h⟩ ⟨hs, rfl⟩
    exact ⟨hI.init s hs, hinit s hs⟩
  · rintro ⟨s, h⟩ a ⟨s', h'⟩ ⟨hi, hj⟩ hst
    obtain ⟨hm, rfl⟩ := recorded_step_eq_some.mp hst
    exact ⟨hI.step s a s' hi hm, hstep s a s' h hi hj hm⟩

end Recorded

/-! ## Properties of the steps of a run -/

/-- The rule for a run that goes on after its first step. -/
theorem along_cons {P : σ → α → Prop} {s t : σ} {a : α} (hst : m.step s a = some t)
    (as : List α) : m.Along P s (a :: as) ↔ P s a ∧ m.Along P t as := by
  simp [Along, hst]

/-- What an option holds, if it holds anything, can be decided. -/
instance decidableForallSome {τ : Type*} {Q : τ → Prop} [DecidablePred Q] :
    ∀ o : Option τ, Decidable (∀ t, o = some t → Q t)
  | none => isTrue fun _ h => nomatch h
  | some t => decidable_of_iff (Q t) ⟨fun h _ ht => Option.some.inj ht ▸ h, fun h => h t rfl⟩

/-- Whether a property that can be decided holds along a run can be decided by taking it. -/
instance decidableAlong {P : σ → α → Prop} [∀ s a, Decidable (P s a)] :
    ∀ s as, Decidable (m.Along P s as)
  | _, [] => inferInstanceAs (Decidable True)
  | s, a :: as =>
      haveI : DecidablePred fun s' => m.Along P s' as := fun s' => decidableAlong s' as
      inferInstanceAs (Decidable (P s a ∧ ∀ s', m.step s a = some s' → m.Along P s' as))

/-- A property of the actions alone. -/
theorem along_of_forall {Q : α → Prop} :
    ∀ {s : σ} (as : List α), (∀ a ∈ as, Q a) → m.Along (fun _ a => Q a) s as
  | _, [], _ => trivial
  | _, a :: as, h =>
      ⟨h a List.mem_cons_self, fun _ _ => along_of_forall as fun b hb =>
        h b (List.mem_cons_of_mem a hb)⟩

/-- A run that goes on. -/
theorem Along.append {P : σ → α → Prop} {bs : List α} {t : σ} :
    ∀ {s : σ} (as : List α), m.Along P s as → m.run s as = some t → m.Along P t bs →
      m.Along P s (as ++ bs)
  | s, [], _, hr, hbs => by
      rw [run_nil, Option.some.injEq] at hr
      exact hr ▸ hbs
  | s, a :: as, has, hr, hbs => by
      obtain ⟨u, hst, hrun⟩ := run_cons_eq_some.mp hr
      rw [List.cons_append, along_cons hst]
      exact ⟨has.1, Along.append as (has.2 u hst) hrun hbs⟩

/-- A property of every step of a run holds of the step taken behind a part of the run. -/
theorem Along.next {P : σ → α → Prop} {a : α} {bs : List α} {t : σ} :
    ∀ {s : σ} (as : List α), m.Along P s (as ++ a :: bs) → m.run s as = some t → P t a
  | s, [], h, hr => by
      rw [run_nil, Option.some.injEq] at hr
      exact hr ▸ h.1
  | s, b :: as, h, hr => by
      obtain ⟨u, hst, hrun⟩ := run_cons_eq_some.mp hr
      exact Along.next as (h.2 u hst) hrun

/-- Two step properties that agree in every reachable state agree along every run. -/
theorem along_iff {P Q : σ → α → Prop} (h : ∀ s a, m.Reachable s → (P s a ↔ Q s a)) :
    ∀ {s : σ} (as : List α), m.Reachable s → (m.Along P s as ↔ m.Along Q s as)
  | _, [], _ => Iff.rfl
  | s, a :: as, hs => by
      refine and_congr (h s a hs) (forall_congr' fun s' => imp_congr_right fun hst => ?_)
      exact along_iff h as (hs.step hst)

/-- An invariant that the steps meeting `P` keep survives every run whose steps all meet `P`. -/
theorem run_guarded {P : σ → α → Prop} {I : σ → Prop}
    (hstep : ∀ s a s', I s → P s a → m.step s a = some s' → I s') :
    ∀ {s s' : σ} (as : List α), I s → m.Along P s as → m.run s as = some s' → I s'
  | s, s', [], hI, _, hr => by
      rw [run_nil, Option.some.injEq] at hr
      exact hr ▸ hI
  | s, s', a :: as, hI, hP, hr => by
      obtain ⟨t, hst, hrun⟩ := run_cons_eq_some.mp hr
      exact run_guarded hstep as (hstep s a t hI hP.1 hst) (hP.2 t hst) hrun

/-- A property that each step keeps exactly if `Q` holds of the step holds at the end of a run
exactly if it held at the start and `Q` holds all along. -/
theorem run_iff {I P : σ → Prop} {Q : σ → α → Prop}
    (hI : ∀ s a s', I s → m.step s a = some s' → I s')
    (hP : ∀ s a s', I s → m.step s a = some s' → (P s' ↔ P s ∧ Q s a)) :
    ∀ {s s' : σ} (as : List α), I s → m.run s as = some s' → (P s' ↔ P s ∧ m.Along Q s as)
  | s, s', [], _, hr => by
      rw [run_nil, Option.some.injEq] at hr
      simp [hr, Along]
  | s, s', a :: as, hs, hr => by
      obtain ⟨t, hst, hrun⟩ := run_cons_eq_some.mp hr
      rw [run_iff hI hP as (hI s a t hs hst) hrun, hP s a t hs hst, along_cons hst, and_assoc]

/-- The same for every state that is entered on the way: `P` holds of all of them exactly if `Q`
holds of all steps. -/
theorem entered_iff {I P : σ → Prop} {Q : σ → α → Prop}
    (hI : ∀ s a s', I s → m.step s a = some s' → I s')
    (hP : ∀ s a s', I s → P s → m.step s a = some s' → (P s' ↔ Q s a)) :
    ∀ {s s' : σ} (as : List α), I s → P s → m.run s as = some s' →
      (m.Along (fun s a => ∀ t, m.step s a = some t → P t) s as ↔ m.Along Q s as)
  | _, _, [], _, _, _ => Iff.rfl
  | s, s', a :: as, hs, hp, hr => by
      obtain ⟨t, hst, hrun⟩ := run_cons_eq_some.mp hr
      have hentered : (∀ u, m.step s a = some u → P u) ↔ Q s a := by
        rw [← hP s a t hs hp hst]
        simp [hst]
      rw [along_cons hst, along_cons hst, hentered]
      refine and_congr_right fun hq => ?_
      exact entered_iff hI hP as (hI s a t hs hst) ((hP s a t hs hp hst).mpr hq) hrun

/-- Two step properties that agree on the steps from states with an invariant, which the steps
meeting one of them keep, agree along every run that goes through. -/
theorem along_congr {I : σ → Prop} {P Q : σ → α → Prop}
    (hI : ∀ s a s', I s → Q s a → m.step s a = some s' → I s')
    (h : ∀ s a s', I s → m.step s a = some s' → (P s a ↔ Q s a)) :
    ∀ {s s' : σ} (as : List α), I s → m.run s as = some s' → (m.Along P s as ↔ m.Along Q s as)
  | _, _, [], _, _ => Iff.rfl
  | s, s', a :: as, hs, hr => by
      obtain ⟨t, hst, hrun⟩ := run_cons_eq_some.mp hr
      rw [along_cons hst, along_cons hst, h s a t hs hst]
      exact and_congr_right fun hq => along_congr hI h as (hI s a t hs hq hst) hrun

/-- A property of the actions alone, on a run that goes through. -/
theorem along_iff_forall {Q : α → Prop} {s s' : σ} (as : List α) (hr : m.run s as = some s') :
    m.Along (fun _ a => Q a) s as ↔ ∀ a ∈ as, Q a := by
  refine ⟨fun h => ?_, along_of_forall as⟩
  induction as generalizing s with
  | nil => simp
  | cons a as ih =>
      obtain ⟨t, hst, hrun⟩ := run_cons_eq_some.mp hr
      rw [along_cons hst] at h
      exact List.forall_mem_cons.mpr ⟨h.1, ih hrun h.2⟩

/-- Along such a run, what the invariant and the condition give for one step holds of every
step. -/
theorem along_guarded {P Q : σ → α → Prop} {I : σ → Prop}
    (hstep : ∀ s a s', I s → P s a → m.step s a = some s' → I s')
    (hQ : ∀ s a, I s → P s a → Q s a) :
    ∀ {s : σ} (as : List α), I s → m.Along P s as → m.Along Q s as
  | _, [], _, _ => trivial
  | s, a :: as, hI, hP =>
      ⟨hQ s a hI hP.1, fun t hst =>
        along_guarded hstep hQ as (hstep s a t hI hP.1 hst) (hP.2 t hst)⟩

end Machine

end CppServer
