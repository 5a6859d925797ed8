import CppServer.Logger.Moves
import CppServer.Logger.HandOver

/-!
# An appender that is destroyed when nobody uses it

The runs in which no call of `Log` or `Reopen` is under way when the destructor starts.  No call
starts later, so the destructor's entry is the last one to be pushed, and everything logged is in
front of it.

* `Quiet` — the condition on the steps, `Settled` the invariant that it gives.
* `everything_handed_over` — what the writer was handed, and has written, when the destructor
  returns.
-/

namespace CppServer.Logger

open Function (update_of_ne)

variable {ι ε : Type*}

/-- The destructor starts only when no other thread is inside a member function. -/
def Quiet (s : State ι ε) (a : Action ι ε) : Prop :=
  a = .dtorBegin → ∀ c, s.caller (.producer c) = .idle

instance [Fintype ι] [DecidableEq ι] [DecidableEq ε] (s : State ι ε) (a : Action ι ε) :
    Decidable (Quiet s a) := inferInstanceAs (Decidable (_ → _))

/-- Once the destructor has started, nobody else does anything, and what it pushes is the last
entry. -/
structure Settled (s : State ι ε) : Prop where
  idle : s.life.hasBegun = true → ∀ c, s.caller (.producer c) = .idle
  last : ∀ before after, s.pushed = before ++ (.destructor, sentinel) :: after → after = []

theorem settled_init : Settled ({} : State ι ε) := ⟨by simp [Life.hasBegun], by simp⟩

variable [DecidableEq ι] {cfg : Config} {s : State ι ε} {a : Action ι ε}

/-- A call starts only while the appender is alive. -/
lemma idle_step (h : ∀ c, s.caller (.producer c) = .idle) (hlife : s.life ≠ .alive)
    (hg : guard s a) (d : ι) : (effect cfg s a).caller (.producer d) = .idle := by
  rcases caller_step cfg hg (.producer d) with ⟨-, hsame⟩ | hgoes
  · rw [hsame, h d]
  · rw [h d] at hgoes
    generalize (effect cfg s a).caller (.producer d) = q at hgoes
    cases hgoes with
    | log => exact absurd hg.1 hlife
    | reopen => exact absurd hg.1 hlife

lemma hasBegun_ne_alive {l : Life} (h : l.hasBegun = true) : l ≠ .alive := by
  rintro rfl
  simp [Life.hasBegun] at h

/-- Only `dtorBegin` begins the destruction. -/
lemma hasBegun_step (hg : guard s a) (hbegun : (effect cfg s a).life.hasBegun = true) :
    a = .dtorBegin ∨ s.life.hasBegun = true := by
  have hgoes := life_step cfg hg
  generalize (effect cfg s a).life = l' at hgoes hbegun
  generalize s.life = l at hgoes ⊢
  cases hgoes with
  | stays => exact .inr hbegun
  | ctorOpen => simp [Life.hasBegun] at hbegun
  | dtorBegin => exact .inl rfl
  | _ => exact .inr rfl

/-- The queue's history grows only in a push. -/
lemma pushed_step (cfg : Config) (hg : guard s a) : (effect cfg s a).pushed = s.pushed ∨
    ∃ c e, a = .logPush c e ∧ (effect cfg s a).pushed = s.pushed ++ [(c, e)] := by
  obtain ⟨popped, pushed, hgoes, -, hpushed⟩ := queue_step cfg hg
  rw [hpushed]
  generalize (effect cfg s a).queue = q' at hgoes
  generalize s.queue = q at hgoes
  cases hgoes with
  | push => exact .inr ⟨_, _, rfl, rfl⟩
  | _ => exact .inl (List.append_nil _)

/-- Nobody pushes behind the destructor's entry: the others are idle, and the destructor pushes
once. -/
lemma last_step (hinv : Inv cfg s) (h : Settled s) (hg : guard s a)
    (before after : List (Caller ι × Entry ε))
    (hpushed : (effect cfg s a).pushed = before ++ (.destructor, sentinel) :: after) :
    after = [] := by
  rcases pushed_step cfg hg with hsame | ⟨c, e, rfl, hpush⟩
  · exact h.last before after (hsame.symm.trans hpushed)
  · rcases after.eq_nil_or_concat with hnil | ⟨after', p, rfl⟩
    · exact hnil
    · exfalso
      rw [hpush, List.concat_eq_append, ← List.cons_append, ← List.append_assoc] at hpushed
      have hold := (List.append_inj' hpushed rfl).1
      have hmem : (Caller.destructor, sentinel) ∈ s.pushed := by
        rw [hold]
        simp
      have hbegun := (hinv.eq_sentinel hmem rfl).2
      have hroom : s.caller c = .room e := hg
      cases c with
      | producer c =>
          rw [h.idle hbegun c] at hroom
          simp at hroom
      | destructor =>
          -- it has pushed its only entry already
          have hprogram := hinv.program .destructor
          rw [hroom, hinv.begun, hbegun] at hprogram
          have hpart : sentinel ∈ part Caller.destructor s.pushed := mem_part.mpr hmem
          have hlen := congrArg List.length hprogram
          simp only [CallerPc.pending, List.length_append, if_true, List.length_singleton] at hlen
          have hpos := List.length_pos_of_mem hpart
          omega

theorem settled_step (hinv : Inv cfg s) (h : Settled s) (hquiet : Quiet s a) (hg : guard s a) :
    Settled (effect cfg s a) where
  idle hbegun d := by
    rcases hasBegun_step hg hbegun with rfl | hold
    · simp only [effect, State.call]
      rw [update_of_ne (by simp)]
      exact hquiet rfl d
    · exact idle_step (h.idle hold) (hasBegun_ne_alive hold) hg d
  last := last_step hinv h hg

/-- What the callers logged before the destructor started, in the order of the queue. -/
def State.accepted (s : State ι ε) : List (Entry ε) :=
  (s.pushed.map Prod.snd).filter fun e => e.level ≠ .OTHER

/-- What has come of the callers' entries when the destructor has returned. -/
structure HandedOver (cfg : Config) (s : State ι ε) : Prop where
  complete : ∀ c, part (.producer c) s.pushed = s.logged (.producer c)
  written : s.written = .logStart :: cfg.texts s.accepted ++ [.logEnd]

/-- **Everything is handed over.**  After a quiet destruction every call's entry has been pushed,
and the lines are those of all entries in the order of the queue. -/
theorem Settled.handedOver (h : Settled s) (hinv : Inv cfg s) (hlife : s.life = .destroyed) :
    HandedOver cfg s := by
  obtain ⟨before, after, hup, hfull⟩ := hinv.at_end hlife
  have hbegun : s.life.hasBegun = true := by rw [hlife]; rfl
  have hafter := h.last before after hup.pushed
  have hbefore : ∀ e ∈ before.map Prod.snd, e.level ≠ .OTHER := by
    intro e he
    obtain ⟨p, hp, rfl⟩ := List.mem_map.mp he
    exact hup.others p hp
  have haccepted : s.accepted = before.map Prod.snd := by
    rw [State.accepted, hup.pushed, hafter, List.map_append, List.filter_append,
      List.filter_eq_self.mpr (by simpa using hbefore)]
    simp [sentinel]
  refine ⟨fun c => ?_, ?_⟩
  · have hprogram := hinv.program (.producer c)
    rw [h.idle hbegun c, show (CallerPc.idle : CallerPc ε).pending = [] from rfl,
      List.append_nil] at hprogram
    exact hprogram
  · rw [haccepted]
    exact hfull

section Run

variable [∀ (s : State ι ε) a, Decidable (guard s a)]

/-- The invariant along a quiet run. -/
theorem settled_run {s₀ : State ι ε} (hs₀ : (machine ι ε cfg).Init s₀) (as : List (Action ι ε))
    (hquiet : (machine ι ε cfg).Along Quiet s₀ as) (hrun : (machine ι ε cfg).run s₀ as = some s) :
    Inv cfg s ∧ Settled s := by
  obtain ⟨-, rfl⟩ := hs₀
  refine Machine.run_guarded (I := fun s => Inv cfg s ∧ Settled s) (fun s a t h hq hst => ?_) as
    ⟨inv_init, settled_init⟩ hquiet hrun
  obtain ⟨hg, rfl⟩ := Machine.guarded_step_eq_some.mp hst
  exact ⟨inv_step h.1 hg, settled_step h.1 h.2 hq hg⟩

end Run

end CppServer.Logger
