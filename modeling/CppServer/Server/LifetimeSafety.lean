import CppServer.Server.Lifetime

/-!
# When the loop touches a connection that is gone

* `Inv` — an entry of the table is held by as many shared pointers as are counted.
* `Intact` — whatever the loop will look at again exists.  Only a step that drops the last shared
  pointer to such a connection (`Harmful`) breaks it: most simply the return of a callback that has
  closed its own connection.
* `Doomed` — once it is broken, the loop reads a field of a channel that is gone, unless an
  exception leaves it before.
* `never_touches_gone` — both together, over every run.
-/

namespace CppServer.Lifetime

open Function (update_self update_of_ne)

/-- The shared pointers to connection `k`. -/
def State.holders (s : State) (k : ℕ) : ℕ :=
  (s.registered k).toNat + s.retained k + s.pc.passed k

/-- The connection a step gives up a shared pointer to, while the loop goes on. -/
def Action.releases (s : State) : Action → Option ℕ
  | .close j => if s.registered j then some j else none
  | .drop j => some j
  | .callbackReturns k _ => some k
  | _ => none

/-- The step drops the last shared pointer to a connection that the loop is handling or still has
in its batch. -/
def Harmful (s : State) (a : Action) : Prop :=
  ∃ j ∈ a.releases s, s.holders j = 1 ∧ j ∈ s.pc.pending

/-- What holds in every reachable state. -/
structure Inv (s : State) : Prop where
  exact : RefCount.Exact s.object s.holders
  unborn : ∀ k, s.next ≤ k → s.object k = none
  pending : ∀ k ∈ s.pc.pending, k < s.next

variable {s : State} {a : Action}

theorem inv_init : Inv {} where
  exact := ⟨fun _ => rfl, fun _ _ h => by simp at h⟩
  unborn _ _ := rfl
  pending k hk := by simp [Pc.pending] at hk

lemma setReadyEvents_isSome (batch : List (ℕ × UInt32)) (j : ℕ) :
    ∀ t : RefCount.Table ℕ UInt32, (setReadyEvents t batch j).isSome = (t j).isSome := by
  induction batch with
  | nil => exact fun _ => rfl
  | cons p batch ih =>
      intro t
      rw [setReadyEvents, ih, RefCount.modify_isSome]

lemma exact_setReadyEvents {holders : ℕ → ℕ} (batch : List (ℕ × UInt32)) :
    ∀ {t : RefCount.Table ℕ UInt32}, RefCount.Exact t holders →
      RefCount.Exact (setReadyEvents t batch) holders := by
  induction batch with
  | nil => exact fun h => h
  | cons p batch ih => exact fun h => ih (h.modify _)

/-- The same counts, under another description of the holders. -/
lemma exact_congr {t : RefCount.Table ℕ UInt32} {f g : ℕ → ℕ} (h : RefCount.Exact t f)
    (hfg : ∀ k, f k = g k) : RefCount.Exact t g := funext hfg ▸ h

/-- Somebody takes one more shared pointer to `k`. -/
lemma exact_retained {t : RefCount.Table ℕ UInt32} {f g : ℕ → ℕ} {k : ℕ}
    (h : RefCount.Exact t f) (hk : (t k).isSome) (hone : g k = f k + 1)
    (hothers : ∀ j, j ≠ k → g j = f j) : RefCount.Exact (RefCount.retain t k) g := by
  refine exact_congr (h.retain hk) fun j => ?_
  by_cases hj : j = k
  · rw [hj, update_self, hone]
  · rw [update_of_ne hj, hothers j hj]

/-- Somebody gives one up. -/
lemma exact_released {t : RefCount.Table ℕ UInt32} {f g : ℕ → ℕ} {k : ℕ}
    (h : RefCount.Exact t f) (hone : f k = g k + 1) (hothers : ∀ j, j ≠ k → g j = f j) :
    RefCount.Exact (RefCount.release t k) g := by
  refine exact_congr (h.release (k := k)) fun j => ?_
  by_cases hj : j = k
  · rw [hj, update_self, hone, Nat.add_sub_cancel]
  · rw [update_of_ne hj, hothers j hj]

lemma isSome_lt (h : Inv s) {k : ℕ} (hk : (s.object k).isSome) : k < s.next := by
  by_contra hge
  rw [h.unborn k (Nat.not_lt.mp hge)] at hk
  simp at hk

/-! ## The counts are right -/

/-- A connection that has not been made yet is held by nobody. -/
lemma holders_next (h : Inv s) : s.holders s.next = 0 := by
  by_contra hpos
  have hsome := h.exact.isSome_iff.mpr (Nat.pos_of_ne_zero hpos)
  rw [h.unborn s.next (Nat.le_refl _)] at hsome
  simp at hsome

lemma exact_step (h : Inv s) (hg : guard s a) :
    RefCount.Exact (effect s a).object (effect s a).holders := by
  cases a with
  | connect =>
      have hzero := holders_next h
      refine exact_congr (h.exact.create (k := s.next) 0) fun k => ?_
      simp only [State.holders, effect] at hzero ⊢
      by_cases hk : k = s.next
      · subst hk
        rw [update_self, update_self, Bool.toNat_true]
        omega
      · rw [update_of_ne hk, update_of_ne hk]
        rfl
  | poll batch =>
      have hpc : s.pc = .polling := hg.1
      refine exact_congr (exact_setReadyEvents batch h.exact) fun k => ?_
      simp [State.holders, effect, hpc, Pc.passed]
  | handle k rest =>
      have hpc : s.pc = .dispatching (k :: rest) := hg
      simp only [effect]
      cases hk : s.object k with
      | none => exact exact_congr h.exact fun j => by simp [State.holders, hpc, Pc.passed]
      | some ch =>
          simp only
          split
          · refine exact_retained h.exact (by rw [hk]; rfl) ?_ fun j hj => ?_
            · simp [State.holders, hpc, Pc.passed]
            · simp [State.holders, hpc, Pc.passed, Ne.symm hj]
          · exact exact_congr h.exact fun j => by simp [State.holders, hpc, Pc.passed]
  | close j =>
      simp only [effect]
      split
      · rename_i hreg
        refine exact_released h.exact ?_ fun i hi => ?_
        · simp only [State.holders, hreg, update_self, Bool.toNat_true, Bool.toNat_false]
          omega
        · simp only [State.holders, update_of_ne hi]
      · exact h.exact
  | keep j =>
      refine exact_retained h.exact hg.2 ?_ fun i hi => ?_
      · simp only [State.holders, effect, update_self]
        omega
      · simp only [State.holders, effect, update_of_ne hi]
  | drop j =>
      have hpos : 0 < s.retained j := hg.2
      refine exact_released h.exact ?_ fun i hi => ?_
      · simp only [State.holders, effect, update_self]
        omega
      · simp only [State.holders, effect, update_of_ne hi]
  | callbackReturns k rest =>
      have hpc : s.pc = .inCallback k rest := hg
      refine exact_released h.exact ?_ fun j hj => ?_
      · simp [State.holders, effect, hpc, Pc.passed]
      · simp [State.holders, effect, hpc, Pc.passed, Ne.symm hj]
  | callbackThrows k rest =>
      have hpc : s.pc = .inCallback k rest := hg
      refine exact_released h.exact ?_ fun j hj => ?_
      · simp [State.holders, effect, hpc, Pc.passed]
      · simp [State.holders, effect, hpc, Pc.passed, Ne.symm hj]
  | testWrite k rest =>
      have hpc : s.pc = .testingWrite k rest := hg
      simp only [effect]
      cases hk : s.object k with
      | none => exact exact_congr h.exact fun j => by simp [State.holders, hpc, Pc.passed]
      | some ch =>
          simp only
          split
          · exact exact_congr h.exact fun j => by simp [State.holders, hpc, Pc.passed]
          · exact exact_congr h.exact fun j => by simp [State.holders, hpc, Pc.passed]
  | endOfBatch =>
      have hpc : s.pc = .dispatching [] := hg
      exact exact_congr h.exact fun j => by simp [State.holders, effect, hpc, Pc.passed]

/-- What a step does to the object table.  A step that gives up a shared pointer adds nothing to
what the loop will look at. -/
lemma object_step (hg : guard s a) :
    (effect s a).object = s.object ∨
    (a = .connect ∧ (effect s a).object = RefCount.create s.object s.next 0) ∨
    (∃ batch, (effect s a).object = setReadyEvents s.object batch) ∨
    (∃ k, (effect s a).object = RefCount.retain s.object k) ∨
    ∃ k, (effect s a).object = RefCount.release s.object k ∧
      ((effect s a).pc = .thrown ∨
        k ∈ a.releases s ∧ (effect s a).pc.pending ⊆ s.pc.pending) := by
  cases a with
  | connect => exact .inr (.inl ⟨rfl, rfl⟩)
  | poll batch => exact .inr (.inr (.inl ⟨batch, rfl⟩))
  | handle k rest =>
      simp only [effect]
      split
      · exact .inl rfl
      · split
        · exact .inr (.inr (.inr (.inl ⟨k, rfl⟩)))
        · exact .inl rfl
  | close k =>
      simp only [effect]
      split
      · rename_i hreg
        exact .inr (.inr (.inr (.inr ⟨k, rfl, .inr ⟨by simp [Action.releases, hreg],
          List.Subset.refl _⟩⟩)))
      · exact .inl rfl
  | keep k => exact .inr (.inr (.inr (.inl ⟨k, rfl⟩)))
  | drop k => exact .inr (.inr (.inr (.inr ⟨k, rfl, .inr ⟨rfl, List.Subset.refl _⟩⟩)))
  | callbackReturns k rest =>
      have hpc : s.pc = .inCallback k rest := hg
      refine .inr (.inr (.inr (.inr ⟨k, rfl, .inr ⟨rfl, ?_⟩⟩)))
      rw [hpc]
      exact List.Subset.refl _
  | callbackThrows k rest => exact .inr (.inr (.inr (.inr ⟨k, rfl, .inl rfl⟩)))
  | testWrite k rest =>
      simp only [effect]
      split
      · exact .inl rfl
      · split
        · exact .inl rfl
        · exact .inl rfl
  | endOfBatch => exact .inl rfl

/-- What is not there comes into being by `connect` only, under the next number. -/
lemma gone_step (hg : guard s a) {j : ℕ} (hj : s.object j = none)
    (hnew : a = .connect → j ≠ s.next) : (effect s a).object j = none := by
  rcases object_step hg with h | ⟨hc, h⟩ | ⟨batch, h⟩ | ⟨k, h⟩ | ⟨k, h, -⟩
  · rw [h, hj]
  · rw [h, RefCount.create_of_ne (hnew hc), hj]
  · rw [h, ← Option.not_isSome_iff_eq_none, setReadyEvents_isSome, hj]
    simp
  · rw [h, RefCount.retain_of_none hj]
  · rw [h, RefCount.release_of_none hj]

/-! ## What the loop will look at -/

/-- Only `epoll_wait` adds channels, and only such as exist. -/
lemma pending_step (hg : guard s a) (j : ℕ) (hj : j ∈ (effect s a).pc.pending) :
    j ∈ s.pc.pending ∨ (s.object j).isSome := by
  cases a with
  | poll batch =>
      obtain ⟨p, hp, rfl⟩ := List.mem_map.mp hj
      exact .inr (hg.2.2 p hp)
  | handle k rest =>
      have hpc : s.pc = .dispatching (k :: rest) := hg
      rw [hpc]
      simp only [effect] at hj
      split at hj
      · exact absurd hj (by simp [Pc.pending])
      · split at hj
        · exact .inl hj
        · exact .inl hj
  | close k =>
      simp only [effect] at hj
      split at hj
      · exact .inl hj
      · exact .inl hj
  | callbackReturns k rest =>
      have hpc : s.pc = .inCallback k rest := hg
      rw [hpc]
      exact .inl hj
  | callbackThrows k rest => exact absurd hj (by simp [effect, Pc.pending])
  | testWrite k rest =>
      have hpc : s.pc = .testingWrite k rest := hg
      rw [hpc]
      simp only [effect] at hj
      split at hj
      · exact absurd hj (by simp [Pc.pending])
      · split at hj
        · exact absurd hj (by simp [Pc.pending])
        · exact .inl (List.mem_cons_of_mem k hj)
  | endOfBatch => exact absurd hj (by simp [effect, Pc.pending])
  | _ => exact .inl hj

lemma next_le_effect (s : State) (a : Action) : s.next ≤ (effect s a).next := by
  cases a with
  | connect => exact Nat.le_succ _
  | handle k rest =>
      simp only [effect]
      split
      · exact Nat.le_refl _
      · split <;> exact Nat.le_refl _
  | close j =>
      simp only [effect]
      split <;> exact Nat.le_refl _
  | testWrite k rest =>
      simp only [effect]
      split
      · exact Nat.le_refl _
      · split <;> exact Nat.le_refl _
  | _ => exact Nat.le_refl _

theorem inv_step (h : Inv s) (hg : guard s a) : Inv (effect s a) where
  exact := exact_step h hg
  unborn k hk := by
    refine gone_step hg (h.unborn k (Nat.le_trans (next_le_effect s a) hk)) ?_
    rintro rfl
    exact Nat.ne_of_gt hk
  pending j hj := by
    refine Nat.lt_of_lt_of_le ?_ (next_le_effect s a)
    rcases pending_step hg j hj with hold | hsome
    · exact h.pending j hold
    · exact isSome_lt h hsome

/-! ## Steps that do no harm -/

/-- Everything the loop will look at again exists. -/
structure Intact (s : State) : Prop where
  pending : ∀ j ∈ s.pc.pending, (s.object j).isSome
  noFault : s.pc ≠ .fault

theorem intact_init : Intact {} where
  pending j hj := by simp [Pc.pending] at hj
  noFault := by simp

/-- A release that is not harmful leaves the connections of the batch alone. -/
lemma isSome_release (h : Inv s) (hsafe : ¬ Harmful s a) {k j : ℕ} (hk : k ∈ a.releases s)
    (hj : (s.object j).isSome) (hp : j ∈ s.pc.pending) :
    (RefCount.release s.object k j).isSome := by
  by_cases hjk : j = k
  · subst hjk
    have hpos := h.exact.isSome_iff.mp hj
    have hne : s.holders j ≠ 1 := fun hone => hsafe ⟨j, hk, hone, hp⟩
    exact h.exact.release_isSome.mpr (by omega)
  · rwa [RefCount.release_of_ne hjk]

lemma isSome_step (h : Inv s) (hsafe : ¬ Harmful s a) (hg : guard s a) {j : ℕ}
    (hj : (s.object j).isSome) (hp : j ∈ (effect s a).pc.pending) :
    ((effect s a).object j).isSome := by
  rcases object_step hg with ho | ⟨-, ho⟩ | ⟨batch, ho⟩ | ⟨k, ho⟩ | ⟨k, ho, hthrown | ⟨hk, hsub⟩⟩
  · rwa [ho]
  · rw [ho]
    exact RefCount.create_isSome _ hj
  · rwa [ho, setReadyEvents_isSome]
  · rwa [ho, RefCount.retain_isSome]
  · rw [hthrown] at hp
    simp [Pc.pending] at hp
  · rw [ho]
    exact isSome_release h hsafe hk hj (hsub hp)

lemma noFault_step (h : Intact s) (hg : guard s a) : (effect s a).pc ≠ .fault := by
  have exists_head : ∀ {k : ℕ}, k ∈ s.pc.pending → s.object k ≠ none := by
    intro k hk hnone
    have hsome := h.pending k hk
    rw [hnone] at hsome
    simp at hsome
  cases a with
  | poll batch => simp [effect]
  | handle k rest =>
      have hpc : s.pc = .dispatching (k :: rest) := hg
      simp only [effect]
      split
      · rename_i hnone
        exact absurd hnone (exists_head (by simp [hpc, Pc.pending]))
      · split
        · simp
        · simp
  | close j =>
      simp only [effect]
      split
      · exact h.noFault
      · exact h.noFault
  | callbackReturns k rest => simp [effect]
  | callbackThrows k rest => simp [effect]
  | testWrite k rest =>
      have hpc : s.pc = .testingWrite k rest := hg
      simp only [effect]
      split
      · rename_i hnone
        exact absurd hnone (exists_head (by simp [hpc, Pc.pending]))
      · split
        · simp
        · simp
  | endOfBatch => simp [effect]
  | _ => exact h.noFault

theorem intact_step (hi : Inv s) (h : Intact s) (hsafe : ¬ Harmful s a) (hg : guard s a) :
    Intact (effect s a) where
  pending j hj := by
    refine isSome_step hi hsafe hg ?_ hj
    rcases pending_step hg j hj with hold | hsome
    · exact h.pending j hold
    · exact hsome
  noFault := noFault_step h hg

/-! ## After the harm is done -/

/-- The loop will look at a connection that is gone, if no exception leaves it before. -/
def Doomed (s : State) : Prop :=
  s.pc = .fault ∨ s.pc = .thrown ∨ ∃ j ∈ s.pc.pending, s.object j = none

/-- The loop comes to the next channel only past the one before it. -/
lemma pending_gone_step (hg : guard s a) {j : ℕ} (hp : j ∈ s.pc.pending)
    (hj : s.object j = none) :
    (effect s a).pc = .fault ∨ (effect s a).pc = .thrown ∨ j ∈ (effect s a).pc.pending := by
  cases a with
  | poll batch =>
      rw [hg.1] at hp
      simp [Pc.pending] at hp
  | handle k rest =>
      have hpc : s.pc = .dispatching (k :: rest) := hg
      rw [hpc] at hp
      simp only [effect]
      split
      · exact .inl rfl
      · split
        · exact .inr (.inr hp)
        · exact .inr (.inr hp)
  | close k =>
      simp only [effect]
      split
      · exact .inr (.inr hp)
      · exact .inr (.inr hp)
  | callbackReturns k rest =>
      have hpc : s.pc = .inCallback k rest := hg
      rw [hpc] at hp
      exact .inr (.inr hp)
  | callbackThrows k rest => exact .inr (.inl rfl)
  | testWrite k rest =>
      have hpc : s.pc = .testingWrite k rest := hg
      rw [hpc] at hp
      simp only [effect]
      split
      · exact .inl rfl
      · rename_i ch hch
        split
        · exact .inr (.inl rfl)
        · refine .inr (.inr ((List.mem_cons.mp hp).resolve_left ?_))
          rintro rfl
          rw [hj] at hch
          simp at hch
  | endOfBatch =>
      rw [show s.pc = .dispatching [] from hg] at hp
      simp [Pc.pending] at hp
  | _ => exact .inr (.inr hp)

/-- Nothing happens to a loop that has ended. -/
lemma ended_step (hg : guard s a) (h : s.pc = .fault ∨ s.pc = .thrown) :
    (effect s a).pc = s.pc := by
  have moved : ∀ {pc : Pc} {P : Prop}, s.pc = pc → pc ≠ .fault → pc ≠ .thrown → P := by
    intro pc P hpc hfault hthrown
    rcases h with h | h
    · exact absurd (hpc.symm.trans h) hfault
    · exact absurd (hpc.symm.trans h) hthrown
  cases a with
  | poll batch => exact moved hg.1 (by simp) (by simp)
  | handle k rest => exact moved hg (by simp) (by simp)
  | close j =>
      simp only [effect]
      split
      · rfl
      · rfl
  | callbackReturns k rest => exact moved hg (by simp) (by simp)
  | callbackThrows k rest => exact moved hg (by simp) (by simp)
  | testWrite k rest => exact moved hg (by simp) (by simp)
  | endOfBatch => exact moved hg (by simp) (by simp)
  | _ => rfl

theorem doomed_step (hi : Inv s) (h : Doomed s) (hg : guard s a) : Doomed (effect s a) := by
  rcases h with hpc | hpc | ⟨j, hp, hj⟩
  · exact .inl ((ended_step hg (.inl hpc)).trans hpc)
  · exact .inr (.inl ((ended_step hg (.inr hpc)).trans hpc))
  · rcases pending_gone_step hg hp hj with hpc | hpc | hp'
    · exact .inl hpc
    · exact .inr (.inl hpc)
    · -- numbers are not given out again
      have hlt : j < s.next := hi.pending j hp
      exact .inr (.inr ⟨j, hp', gone_step hg hj fun _ => Nat.ne_of_lt hlt⟩)

/-- A harmful step takes a connection away that the loop will look at. -/
theorem doomed_of_harmful (hi : Inv s) (hg : guard s a) (h : Harmful s a) :
    Doomed (effect s a) := by
  obtain ⟨j, hrel, hone, hp⟩ := h
  have hgone : RefCount.release s.object j j = none := by
    rw [← Option.not_isSome_iff_eq_none, hi.exact.release_isSome]
    omega
  cases a with
  | close k =>
      simp only [Action.releases] at hrel
      split at hrel
      · rename_i hreg
        obtain rfl : k = j := by simpa using hrel
        refine .inr (.inr ⟨k, ?_, ?_⟩)
        · rw [effect, if_pos hreg]
          exact hp
        · rw [effect, if_pos hreg]
          exact hgone
      · simp at hrel
  | drop k =>
      obtain rfl : k = j := by simpa [Action.releases] using hrel
      exact .inr (.inr ⟨k, hp, hgone⟩)
  | callbackReturns k rest =>
      obtain rfl : k = j := by simpa [Action.releases] using hrel
      exact .inr (.inr ⟨k, List.mem_cons_self, hgone⟩)
  | _ => simp [Action.releases] at hrel

/-! ## Every run -/

theorem inv_inductive : machine.Inductive Inv :=
  Machine.guarded_inductive (fun _ hs => hs ▸ inv_init) fun _ _ => inv_step

/-- A run without a harmful step never touches what is gone. -/
lemma intact_run {s' : State} (as : List Action) (hi : Inv s) (h : Intact s)
    (hsafe : machine.Along (fun s a => ¬ Harmful s a) s as) (hr : machine.run s as = some s') :
    Intact s' := by
  refine (Machine.run_guarded (I := fun s => Inv s ∧ Intact s) (fun s a s' hI hP hst => ?_) as
    ⟨hi, h⟩ hsafe hr).2
  obtain ⟨hg, rfl⟩ := Machine.guarded_step_eq_some.mp hst
  exact ⟨inv_step hI.1 hg, intact_step hI.1 hI.2 hP hg⟩

lemma doomed_run {s' : State} (as : List Action) (hi : Inv s) (h : Doomed s)
    (hr : machine.run s as = some s') : Doomed s' := by
  refine Machine.run_rel (R := fun s s' => Inv s → Doomed s → Doomed s') (fun _ _ h => h)
    (fun s a t s' hst ht hi h => ?_) as hr hi h
  obtain ⟨hg, rfl⟩ := Machine.guarded_step_eq_some.mp hst
  exact ht (inv_step hi hg) (doomed_step hi h hg)

/-- A run with a harmful step is doomed: by induction on the run, up to the first such step. -/
lemma doomed_of_run :
    ∀ {s s' : State} (as : List Action), Inv s → machine.run s as = some s' →
      ¬ machine.Along (fun s a => ¬ Harmful s a) s as → Doomed s'
  | s, s', [], _, _, hharm => absurd trivial hharm
  | s, s', a :: as, hi, hr, hharm => by
      obtain ⟨t, hst, hrun⟩ := Machine.run_cons_eq_some.mp hr
      obtain ⟨hg, rfl⟩ := Machine.guarded_step_eq_some.mp hst
      have hi' := inv_step hi hg
      by_cases ha : Harmful s a
      · exact doomed_run as hi' (doomed_of_harmful hi hg ha) hrun
      · exact doomed_of_run as hi' hrun fun halong =>
          hharm ((Machine.along_cons hst as).mpr ⟨ha, halong⟩)

/-- **When the loop touches nothing that is gone.**  No run whose steps are all harmless does, and
a run that is back in `Poll`, or has faulted, has touched something exactly if one of its steps
was harmful. -/
theorem never_touches_gone {s : State} (as : List Action) (hrun : machine.run {} as = some s) :
    (machine.Along (fun s a => ¬ Harmful s a) {} as → s.pc ≠ .fault) ∧
    (s.pc = .polling ∨ s.pc = .fault →
      (s.pc ≠ .fault ↔ machine.Along (fun s a => ¬ Harmful s a) {} as)) := by
  have hsafe : machine.Along (fun s a => ¬ Harmful s a) {} as → s.pc ≠ .fault :=
    fun halong => (intact_run as inv_init intact_init halong hrun).noFault
  refine ⟨hsafe, fun hend => ⟨fun hne => ?_, hsafe⟩⟩
  by_contra hharm
  have hpc : s.pc = .polling := hend.resolve_right hne
  rcases doomed_of_run as inv_init hrun hharm with hf | ht | ⟨j, hp, -⟩
  · exact hne hf
  · rw [hpc] at ht
    simp at ht
  · rw [hpc] at hp
    simp [Pc.pending] at hp

/-- One connection, one event. -/
def oneEvent : List Action :=
  [.connect, .poll [(0, EPOLLIN)], .handle 0 [], .callbackReturns 0 [], .testWrite 0 [],
    .endOfBatch]

theorem never_touches_gone_oneEvent :
    machine.Along (fun s a => ¬ Harmful s a) {} oneEvent := by
  obtain ⟨s, hrun, hp⟩ := (Option.any_eq_true (fun s : State => decide (s.pc = .polling))
    (machine.run {} oneEvent)).mp (by decide)
  have hpc : s.pc = .polling := of_decide_eq_true hp
  exact ((never_touches_gone oneEvent hrun).2 (.inl hpc)).mp (by simp [hpc])

/-- The same, and the callback closes its own connection. -/
def closesItself : List Action :=
  [.connect, .poll [(0, EPOLLIN)], .handle 0 [], .close 0, .callbackReturns 0 [],
    .testWrite 0 []]

/-- `HandleEvent` goes on in a channel that was destroyed when the callback returned. -/
theorem touches_gone :
    ¬ ∀ (s : State) (as : List Action), machine.run {} as = some s → s.pc ≠ .fault := by
  intro h
  obtain ⟨s, hrun, hp⟩ := (Option.any_eq_true (fun s : State => decide (s.pc = .fault))
    (machine.run {} closesItself)).mp (by decide)
  exact h s closesItself hrun (of_decide_eq_true hp)

end CppServer.Lifetime
