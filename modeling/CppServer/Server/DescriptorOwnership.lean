import CppServer.Server.Descriptors

/-!
# Every destruction that runs to its end closes once too often

* `Inv` — a descriptor that was opened for a connection is open for it only until the channel of
  the connection is destroyed.  So what the destruction of `sock_` closes belongs to nobody, or to
  somebody else.
* `Intact` — as long as that has not happened, every connection still owns its descriptor when its
  channel closes it.
* `own_closes_iff` — both together, for every run and any number of connections.
* `closes_stranger` — a run in which the second close hits the descriptor of a live connection.
-/

namespace CppServer.Descriptors

open Function (update update_self update_of_ne)

/-- What holds in every reachable state. -/
structure Inv (s : State) : Prop where
  owner : ∀ fd k, s.table fd = some (.connection k) →
    s.main = .accepted fd k ∨ ∃ o, s.object k = some o ∧ o.phase = .alive ∧ o.channelFd = some fd
  unborn : ∀ k, s.next ≤ k → s.object k = none
  accepted : ∀ fd k, s.main = .accepted fd k → k < s.next ∧ s.object k = none
  sock : ∀ k o, s.object k = some o → o.phase ≠ .destroyed → ∃ fd, o.sockFd = some fd

variable {s : State} {a : Action}

/-- Releasing a reference changes nothing but who holds one. -/
lemma release_eq (s : State) (fd k : ℕ) :
    s.release fd k = s.object k ∨
      ∃ o, s.object k = some o ∧ s.release fd k = some { o with held := false } := by
  unfold State.release
  cases s.connections fd with
  | none => exact .inl rfl
  | some j =>
      by_cases hkj : k = j
      · subst hkj
        cases ho : s.object k with
        | none => exact .inl (by simp [ho])
        | some o => exact .inr ⟨o, rfl, by simp [ho]⟩
      · exact .inl (update_of_ne hkj _ _)

lemma closeFd_table {k : ℕ} {f : Option ℕ} {fd : ℕ} {x : Owner}
    (h : (s.closeFd k f).table fd = some x) : s.table fd = some x ∧ f ≠ some fd := by
  cases f with
  | none => exact ⟨h, by simp⟩
  | some g =>
      simp only [State.closeFd] at h
      by_cases hg : fd = g
      · subst hg
        simp at h
      · rw [update_of_ne hg] at h
        exact ⟨h, fun heq => hg (Option.some.inj heq).symm⟩

@[simp] lemma closeFd_main (s : State) (k : ℕ) (f : Option ℕ) : (s.closeFd k f).main = s.main := by
  cases f <;> rfl

@[simp] lemma closeFd_next (s : State) (k : ℕ) (f : Option ℕ) : (s.closeFd k f).next = s.next := by
  cases f <;> rfl

lemma closeFd_closes (s : State) (k : ℕ) (f : Option ℕ) :
    s.closes <+: (s.closeFd k f).closes := by
  cases f with
  | none => exact List.prefix_rfl
  | some fd => exact List.prefix_append _ _

/-! ## Every reachable state -/

theorem inv_init {table : ℕ → Option Owner} (h : ∀ fd k, table fd ≠ some (.connection k)) :
    Inv { table } where
  owner fd k hk := absurd hk (h fd k)
  unborn := by simp
  accepted := by simp
  sock := by simp

lemma release_none {fd k : ℕ} (h : s.object k = none) : s.release fd k = none := by
  rcases release_eq s fd k with heq | ⟨o, ho, -⟩
  · rw [heq, h]
  · rw [h] at ho
    simp at ho

/-- A destructor closes a descriptor of connection `j`.  What belongs to another connection stays
as it is; what belonged to the channel of `j` is what is closed. -/
lemma owner_closed (h : Inv s) {f k j : ℕ} {x : Option ℕ} {o o' : Object}
    (hj : s.object j = some o) (hx : o.phase = .alive → o.channelFd = some f → x = some f)
    (hk : (s.closeFd j x).table f = some (.connection k)) :
    (s.closeFd j x).main = .accepted f k ∨
      ∃ o₁, update s.object j (some o') k = some o₁ ∧ o₁.phase = .alive ∧
        o₁.channelFd = some f := by
  obtain ⟨hk', hfd⟩ := closeFd_table hk
  rcases h.owner f k hk' with hacc | ⟨o₁, ho₁, hphase, hfd₁⟩
  · exact .inl ((closeFd_main s j x).trans hacc)
  · have hkj : k ≠ j := by
      rintro rfl
      rw [hj, Option.some.injEq] at ho₁
      exact hfd (hx (ho₁ ▸ hphase) (ho₁ ▸ hfd₁))
    exact .inr ⟨o₁, (update_of_ne hkj _ _).trans ho₁, hphase, hfd₁⟩

lemma owner_step (h : Inv s) (hg : guard s a) (f k : ℕ)
    (hk : (effect s a).table f = some (.connection k)) :
    (effect s a).main = .accepted f k ∨
      ∃ o, (effect s a).object k = some o ∧ o.phase = .alive ∧ o.channelFd = some f := by
  -- releasing a reference leaves the connection alive
  have released : ∀ {fd : ℕ}, (∃ o, s.object k = some o ∧ o.phase = .alive ∧
      o.channelFd = some f) → ∃ o, s.release fd k = some o ∧ o.phase = .alive ∧
        o.channelFd = some f := by
    rintro fd ⟨o, ho, hphase, hfd⟩
    rcases release_eq s fd k with heq | ⟨o', ho', heq⟩
    · exact ⟨o, heq.trans ho, hphase, hfd⟩
    · rw [ho, Option.some.injEq] at ho'
      exact ⟨_, heq, ho' ▸ hphase, ho' ▸ hfd⟩
  cases a with
  | accept fd =>
      simp only [effect] at hk ⊢
      by_cases hf : f = fd
      · subst hf
        simp only [update_self, Option.some.injEq, Owner.connection.injEq] at hk
        exact .inl (by rw [hk])
      · rw [update_of_ne hf] at hk
        rcases h.owner f k hk with hacc | hobj
        · rw [hg.1] at hacc
          simp at hacc
        · exact .inr hobj
  | construct fd j g =>
      simp only [effect] at hk ⊢
      have hne : f ≠ g := by
        rintro rfl
        simp at hk
      rw [update_of_ne hne] at hk
      have hnone := (h.accepted fd j hg.1).2
      rcases h.owner f k hk with hacc | ⟨o, ho, hphase, hfd⟩
      · rw [hg.1] at hacc
        simp only [MainPc.accepted.injEq] at hacc
        obtain ⟨rfl, rfl⟩ := hacc
        exact .inr ⟨_, update_self _ _ _, rfl, rfl⟩
      · have hkj : k ≠ j := by
          rintro rfl
          rw [hnone] at ho
          simp at ho
        exact .inr ⟨o, by rw [update_of_ne hkj, ho], hphase, hfd⟩
  | moveIntoConnections fd j =>
      rcases h.owner f k hk with hacc | hobj
      · rw [show s.main = .constructed fd j from hg] at hacc
        simp at hacc
      · exact .inr (released hobj)
  | deleteConnection fd => exact (h.owner f k hk).imp_right released
  | channelDtor j o => exact owner_closed h hg.1 (fun _ hfd => hfd) hk
  | sockDtor j o =>
      have hgone : o.phase = .alive → o.channelFd = some f → o.sockFd = some f := by
        intro halive
        rw [hg.2] at halive
        simp at halive
      exact owner_closed h hg.1 hgone hk

lemma unborn_step (h : Inv s) (hg : guard s a) (k : ℕ) (hk : (effect s a).next ≤ k) :
    (effect s a).object k = none := by
  -- a connection that exists has been accepted
  have born : ∀ {j : ℕ} {o : Object}, s.object j = some o → s.next ≤ k → k ≠ j := by
    rintro j o ho hle rfl
    rw [h.unborn k hle] at ho
    simp at ho
  cases a with
  | accept fd => exact h.unborn k (Nat.le_of_succ_le hk)
  | construct fd j g =>
      have hlt := (h.accepted fd j hg.1).1
      have hne : k ≠ j := by
        have hle : s.next ≤ k := hk
        omega
      exact (update_of_ne hne _ _).trans (h.unborn k hk)
  | moveIntoConnections fd j => exact release_none (h.unborn k hk)
  | deleteConnection fd => exact release_none (h.unborn k hk)
  | channelDtor j o =>
      have hle : s.next ≤ k := by simpa [effect] using hk
      exact (update_of_ne (born hg.1 hle) _ _).trans (h.unborn k hle)
  | sockDtor j o =>
      have hle : s.next ≤ k := by simpa [effect] using hk
      exact (update_of_ne (born hg.1 hle) _ _).trans (h.unborn k hle)

lemma accepted_step (h : Inv s) (hg : guard s a) (fd k : ℕ)
    (hm : (effect s a).main = .accepted fd k) :
    k < (effect s a).next ∧ (effect s a).object k = none := by
  cases a with
  | accept f =>
      simp only [effect, MainPc.accepted.injEq] at hm ⊢
      exact ⟨by omega, h.unborn k (Nat.le_of_eq hm.2)⟩
  | construct f j g => simp [effect] at hm
  | moveIntoConnections f j => simp [effect] at hm
  | deleteConnection f =>
      obtain ⟨hlt, hnone⟩ := h.accepted fd k hm
      exact ⟨hlt, release_none hnone⟩
  | channelDtor j o =>
      obtain ⟨hlt, hnone⟩ := h.accepted fd k ((closeFd_main s j o.channelFd).symm.trans hm)
      have hkj : k ≠ j := by
        rintro rfl
        exact absurd (hnone.symm.trans hg.1) (by simp)
      exact ⟨by simpa [effect] using hlt, (update_of_ne hkj _ _).trans hnone⟩
  | sockDtor j o =>
      obtain ⟨hlt, hnone⟩ := h.accepted fd k ((closeFd_main s j o.sockFd).symm.trans hm)
      have hkj : k ≠ j := by
        rintro rfl
        exact absurd (hnone.symm.trans hg.1) (by simp)
      exact ⟨by simpa [effect] using hlt, (update_of_ne hkj _ _).trans hnone⟩

lemma sock_step (h : Inv s) (hg : guard s a) (k : ℕ) (o : Object)
    (ho : (effect s a).object k = some o) (hp : o.phase ≠ .destroyed) :
    ∃ fd, o.sockFd = some fd := by
  have released : ∀ {fd : ℕ}, s.release fd k = some o → ∃ fd, o.sockFd = some fd := by
    intro fd hrel
    rcases release_eq s fd k with heq | ⟨o', ho', heq⟩
    · exact h.sock k o (heq ▸ hrel) hp
    · rw [heq, Option.some.injEq] at hrel
      subst hrel
      exact h.sock k o' ho' hp
  cases a with
  | accept fd => exact h.sock k o ho hp
  | construct fd j g =>
      by_cases hkj : k = j
      · subst hkj
        simp only [effect, update_self, Option.some.injEq] at ho
        exact ⟨fd, ho ▸ rfl⟩
      · exact h.sock k o ((update_of_ne hkj _ _).symm.trans ho) hp
  | moveIntoConnections fd j => exact released ho
  | deleteConnection fd => exact released ho
  | channelDtor j o' =>
      by_cases hkj : k = j
      · subst hkj
        simp only [effect, update_self, Option.some.injEq] at ho
        subst ho
        exact h.sock k o' hg.1 (by rw [hg.2.2]; simp)
      · exact h.sock k o ((update_of_ne hkj _ _).symm.trans ho) hp
  | sockDtor j o' =>
      by_cases hkj : k = j
      · subst hkj
        simp only [effect, update_self, Option.some.injEq] at ho
        exact absurd (ho ▸ rfl) hp
      · exact h.sock k o ((update_of_ne hkj _ _).symm.trans ho) hp

theorem inv_step (h : Inv s) (hg : guard s a) : Inv (effect s a) where
  owner := owner_step h hg
  unborn := unborn_step h hg
  accepted := accepted_step h hg
  sock := sock_step h hg

theorem inv_inductive : machine.Inductive Inv :=
  Machine.guarded_inductive
    (fun _ hs => by
      obtain ⟨table, rfl, htable⟩ := hs
      exact inv_init htable)
    fun _ _ => inv_step

/-! ## Until a `sock_` is destroyed -/

/-- Every connection whose channel is there still owns its descriptor, and every close so far was
of a descriptor that was still owned. -/
structure Intact (s : State) : Prop where
  owns : ∀ k o, s.object k = some o → o.phase = .alive →
    ∃ fd, o.channelFd = some fd ∧ s.table fd = some (.connection k)
  accepted : ∀ fd k, s.main = .accepted fd k → s.table fd = some (.connection k)
  closes : ∀ c ∈ s.closes, c.Own

/-- The step is no destruction of a `sock_`. -/
def Action.SparesSock (a : Action) : Prop := ∀ k o, a ≠ .sockDtor k o

/-- A connection that owns its descriptor still does when the kernel hands out a free number. -/
lemma owns_of_free {table : ℕ → Option Owner} {g fd : ℕ} {x y : Owner} (hg : table g = none)
    (h : table fd = some x) : update table g (some y) fd = some x := by
  rw [update_of_ne, h]
  rintro rfl
  rw [hg] at h
  simp at h

lemma owns_step (h : Intact s) (hs : a.SparesSock) (hg : guard s a) (k : ℕ)
    (o : Object) (ho : (effect s a).object k = some o) (hp : o.phase = .alive) :
    ∃ fd, o.channelFd = some fd ∧ (effect s a).table fd = some (.connection k) := by
  have released : ∀ {fd : ℕ}, s.release fd k = some o →
      ∃ fd, o.channelFd = some fd ∧ s.table fd = some (.connection k) := by
    intro fd hrel
    rcases release_eq s fd k with heq | ⟨o', ho', heq⟩
    · exact h.owns k o (heq ▸ hrel) hp
    · rw [heq, Option.some.injEq] at hrel
      subst hrel
      exact h.owns k o' ho' hp
  cases a with
  | accept g =>
      obtain ⟨fd, hfd, hown⟩ := h.owns k o ho hp
      exact ⟨fd, hfd, owns_of_free hg.2 hown⟩
  | construct fd j g =>
      by_cases hkj : k = j
      · subst hkj
        simp only [effect, update_self, Option.some.injEq] at ho
        exact ⟨fd, ho ▸ rfl, owns_of_free hg.2 (h.accepted fd k hg.1)⟩
      · obtain ⟨f, hf, hown⟩ := h.owns k o ((update_of_ne hkj _ _).symm.trans ho) hp
        exact ⟨f, hf, owns_of_free hg.2 hown⟩
  | moveIntoConnections fd j => exact released ho
  | deleteConnection fd => exact released ho
  | channelDtor j o' =>
      by_cases hkj : k = j
      · subst hkj
        simp only [effect, update_self, Option.some.injEq] at ho
        rw [← ho] at hp
        simp at hp
      · obtain ⟨f, hf, hown⟩ := h.owns k o ((update_of_ne hkj _ _).symm.trans ho) hp
        obtain ⟨g, hgfd, hgown⟩ := h.owns j o' hg.1 hg.2.2
        -- the descriptor closed is that of another connection
        have hfg : f ≠ g := by
          rintro rfl
          rw [hown, Option.some.injEq, Owner.connection.injEq] at hgown
          exact hkj hgown
        refine ⟨f, hf, ?_⟩
        simp only [effect, hgfd, State.closeFd]
        rw [update_of_ne hfg, hown]
  | sockDtor j o' => exact absurd rfl (hs j o')

lemma accepted_owns_step (hI : Inv s) (h : Intact s) (hs : a.SparesSock) (hg : guard s a)
    (fd k : ℕ) (hm : (effect s a).main = .accepted fd k) :
    (effect s a).table fd = some (.connection k) := by
  cases a with
  | accept g =>
      simp only [effect, MainPc.accepted.injEq] at hm ⊢
      obtain ⟨rfl, rfl⟩ := hm
      exact update_self _ _ _
  | construct f j g => simp [effect] at hm
  | moveIntoConnections f j => simp [effect] at hm
  | deleteConnection f => exact h.accepted fd k hm
  | channelDtor j o =>
      have hm' : s.main = .accepted fd k := (closeFd_main s j o.channelFd).symm.trans hm
      have hown := h.accepted fd k hm'
      obtain ⟨g, hgfd, hgown⟩ := h.owns j o hg.1 hg.2.2
      have hfg : fd ≠ g := by
        rintro rfl
        rw [hown, Option.some.injEq, Owner.connection.injEq] at hgown
        rw [← hgown] at hg
        exact absurd ((hI.accepted fd k hm').2.symm.trans hg.1) (by simp)
      simp only [effect, hgfd, State.closeFd]
      rw [update_of_ne hfg, hown]
  | sockDtor j o => exact absurd rfl (hs j o)

/-- The channel of a connection closes a descriptor the connection owns. -/
lemma closes_step (h : Intact s) (hs : a.SparesSock) (hg : guard s a) :
    ∀ c ∈ (effect s a).closes, c.Own := by
  cases a with
  | channelDtor k o =>
      obtain ⟨fd, hfd, hown⟩ := h.owns k o hg.1 hg.2.2
      simp only [effect, hfd, State.closeFd]
      intro c hc
      rcases List.mem_append.mp hc with hc | hc
      · exact h.closes c hc
      · rw [List.mem_singleton.mp hc]
        exact hown
  | sockDtor k o => exact absurd rfl (hs k o)
  | _ => exact h.closes

theorem intact_step (hI : Inv s) (h : Intact s) (hs : a.SparesSock) (hg : guard s a) :
    Intact (effect s a) where
  owns := owns_step h hs hg
  accepted := accepted_owns_step hI h hs hg
  closes := closes_step h hs hg

/-! ## Once a `sock_` is destroyed -/

lemma closes_effect (s : State) (a : Action) : s.closes <+: (effect s a).closes := by
  cases a with
  | channelDtor k o => exact closeFd_closes s k o.channelFd
  | sockDtor k o => exact closeFd_closes s k o.sockFd
  | _ => exact List.prefix_rfl

/-- What the destruction of `sock_` closes is not the connection's any more: its channel has
closed that. -/
theorem sockDtor_not_own (h : Inv s) {k : ℕ} {o : Object} (hg : guard s (.sockDtor k o)) :
    ∃ c ∈ (effect s (.sockDtor k o)).closes, ¬ c.Own := by
  obtain ⟨fd, hfd⟩ := h.sock k o hg.1 (by rw [hg.2]; simp)
  refine ⟨⟨k, fd, s.table fd⟩, by simp [effect, hfd, State.closeFd], fun hown => ?_⟩
  rcases h.owner fd k hown with hacc | ⟨o', ho', hphase, -⟩
  · exact absurd ((h.accepted fd k hacc).2.symm.trans hg.1) (by simp)
  · rw [hg.1, Option.some.injEq] at ho'
    rw [← ho', hg.2] at hphase
    simp at hphase

/-- What has been closed stays closed, whoever owned it. -/
lemma closes_run {s' : State} {as : List Action} (hrun : machine.run s as = some s') :
    s.closes <+: s'.closes := by
  refine Machine.run_rel (R := fun s s' => s.closes <+: s'.closes) (fun _ => List.prefix_rfl)
    (fun s a t s' hst ht => ?_) as hrun
  obtain ⟨-, rfl⟩ := Machine.guarded_step_eq_some.mp hst
  exact (closes_effect s a).trans ht

/-- A run that destroys a `sock_` closes a descriptor that is not the connection's: by induction
on the run, up to the first such step. -/
lemma sockDtor_run {k : ℕ} {o : Object} :
    ∀ {s s' : State} (as : List Action), Inv s → machine.run s as = some s' →
      Action.sockDtor k o ∈ as → ∃ c ∈ s'.closes, ¬ c.Own
  | s, s', a :: as, h, hr, hmem => by
      obtain ⟨t, hst, hrun⟩ := Machine.run_cons_eq_some.mp hr
      obtain ⟨hg, rfl⟩ := Machine.guarded_step_eq_some.mp hst
      rcases List.mem_cons.mp hmem with rfl | hlater
      · obtain ⟨c, hc, hown⟩ := sockDtor_not_own h hg
        exact ⟨c, (closes_run hrun).subset hc, hown⟩
      · exact sockDtor_run as (inv_step h hg) hrun hlater

/-! ## The result -/

/-- **When every close is of an owned descriptor.**  For every run, over any number of
connections and any interleaving of accepts and destructions: each descriptor a destruction closes
is still owned by the connection destroyed, exactly when no destruction gets as far as `sock_`. -/
theorem own_closes_iff {s s' : State} (hs : machine.Init s) (as : List Action)
    (hrun : machine.run s as = some s') :
    (∀ c ∈ s'.closes, c.Own) ↔ ∀ k o, Action.sockDtor k o ∉ as := by
  obtain ⟨table, rfl, htable⟩ := hs
  have hinv : Inv { table } := inv_init htable
  constructor
  · intro hown k o hmem
    obtain ⟨c, hc, hnot⟩ := sockDtor_run as hinv hrun hmem
    exact hnot (hown c hc)
  · intro hspare
    have hintact : Intact { table } := ⟨by simp, by simp, by simp⟩
    have halong : machine.Along (fun _ a => Action.SparesSock a) { table } as :=
      Machine.along_of_forall as fun a ha k o heq => hspare k o (heq ▸ ha)
    refine (Machine.run_guarded (I := fun s => Inv s ∧ Intact s) (fun s a s' hI hP hst => ?_) as
      ⟨hinv, hintact⟩ halong hrun).2.closes
    obtain ⟨hg, rfl⟩ := Machine.guarded_step_eq_some.mp hst
    exact ⟨inv_step hI.1 hg, intact_step hI.1 hI.2 hP hg⟩

/-- Descriptors 0 to 4 are open before the first `accept`. -/
def standard : State := { table := fun fd => if fd < 5 then some .other else none }

lemma init_standard : machine.Init standard := by
  refine ⟨_, rfl, fun fd k => ?_⟩
  show (if fd < 5 then some Owner.other else none) ≠ some (.connection k)
  split <;> simp

/-- A connection is accepted, deleted, and its channel destroyed. -/
def untilChannel : List Action :=
  [.accept 5, .construct 5 0 6, .moveIntoConnections 5 0, .deleteConnection 5,
    .channelDtor 0 { sockFd := some 5, channelFd := some 5, held := false }]

theorem own_closes_iff_untilChannel :
    ∃ s', machine.run standard untilChannel = some s' ∧ s'.closes.length = 1 ∧
      ∀ c ∈ s'.closes, c.Own := by
  obtain ⟨s', hrun, hlen⟩ := (Option.any_eq_true (fun s : State => decide (s.closes.length = 1))
    (machine.run standard untilChannel)).mp (by decide)
  refine ⟨s', hrun, of_decide_eq_true hlen, ?_⟩
  exact (own_closes_iff init_standard untilChannel hrun).mpr (by simp [untilChannel])

/-- The same, and another connection gets the number before the destruction goes on. -/
def withReuse : List Action :=
  untilChannel ++ [.accept 5, .construct 5 1 7, .moveIntoConnections 5 1,
    .sockDtor 0 { sockFd := some 5, channelFd := none, held := false, phase := .channelGone }]

/-- The second close of the first connection closes the descriptor of the second, which is
alive. -/
theorem closes_stranger :
    ¬ ∀ (s s' : State) (as : List Action), machine.Init s → machine.run s as = some s' →
      ∀ c ∈ s'.closes, c.Own := by
  intro h
  obtain ⟨s', hrun, hmem⟩ := (Option.any_eq_true
    (fun s : State => decide (⟨0, 5, some (.connection 1)⟩ ∈ s.closes))
    (machine.run standard withReuse)).mp (by decide)
  have hown := h standard s' withReuse init_standard hrun _ (of_decide_eq_true hmem)
  exact absurd hown (by simp [Close.Own])

end CppServer.Descriptors
