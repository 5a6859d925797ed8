import CppServer.Server.Publication

/-!
# When an event meets a half-registered connection

A connection is what the statements of `NewConnection` that have run so far have made of it
(`Inv.built`), and the last of them is the one that finishes it.  So the read path finds a
finished connection exactly when `NewConnection` is not at work on it (`published_iff`).

* `published_iff_not_underWay` — along every run: the read path only ever runs on finished
  connections exactly when it never runs on one that `NewConnection` is at work on; and it never
  does if each connection's data arrives only after its `NewConnection` has returned.
* `handled_half_registered` — nothing in the code enforces that.  One byte behind `EnableRead` is
  enough: its sub reactor calls an unset `std::function`, and its loop is over.
-/

namespace CppServer.Publication

open Function (update update_self update_of_ne)

/-! ## What a series of statements leaves -/

lemma exec_announced (c : Nascent) (st : Statement) :
    (st.exec c).announced = (c.announced || decide (st = .callOnConnection)) := by
  cases st <;> simp [Statement.exec]

/-- Only the last statement makes the connection's on_connection callback return. -/
lemma after_announced (c : Nascent) (done : List Statement) :
    (c.after done).announced = (c.announced || decide (.callOnConnection ∈ done)) := by
  induction done generalizing c with
  | nil => simp [Nascent.after]
  | cons st done ih =>
      rw [Nascent.after, List.foldl_cons, ← Nascent.after, ih, exec_announced, Bool.or_assoc]
      congr 1
      rw [← Bool.decide_or]
      simp [eq_comm]

lemma after_append (c : Nascent) (done : List Statement) (st : Statement) :
    c.after (done ++ [st]) = st.exec (c.after done) := by
  simp [Nascent.after]

/-- **Finished means that nothing is still to come.** -/
theorem published_after {fd : ℕ} {done rest : List Statement} (h : done ++ rest = newConnection) :
    ((Nascent.start fd).after done).Published ↔ rest = [] := by
  constructor
  · intro hp
    have hann := hp.announced
    rw [after_announced, Nascent.start, Bool.false_or, decide_eq_true_eq] at hann
    by_contra hrest
    have hlast : done ++ rest.dropLast = newConnection.dropLast := by
      rw [← h, List.dropLast_append_of_ne_nil hrest]
    have hmem : Statement.callOnConnection ∈ newConnection.dropLast := by
      rw [← hlast]
      exact List.mem_append_left _ hann
    exact absurd hmem (by decide)
  · rintro rfl
    rw [List.append_nil] at h
    subst h
    exact ⟨rfl, rfl, rfl, rfl, rfl, rfl⟩

/-! ## The invariant -/

/-- The statements of `NewConnection` still to come for a descriptor. -/
def State.remaining (s : State) (fd : ℕ) : List Statement :=
  match s.main with
  | some (g, rest) => if g = fd then rest else []
  | none => []

/-- What holds in every reachable state. -/
structure Inv (s : State) : Prop where
  built : ∀ fd c, s.conn fd = some c →
    ∃ done, done ++ s.remaining fd = newConnection ∧ c = (Nascent.start fd).after done
  busy : ∀ fd rest, s.main = some (fd, rest) → rest ≠ []
  data : ∀ fd, s.hasData fd = true → s.conn fd ≠ none
  pending : ∀ r, ∀ fd ∈ (s.sub r).pending, s.conn fd ≠ none

theorem inv_init : Inv {} where
  built := by simp
  busy := by simp
  data := by simp
  pending := by simp [SubPc.pending]

variable {n : ℕ} {s : State} {a : Action}

lemma Inv.underWay_iff (h : Inv s) (fd : ℕ) : s.underWay fd ↔ s.remaining fd ≠ [] := by
  unfold State.underWay State.remaining
  cases hm : s.main with
  | none => simp
  | some p =>
      obtain ⟨g, rest⟩ := p
      have hne := h.busy g rest hm
      by_cases hg : g = fd
      · subst hg
        simp [hne]
      · simp [hg]

/-- A handler misses nothing exactly on a connection that `NewConnection` is not at work on. -/
theorem Inv.published_iff (h : Inv s) {fd : ℕ} {c : Nascent} (hc : s.conn fd = some c) :
    c.Published ↔ ¬ s.underWay fd := by
  obtain ⟨done, hdone, rfl⟩ := h.built fd c hc
  rw [published_after hdone, h.underWay_iff, not_not]

/-- The channels a sub reactor has to deal with after a step are those it had before, or it has
just polled them. -/
lemma pending_effect {r fd : ℕ} (hg : guard n s a) (hmem : fd ∈ ((effect s a).sub r).pending) :
    fd ∈ (s.sub r).pending ∨ s.hasData fd = true := by
  -- a step of reactor `q` after which it has to deal with no more than before
  have keep : ∀ {q : ℕ} {pc : SubPc}, pc.pending ⊆ (s.sub q).pending →
      fd ∈ (update s.sub q pc r).pending → fd ∈ (s.sub r).pending := by
    intro q pc hsub hin
    by_cases hrq : r = q
    · subst hrq
      rw [update_self] at hin
      exact hsub hin
    · rwa [update_of_ne hrq] at hin
  have hafter : ∀ (mask : UInt32) (rest : List (ℕ × UInt32)),
      (afterRead mask rest).pending ⊆ rest.map Prod.fst := by
    intro mask rest
    unfold afterRead
    split
    · simp [SubPc.pending]
    · exact fun _ hx => hx
  cases a with
  | poll q batch =>
      obtain ⟨hpolling, -, -, hready⟩ := hg
      simp only [effect] at hmem
      by_cases hrq : r = q
      · subst hrq
        rw [update_self] at hmem
        obtain ⟨event, hevent, rfl⟩ := List.mem_map.mp hmem
        have := List.all_eq_true.mp hready event hevent
        simp only [State.ready, Bool.and_eq_true] at this
        exact .inr this.1.2
      · rw [update_of_ne hrq] at hmem
        exact .inl hmem
  | handle q g mask rest =>
      have hq : s.sub q = .dispatching ((g, mask) :: rest) := hg
      refine .inl (keep ?_ hmem)
      rw [hq]
      split
      · split
        · exact fun _ hx => hx
        · simp [SubPc.pending]
      · exact fun _ hx => List.mem_cons_of_mem _ (hafter mask rest hx)
  | endOfBatch q => exact .inl (keep (by simp [SubPc.pending]) hmem)
  | read q g mask rest =>
      have hq : s.sub q = .reading g mask rest := hg
      exact .inl (keep (by rw [hq]; exact fun _ hx => hx) hmem)
  | message q g mask rest =>
      have hq : s.sub q = .messaging g mask rest := hg
      refine .inl (keep ?_ hmem)
      rw [hq]
      split
      · exact fun _ hx => List.mem_cons_of_mem _ (hafter mask rest hx)
      · simp [SubPc.pending]
  | _ => exact .inl hmem

/-- A descriptor that is known stays known. -/
lemma conn_effect {fd : ℕ} (h : s.conn fd ≠ none) : (effect s a).conn fd ≠ none := by
  cases a with
  | accept g =>
      simp only [effect]
      by_cases hg : fd = g
      · subst hg
        simp
      · rwa [update_of_ne hg]
  | build g st rest =>
      simp only [effect]
      by_cases hg : fd = g
      · subst hg
        simpa using h
      · rwa [update_of_ne hg]
  | _ => exact h

/-- Each statement moves the connection it is for one on, and no other. -/
lemma built_step (h : Inv s) (hg : guard n s a) (fd : ℕ) (c : Nascent)
    (hc : (effect s a).conn fd = some c) :
    ∃ done, done ++ (effect s a).remaining fd = newConnection ∧
      c = (Nascent.start fd).after done := by
  cases a with
  | accept g =>
      obtain ⟨-, hmain, hnone⟩ := hg
      by_cases hfg : fd = g
      · subst hfg
        simp only [effect, update_self, Option.some.injEq] at hc
        exact ⟨[], by simp [effect, State.remaining], by rw [← hc]; rfl⟩
      · simp only [effect, update_of_ne hfg] at hc
        obtain ⟨done, hdone, hc'⟩ := h.built fd c hc
        refine ⟨done, ?_, hc'⟩
        rw [State.remaining, hmain] at hdone
        simpa [effect, State.remaining, Ne.symm hfg] using hdone
  | build g st rest =>
      have hmain : s.main = some (g, st :: rest) := hg
      by_cases hfg : fd = g
      · subst hfg
        simp only [effect, update_self, Option.map_eq_some_iff] at hc
        obtain ⟨c₀, hc₀, rfl⟩ := hc
        obtain ⟨done, hdone, rfl⟩ := h.built fd c₀ hc₀
        refine ⟨done ++ [st], ?_, (after_append _ _ _).symm⟩
        rw [State.remaining, hmain] at hdone
        by_cases hrest : rest = []
        · subst hrest
          simpa [effect, State.remaining] using hdone
        · simpa [effect, State.remaining, hrest] using hdone
      · simp only [effect, update_of_ne hfg] at hc
        obtain ⟨done, hdone, hc'⟩ := h.built fd c hc
        refine ⟨done, ?_, hc'⟩
        rw [State.remaining, hmain] at hdone
        by_cases hrest : rest = []
        · simpa [effect, State.remaining, hrest, Ne.symm hfg] using hdone
        · simpa [effect, State.remaining, hrest, Ne.symm hfg] using hdone
  | _ => exact h.built fd c hc

theorem inv_step (h : Inv s) (hg : guard n s a) : Inv (effect s a) where
  built := built_step h hg
  busy fd rest hm := by
    cases a with
    | accept g =>
        simp only [effect, Option.some.injEq, Prod.mk.injEq] at hm
        rw [← hm.2]
        simp [newConnection]
    | build g st rest' =>
        simp only [effect] at hm
        split at hm
        · simp at hm
        · rename_i hne
          simp only [Option.some.injEq, Prod.mk.injEq] at hm
          exact hm.2 ▸ hne
    | _ => exact h.busy fd rest hm
  data fd hd := by
    refine conn_effect ?_
    cases a with
    | send g =>
        by_cases hfg : fd = g
        · subst hfg
          exact hg
        · simp only [effect, update_of_ne hfg] at hd
          exact h.data fd hd
    | read q g mask rest =>
        by_cases hfg : fd = g
        · subst hfg
          simp [effect] at hd
        · simp only [effect, update_of_ne hfg] at hd
          exact h.data fd hd
    | _ => exact h.data fd hd
  pending r fd hmem := by
    refine conn_effect ?_
    rcases pending_effect hg hmem with hold | hd
    · exact h.pending r fd hold
    · exact h.data fd hd

theorem inv_inductive : (machine n).Inductive Inv :=
  Machine.guarded_inductive (fun _ hs => hs ▸ inv_init) fun _ _ => inv_step

/-! ## Along a run -/

/-- The step is `HandleEvent` running the read path of a connection. -/
def HandlesRead (s : State) (a : Action) (fd : ℕ) : Prop :=
  ∃ r mask rest, a = .handle r fd mask rest ∧ s.sub r = .dispatching ((fd, mask) :: rest) ∧
    wantsRead mask = true

/-- If the step runs a read path, it finds the connection finished. -/
def FindsPublished (s : State) (a : Action) : Prop :=
  ∀ fd, HandlesRead s a fd → ∃ c, s.conn fd = some c ∧ c.Published

/-- If the step runs a read path, `NewConnection` is not at work on the connection. -/
def OutsideNewConnection (s : State) (a : Action) : Prop :=
  ∀ fd, HandlesRead s a fd → ¬ s.underWay fd

/-- If data arrives, `NewConnection` is not at work on the connection. -/
def DataAfterwards (s : State) (a : Action) : Prop :=
  ∀ fd, a = .send fd → ¬ s.underWay fd

lemma findsPublished_iff (h : Inv s) (a : Action) :
    FindsPublished s a ↔ OutsideNewConnection s a := by
  refine forall_congr' fun fd => imp_congr_right fun hread => ?_
  obtain ⟨r, mask, rest, -, hsub, -⟩ := hread
  have hconn : s.conn fd ≠ none := h.pending r fd (by rw [hsub]; simp [SubPc.pending])
  obtain ⟨c, hc⟩ := Option.ne_none_iff_exists'.mp hconn
  constructor
  · rintro ⟨c', hc', hp⟩
    exact (h.published_iff hc').mp hp
  · exact fun hnot => ⟨c, hc, (h.published_iff hc).mpr hnot⟩

/-- `NewConnection` comes to work only on a descriptor it has just been given. -/
lemma underWay_effect {fd : ℕ} (hg : guard n s a) (hu : (effect s a).underWay fd) :
    s.underWay fd ∨ s.conn fd = none := by
  obtain ⟨rest, hm⟩ := hu
  cases a with
  | accept g =>
      simp only [effect, Option.some.injEq, Prod.mk.injEq] at hm
      exact .inr (hm.1 ▸ hg.2.2)
  | build g st rest' =>
      simp only [effect] at hm
      split at hm
      · simp at hm
      · simp only [Option.some.injEq, Prod.mk.injEq] at hm
        exact .inl ⟨st :: rest', hm.1 ▸ hg⟩
  | _ => exact .inl ⟨rest, hm⟩

/-- What is pending, or could be polled, is finished. -/
def Settled (s : State) : Prop :=
  ∀ fd, (s.hasData fd = true ∨ ∃ r, fd ∈ (s.sub r).pending) → ¬ s.underWay fd

lemma settled_step (h : Inv s) (hs : Settled s) (hd : DataAfterwards s a) (hg : guard n s a) :
    Settled (effect s a) := by
  intro fd hfd hu
  -- the connection was known before the step, so `NewConnection` was at work on it already
  have hold : s.hasData fd = true ∨ (∃ r, fd ∈ (s.sub r).pending) ∨ a = .send fd := by
    rcases hfd with hdata | ⟨r, hmem⟩
    · cases a with
      | send g =>
          by_cases hfg : fd = g
          · exact .inr (.inr (by rw [hfg]))
          · simp only [effect, update_of_ne hfg] at hdata
            exact .inl hdata
      | read q g mask rest =>
          by_cases hfg : fd = g
          · subst hfg
            simp [effect] at hdata
          · simp only [effect, update_of_ne hfg] at hdata
            exact .inl hdata
      | _ => exact .inl hdata
    · rcases pending_effect hg hmem with hin | hdata
      · exact .inr (.inl ⟨r, hin⟩)
      · exact .inl hdata
  have hknown : s.conn fd ≠ none := by
    rcases hold with hdata | ⟨r, hin⟩ | rfl
    · exact h.data fd hdata
    · exact h.pending r fd hin
    · exact hg
  have hu' : s.underWay fd := (underWay_effect hg hu).resolve_right hknown
  rcases hold with hdata | hin | hsend
  · exact hs fd (.inl hdata) hu'
  · exact hs fd (.inr hin) hu'
  · exact hd fd hsend hu'

/-- **When every event meets a finished connection.**  Along every run of any number of
connections: each read path that runs finds its connection finished, exactly when none of them
runs on a connection that `NewConnection` is still at work on.  It is enough that no data arrives
for a connection before its `NewConnection` has returned. -/
theorem published_iff_not_underWay (n : ℕ) (as : List Action) :
    ((machine n).Along FindsPublished {} as ↔ (machine n).Along OutsideNewConnection {} as) ∧
    ((machine n).Along DataAfterwards {} as → (machine n).Along FindsPublished {} as) := by
  have hinit : (machine n).Reachable {} := .init rfl
  refine ⟨?_, fun hdata => ?_⟩
  · exact Machine.along_iff (fun s a hs => findsPublished_iff (inv_inductive.reachable hs) a) as
      hinit
  · refine Machine.along_guarded (I := fun s => Inv s ∧ Settled s) (fun s a s' hI hP hst => ?_)
      (fun s a hI _ => ?_) as ⟨inv_init, ?_⟩ hdata
    · obtain ⟨hg, rfl⟩ := Machine.guarded_step_eq_some.mp hst
      exact ⟨inv_step hI.1 hg, settled_step hI.1 hI.2 hP hg⟩
    · refine (findsPublished_iff hI.1 a).mpr fun fd hread => ?_
      obtain ⟨r, mask, rest, -, hsub, -⟩ := hread
      exact hI.2 fd (.inr ⟨r, by rw [hsub]; simp [SubPc.pending]⟩)
    · rintro fd (hd | ⟨r, hmem⟩)
      · simp at hd
      · simp [SubPc.pending] at hmem

/-- The peer's first byte is there when the constructor has registered the channel, and the sub
reactor is faster than the main one. -/
def earlyByte : List Action :=
  [.accept 5, .build 5 .enableRead newConnection.tail, .send 5, .poll 1 [(5, EPOLLIN)]]

/-- With four sub reactors, that byte is handled by a connection without a read callback. -/
theorem handled_half_registered :
    ¬ ∀ (n : ℕ) (as : List Action), (machine n).Along FindsPublished {} as := by
  intro h
  obtain ⟨s, hrun, hs⟩ := (Option.any_eq_true (fun s : State =>
    decide (s.sub 1 = .dispatching [(5, EPOLLIN)]) &&
      (s.conn 5).all fun c => !c.channel.readCallback)
    ((machine 4).run {} earlyByte)).mp (by decide)
  rw [Bool.and_eq_true, decide_eq_true_eq] at hs
  have hfinds : FindsPublished s (.handle 1 5 EPOLLIN []) :=
    (h 4 (earlyByte ++ [.handle 1 5 EPOLLIN []])).next earlyByte hrun
  obtain ⟨c, hc, hp⟩ := hfinds 5 ⟨1, EPOLLIN, [], rfl, hs.1, by decide⟩
  have hunset := hs.2
  rw [hc, Option.all_some, hp.readCallback] at hunset
  exact absurd hunset (by decide)

end CppServer.Publication
