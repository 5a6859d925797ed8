import CppServer.Http.Manager
import CppServer.Server.RegistryCoherence

/-!
# The HTTP server's two registries

The server of `http_server.cpp`: `NewConnection` ends with `HttpManager::OnConnection`, and every
message event with `HttpManager::OnMessage`.  The key of an entry of `http_connections_` is a
shared pointer, so the manager holds every connection it has an entry for.

What `HandleRequest` makes of a parser is left open here: it is part of the action.  Only that
`OnMessage` adds no entry matters.

`DeleteConnection` tells the manager nothing, and the manager has no operation that removes an
entry.  So its keys are all the connections there ever were (`keys_eq`), and none of them is
destroyed (`registries_diverge`).
-/

namespace CppServer.Http.Registries

open Function (update update_self update_of_ne)

structure State where
  server : Registry.State
  http : Manager ℕ := Manager.start

inductive Action where
  | newConnection (fd : ℕ) (g : Option ℕ)
  | deleteConnection (x : ℤ)
  /-- a message event on connection `k`, and what `HandleRequest` makes of its parser -/
  | message (k : ℕ) (handle : HttpParser ℕ → Except Stuck (HttpParser ℕ))

/-- What a step does; `none` if it cannot be taken. -/
def step (n : ℕ) (s : State) : Action → Option State
  | .newConnection fd none =>
      ((Registry.machine n).step s.server (.newConnection fd none)).map fun server =>
        { s with server }
  | .newConnection fd (some g) =>
      -- the new connection, and the copy of its pointer that `RegisterConn` makes
      ((Registry.machine n).run s.server
        [.newConnection fd (some g), .retain s.server.next]).map fun server =>
          { server, http := s.http.onConnection s.server.next }
  | .deleteConnection x =>
      ((Registry.machine n).step s.server (.deleteConnection x)).map fun server =>
        { s with server }
  | .message k handle =>
      -- the channel of a connection exists as long as the connection does
      if (s.server.object k).isSome then
        match s.http.onMessage k handle with
        | .ok http => some { s with http }
        | .error _ => none
      else none

/-- The server of `http_server.cpp` with `n` sub reactors. -/
def machine (n : ℕ) : Machine State Action where
  Init s := Registry.Started s.server ∧ s.http = Manager.start
  step := step n

variable {n : ℕ} {s s' : State} {a : Action}

/-- What a step can do. -/
lemma step_cases (h : step n s a = some s') :
    (∃ fd, a = .newConnection fd none ∧ Registry.guard n s.server (.newConnection fd none) ∧
      s' = { s with server := Registry.effect n s.server (.newConnection fd none) }) ∨
    (∃ fd g, a = .newConnection fd (some g) ∧
      Registry.guard n s.server (.newConnection fd (some g)) ∧
      s' = { server := Registry.effect n (Registry.effect n s.server (.newConnection fd (some g)))
               (.retain s.server.next),
             http := s.http.onConnection s.server.next }) ∨
    (∃ x, a = .deleteConnection x ∧ s' = { s with server := s.server.deleteConnection x }) ∨
    (∃ k handle http, a = .message k handle ∧ s.http.onMessage k handle = .ok http ∧
      s' = { s with http }) := by
  cases a with
  | newConnection fd g =>
      cases g with
      | none =>
          simp only [step, Option.map_eq_some_iff] at h
          obtain ⟨server, hst, rfl⟩ := h
          obtain ⟨hg, rfl⟩ := Machine.guarded_step_eq_some.mp hst
          exact .inl ⟨fd, rfl, hg, rfl⟩
      | some g =>
          simp only [step, Option.map_eq_some_iff] at h
          obtain ⟨server, hrun, rfl⟩ := h
          obtain ⟨t, hst, hrest⟩ := Machine.run_cons_eq_some.mp hrun
          obtain ⟨hg, rfl⟩ := Machine.guarded_step_eq_some.mp hst
          obtain ⟨u, hst', hnil⟩ := Machine.run_cons_eq_some.mp hrest
          obtain ⟨-, rfl⟩ := Machine.guarded_step_eq_some.mp hst'
          rw [Machine.run_nil, Option.some.injEq] at hnil
          exact .inr (.inl ⟨fd, g, rfl, hg, by rw [hnil]⟩)
  | deleteConnection x =>
      simp only [step, Option.map_eq_some_iff] at h
      obtain ⟨server, hst, rfl⟩ := h
      obtain ⟨-, rfl⟩ := Machine.guarded_step_eq_some.mp hst
      exact .inr (.inr (.inl ⟨x, rfl, rfl⟩))
  | message k handle =>
      simp only [step] at h
      split at h
      · cases hm : s.http.onMessage k handle with
        | error e => simp [hm] at h
        | ok http =>
            rw [hm] at h
            simp only [Option.some.injEq] at h
            exact .inr (.inr (.inr ⟨k, handle, http, rfl, hm, h.symm⟩))
      · simp at h

/-- What holds in every reachable state. -/
structure Inv (n : ℕ) (s : State) : Prop where
  server : Registry.Inv n s.server
  keys : ∀ k, (s.http k).isSome ↔ k < s.server.next
  held : ∀ k, k < s.server.next → 0 < s.server.retained k

lemma inv_init (h : (machine n).Init s) : Inv n s := by
  have hnext : s.server.next = 0 := by rw [h.1.fresh]
  refine ⟨Registry.inv_init h.1, fun k => ?_, fun k hk => ?_⟩
  · simp [h.2, Manager.start, hnext]
  · rw [hnext] at hk
    simp at hk

/-- `OnMessage` adds no entry and removes none. -/
lemma onMessage_keys {http http' : Manager ℕ} {k : ℕ}
    {handle : HttpParser ℕ → Except Stuck (HttpParser ℕ)}
    (h : http.onMessage k handle = .ok http') (j : ℕ) : (http' j).isSome = (http j).isSome := by
  unfold Manager.onMessage at h
  cases hk : http k with
  | none =>
      simp only [hk, Except.ok.injEq] at h
      rw [h]
  | some parser =>
      simp only [hk] at h
      cases hp : handle parser with
      | error e => simp [hp, Except.map] at h
      | ok parser' =>
          simp only [hp, Except.map, Except.ok.injEq] at h
          by_cases hj : j = k
          · subst hj
            rw [← h, update_self, hk]
            rfl
          · rw [← h, update_of_ne hj]

/-! ## The steps, as to `connections_` and the number of connections -/

lemma deleteConnection_next (r : Registry.State) (x : ℤ) :
    (r.deleteConnection x).next = r.next ∧ (r.deleteConnection x).retained = r.retained := by
  unfold Registry.State.deleteConnection Registry.State.erase
  split
  · cases r.connections x with
    | none => exact ⟨rfl, rfl⟩
    | some k => exact ⟨Registry.release_next _ k, Registry.release_retained _ k⟩
  · exact ⟨rfl, rfl⟩

lemma deleteConnection_connections (r : Registry.State) (x : ℤ) (hx : x ≠ -1) :
    (r.deleteConnection x).connections = update r.connections x none := by
  simp only [Registry.State.deleteConnection, Registry.State.erase, if_pos hx]
  cases hr : r.connections x with
  | none => exact (show update r.connections x none = r.connections by
      rw [← hr, Function.update_eq_self]).symm
  | some k => exact Registry.release_connections _ k

/-- `NewConnection` and `OnConnection` together. -/
lemma connect_eq (h : Registry.Inv n s.server) {fd g : ℕ}
    (hg : Registry.guard n s.server (.newConnection fd (some g))) :
    let r := Registry.effect n (Registry.effect n s.server (.newConnection fd (some g)))
      (.retain s.server.next)
    r.next = s.server.next + 1 ∧
    r.connections = update s.server.connections fd (some s.server.next) ∧
    r.retained = update s.server.retained s.server.next (s.server.retained s.server.next + 1) ∧
    Registry.Inv n r := by
  have hinv := Registry.inv_step h hg
  have heq : Registry.effect n s.server (.newConnection fd (some g)) = _ :=
    h.newConnection_eq hg.2.1 g
  have hretain : Registry.guard n (Registry.effect n s.server (.newConnection fd (some g)))
      (.retain s.server.next) := by
    rw [heq]
    simp [Registry.guard]
  refine ⟨?_, ?_, ?_, Registry.inv_step hinv hretain⟩ <;> rw [heq] <;> rfl

theorem inv_step (h : Inv n s) (hst : step n s a = some s') : Inv n s' := by
  rcases step_cases hst with ⟨fd, rfl, hg, rfl⟩ | ⟨fd, g, rfl, hg, rfl⟩ | ⟨x, rfl, rfl⟩ |
    ⟨k, handle, http, rfl, hm, rfl⟩
  · exact ⟨Registry.inv_step h.server hg, h.keys, h.held⟩
  · obtain ⟨hnext, -, hretained, hinv⟩ := connect_eq h.server hg
    refine ⟨hinv, fun k => ?_, fun k hk => ?_⟩
    · rw [hnext]
      by_cases hk : k = s.server.next
      · subst hk
        simp [Manager.onConnection_self]
      · show (s.http.onConnection s.server.next k).isSome ↔ _
        rw [Manager.onConnection_of_ne s.http hk, h.keys]
        omega
    · rw [hnext] at hk
      rw [hretained]
      by_cases hkn : k = s.server.next
      · subst hkn
        rw [update_self]
        omega
      · rw [update_of_ne hkn]
        exact h.held k (by omega)
  · obtain ⟨hnext, hretained⟩ := deleteConnection_next s.server x
    refine ⟨Registry.inv_step (a := .deleteConnection x) h.server trivial, fun k => ?_,
      fun k hk => ?_⟩
    · rw [hnext, h.keys]
    · rw [hretained]
      exact h.held k (hnext ▸ hk)
  · refine ⟨h.server, fun j => ?_, h.held⟩
    rw [onMessage_keys hm, h.keys]

theorem inv_inductive : (machine n).Inductive (Inv n) where
  init _ h := inv_init h
  step _ _ _ h hst := inv_step h hst

/-! ## Agreement -/

/-- The two registries have the same connections. -/
def Agree (s : State) : Prop :=
  ∀ k, (s.http k).isSome ↔ ∃ x, s.server.connections x = some k

/-- The step removes a connection from `connections_`. -/
def Removes (s : State) : Action → Prop
  | .deleteConnection x => x ≠ -1 ∧ s.server.connections x ≠ none
  | _ => False

/-- What is registered with the server has been constructed. -/
lemma Inv.registered_lt (h : Inv n s) {x : ℤ} {k : ℕ} (hx : s.server.connections x = some k) :
    k < s.server.next := by
  by_contra hge
  obtain ⟨c, hc⟩ := h.server.exists_object hx
  rw [h.server.unborn k (Nat.not_lt.mp hge)] at hc
  simp at hc

lemma Inv.agree_iff (h : Inv n s) :
    Agree s ↔ ∀ k, k < s.server.next → ∃ x, s.server.connections x = some k := by
  refine ⟨fun hag k hk => (hag k).mp ((h.keys k).mpr hk), fun hall k => ?_⟩
  rw [h.keys k]
  exact ⟨hall k, fun ⟨x, hx⟩ => h.registered_lt hx⟩

/-- A step that removes nothing keeps the registries in agreement. -/
lemma agree_step (h : Inv n s) (hag : Agree s) (hst : step n s a = some s')
    (hr : ¬ Removes s a) : Agree s' := by
  have h' := inv_step h hst
  rw [h.agree_iff] at hag
  rw [h'.agree_iff]
  rcases step_cases hst with ⟨fd, rfl, hg, rfl⟩ | ⟨fd, g, rfl, hg, rfl⟩ | ⟨x, rfl, rfl⟩ |
    ⟨k, handle, http, rfl, hm, rfl⟩
  · exact hag
  · obtain ⟨hnext, hconn, -, -⟩ := connect_eq h.server hg
    intro k hk
    rw [hconn]
    by_cases hkn : k = s.server.next
    · exact ⟨fd, by rw [update_self, hkn]⟩
    · obtain ⟨x, hx⟩ := hag k (by rw [hnext] at hk; omega)
      have hne : x ≠ fd := by
        rintro rfl
        rw [h.server.connections_none hg.2.1] at hx
        simp at hx
      exact ⟨x, by rw [update_of_ne hne, hx]⟩
  · intro k hk
    rw [(deleteConnection_next s.server x).1] at hk
    by_cases hx : x = -1
    · simpa [Registry.State.deleteConnection, hx] using hag k hk
    · have hnone : s.server.connections x = none := by
        by_contra hne
        exact hr ⟨hx, hne⟩
      rw [deleteConnection_connections s.server x hx, ← hnone, Function.update_eq_self]
      exact hag k hk
  · exact hag

/-- A connection that is not registered with the server any more. -/
def Stale (s : State) : Prop :=
  ∃ k, k < s.server.next ∧ ∀ x, s.server.connections x ≠ some k

lemma stale_of_removes (h : Inv n s) (hst : step n s a = some s') (hr : Removes s a) :
    Stale s' := by
  cases a with
  | deleteConnection x =>
      obtain ⟨hx, hne⟩ := hr
      obtain ⟨k, hk⟩ := Option.ne_none_iff_exists'.mp hne
      simp only [step, Option.map_eq_some_iff] at hst
      obtain ⟨server, hst, rfl⟩ := hst
      obtain ⟨-, rfl⟩ := Machine.guarded_step_eq_some.mp hst
      refine ⟨k, ?_, fun y hy => ?_⟩
      · show k < (s.server.deleteConnection x).next
        rw [(deleteConnection_next s.server x).1]
        exact h.registered_lt hk
      · have hy' : (s.server.deleteConnection x).connections y = some k := hy
        rw [deleteConnection_connections s.server x hx] at hy'
        have hyx : y ≠ x := by
          rintro rfl
          simp at hy'
        rw [update_of_ne hyx] at hy'
        obtain ⟨c, hc⟩ := h.server.exists_object hk
        exact hyx ((h.server.registered y k hy' c hc).trans
          (h.server.registered x k hk c hc).symm)
  | _ => exact absurd hr id

/-- Numbers are not given out again, so a stale connection stays stale. -/
lemma stale_step (h : Inv n s) (hstale : Stale s) (hst : step n s a = some s') : Stale s' := by
  obtain ⟨k, hk, hnone⟩ := hstale
  rcases step_cases hst with ⟨fd, rfl, hg, rfl⟩ | ⟨fd, g, rfl, hg, rfl⟩ | ⟨x, rfl, rfl⟩ |
    ⟨j, handle, http, rfl, hm, rfl⟩
  · exact ⟨k, hk, hnone⟩
  · obtain ⟨hnext, hconn, -, -⟩ := connect_eq h.server hg
    refine ⟨k, by rw [hnext]; omega, fun x hx => ?_⟩
    rw [hconn] at hx
    by_cases hxf : x = fd
    · subst hxf
      rw [update_self, Option.some.injEq] at hx
      omega
    · rw [update_of_ne hxf] at hx
      exact hnone x hx
  · refine ⟨k, ?_, fun y hy => ?_⟩
    · show k < (s.server.deleteConnection x).next
      rw [(deleteConnection_next s.server x).1]
      exact hk
    · have hy' : (s.server.deleteConnection x).connections y = some k := hy
      by_cases hx : x = -1
      · exact hnone y (by simpa [Registry.State.deleteConnection, hx] using hy')
      · rw [deleteConnection_connections s.server x hx] at hy'
        by_cases hyx : y = x
        · subst hyx
          simp at hy'
        · rw [update_of_ne hyx] at hy'
          exact hnone y hy'
  · exact ⟨k, hk, hnone⟩

/-- The registries disagree exactly if a connection is stale. -/
lemma Inv.stale_iff (h : Inv n s) : Stale s ↔ ¬ Agree s := by
  rw [h.agree_iff, Stale]
  push Not
  rfl

/-- A step leaves the registries in agreement exactly if they agreed before it and it removes
nothing. -/
lemma agree_step_iff (h : Inv n s) (hst : step n s a = some s') :
    Agree s' ↔ Agree s ∧ ¬ Removes s a := by
  have h' := inv_step h hst
  refine ⟨fun hag' => ⟨?_, fun hrem => ?_⟩, fun ⟨hag, hrem⟩ => agree_step h hag hst hrem⟩
  · by_contra hag
    exact h'.stale_iff.mp (stale_step h (h.stale_iff.mpr hag) hst) hag'
  · exact h'.stale_iff.mp (stale_of_removes h hst hrem) hag'

/-- The registries agree at the end of a run exactly if no step of it removed a connection. -/
lemma agree_run_iff {as : List Action} (h : Inv n s) (hag : Agree s)
    (hrun : (machine n).run s as = some s') :
    Agree s' ↔ (machine n).Along (fun s a => ¬ Removes s a) s as := by
  rw [Machine.run_iff (P := Agree) inv_inductive.step (fun _ _ _ => agree_step_iff) as h hrun]
  exact and_iff_right hag

/-! ## The result -/

/-- **The keys of `http_connections_` are all connections there ever were**, whether the server
still has them or not; and a connection it removes is not destroyed: its descriptor stays open and
in its epoll set.  The two registries agree as long as nothing is removed. -/
theorem registries_diverge {s₀ : State} (h₀ : (machine n).Init s₀) (as : List Action)
    (hrun : (machine n).run s₀ as = some s) :
    (∀ k, (s.http k).isSome ↔ k < s.server.next) ∧
    (∀ x k, s.server.connections x = some k → (s.http k).isSome) ∧
    (Agree s ↔ (machine n).Along (fun s a => ¬ Removes s a) s₀ as) ∧
    (∀ k, (s.http k).isSome → ∃ c, s.server.object k = some c ∧
      Registry.Live n s.server.table s.server.epoll k c.val) := by
  have hinit : Inv n s₀ := inv_init h₀
  have h : Inv n s := inv_inductive.run as hinit hrun
  have hagree : Agree s₀ := by
    rw [hinit.agree_iff]
    intro k hk
    rw [h₀.1.fresh] at hk
    simp at hk
  refine ⟨h.keys, fun x k hx => (h.keys k).mpr (h.registered_lt hx),
    agree_run_iff hinit hagree hrun, fun k hk => ?_⟩
  have hheld : s.server.Held k := .inr (h.held k ((h.keys k).mp hk))
  obtain ⟨c, hc⟩ := Option.isSome_iff_exists.mp (h.server.isSome_iff.mpr hheld)
  exact ⟨c, hc, h.server.live k c hc⟩

/-- One connection comes and goes. -/
def comesAndGoes : List Action := [.newConnection 5 (some 6), .deleteConnection 5]

lemma run_comesAndGoes :
    ∃ s, (machine 4).run { server := Registry.standard } comesAndGoes = some s ∧
      (s.http 0).isSome = true ∧ s.server.connections 5 = none :=
  ⟨_, rfl, rfl, by decide⟩

lemma init_standard : (machine 4).Init { server := Registry.standard } :=
  ⟨Registry.started_standard, rfl⟩

theorem registries_diverge_comesAndGoes :
    ∃ s, (machine 4).run { server := Registry.standard } comesAndGoes = some s ∧
      s.server.connections 5 = none ∧ ∃ c, s.server.object 0 = some c ∧
        Registry.Live 4 s.server.table s.server.epoll 0 c.val := by
  obtain ⟨s, hrun, hkey, hgone⟩ := run_comesAndGoes
  exact ⟨s, hrun, hgone, (registries_diverge init_standard comesAndGoes hrun).2.2.2 0 hkey⟩

/-- The manager keeps an entry for the connection the server has removed. -/
theorem entry_outlives_connection :
    ¬ ∀ (n : ℕ) (s : State), (machine n).Reachable s → Agree s := by
  intro h
  obtain ⟨s, hrun, -⟩ := run_comesAndGoes
  have hs := (Machine.Reachable.init init_standard).run hrun
  have hnot : ¬ (machine 4).Along (fun s a => ¬ Removes s a) { server := Registry.standard }
      comesAndGoes := by
    intro halong
    exact (halong.2 _ rfl).1 ⟨by decide, by decide⟩
  have hagree : Agree { server := Registry.standard } := by
    intro k
    simp [Manager.start, Registry.standard]
  exact hnot ((agree_run_iff (inv_init init_standard) hagree hrun).mp (h 4 s hs))

end CppServer.Http.Registries
