import CppServer.Http.Registries
import CppServer.Server.Distribution

/-!
# The HTTP server uses up its descriptors

The manager of `http_server.cpp` keeps a shared pointer to every connection it has been told of.
So no connection is ever destroyed, and its own descriptor stays open along with the one its
constructor leaves behind: of all descriptors the kernel has ever returned, none is closed
(`all_stay_open`).
-/

namespace CppServer

namespace Registry

open Function (update update_self update_of_ne)

variable {n : ℕ} {s : State} {a : Action} {fd k : ℕ}

/-- The descriptors of connections after one of them may have gone. -/
lemma Kernel.connection_of_release (h : Kernel n s) {j : ℕ}
    (hconn : (s.release j).table fd = some (.connection k)) :
    s.table fd = some (.connection k) := by
  rcases h.release_eq j with ⟨c, -, -, heq⟩ | ⟨-, heq⟩
  · rw [heq] at hconn
    by_cases hfd : fd = c.val.sockFd
    · simp [State.close, hfd] at hconn
    · simpa only [State.close, update_of_ne hfd] using hconn
  · rwa [heq] at hconn

/-- A connection's descriptor was open before the step, or the kernel has just returned it. -/
lemma connection_step (h : Inv n s) (hg : guard n s a)
    (hconn : (effect n s a).table fd = some (.connection k)) :
    s.table fd = some (.connection k) ∨ fd ∈ a.opens := by
  have quiet (hopens : a.opens = []) : s.table fd = some (.connection k) := by
    rcases not_accept_cases h hopens with heq | ⟨j, rfl⟩ | ⟨t, j, hkernel, htable, -, -, heq⟩
    · rwa [heq] at hconn
    · exact hconn
    · rw [heq] at hconn
      rw [← htable]
      exact hkernel.connection_of_release hconn
  cases a with
  | newConnection fd' g =>
      cases g with
      | none =>
          by_cases hf : fd = fd'
          · exact .inr (by simp [Action.opens, hf])
          · simp only [effect, State.newConnection, update_of_ne hf] at hconn
            exact .inl hconn
      | some g =>
          simp only [effect, h.newConnection_eq hg.2.1] at hconn
          by_cases hfg : fd = g
          · exact .inr (by simp [Action.opens, hfg])
          · by_cases hf : fd = fd'
            · exact .inr (by simp [Action.opens, hf])
            · rw [update_of_ne hfg, update_of_ne hf] at hconn
              exact .inl hconn
  | deleteConnection x => exact .inl (quiet rfl)
  | retain j => exact .inl (quiet rfl)
  | drop j => exact .inl (quiet rfl)

end Registry

namespace Http.Registries

variable {n limit : ℕ} {s s' : State} {a : Action}

/-- The descriptors the kernel returns in a step. -/
def Action.opens : Action → List ℕ
  | .newConnection fd g => (Registry.Action.newConnection fd g).opens
  | _ => []

/-- What holds while the kernel returns descriptors below `limit`, and `total` of them so far. -/
structure Spent (limit total : ℕ) (s : State) : Prop where
  below : ∀ fd k, s.server.table fd = some (.connection k) → fd < limit
  total : (s.server.staying limit).card + s.server.next = total

/-- A descriptor more for good, and one for the connection. -/
lemma spent_step (h : Inv n s) {total : ℕ} (hs : Spent limit total s)
    (hst : (machine n).step s a = some s') (hlimit : ∀ fd ∈ a.opens, fd < limit) :
    Spent limit (total + a.opens.length) s' := by
  rcases step_cases hst with ⟨fd, rfl, hg, rfl⟩ | ⟨fd, g, rfl, hg, rfl⟩ | ⟨x, rfl, rfl⟩ |
    ⟨k, handle, http, rfl, -, rfl⟩
  · refine ⟨fun f k hf => ?_, ?_⟩
    · rcases Registry.connection_step h.server hg hf with hold | hnew
      · exact hs.below f k hold
      · exact hlimit f hnew
    · have hcard := Registry.staying_card_step h.server hg hlimit
      have htotal := hs.total
      simp only [Registry.Action.leaked, Option.toList_some, List.length_singleton] at hcard
      have hnext : (Registry.effect n s.server (.newConnection fd none)).next = s.server.next :=
        rfl
      simp only [Action.opens, Registry.Action.opens, List.length_singleton, hnext]
      omega
  · have hinv := Registry.inv_step h.server hg
    obtain ⟨hnext, -⟩ := connect_eq h.server hg
    refine ⟨fun f k hf => ?_, ?_⟩
    · rcases Registry.connection_step h.server hg hf with hold | hnew
      · exact hs.below f k hold
      · exact hlimit f hnew
    · have hcard := Registry.staying_card_step h.server hg hlimit
      have htotal := hs.total
      simp only [Registry.Action.leaked, Option.toList_some, List.length_singleton] at hcard
      rw [hnext]
      simp only [Action.opens, Registry.Action.opens, List.length_cons, List.length_nil]
      change (Registry.State.staying
        (Registry.effect n s.server (.newConnection fd (some g))) limit).card + _ = _
      omega
  · refine ⟨fun f k hf => ?_, ?_⟩
    · rcases Registry.connection_step (a := .deleteConnection x) h.server trivial hf with
        hold | hnew
      · exact hs.below f k hold
      · simp [Registry.Action.opens] at hnew
    · have hnone : ∀ fd ∈ (Registry.Action.deleteConnection x).opens, fd < limit := by
        simp [Registry.Action.opens]
      have hcard := Registry.staying_card_step (a := .deleteConnection x) h.server trivial hnone
      have hnext := (deleteConnection_next s.server x).1
      have htotal := hs.total
      simp only [Registry.Action.leaked, Option.toList_none, List.length_nil, Registry.effect]
        at hcard
      simp only [Action.opens, List.length_nil]
      omega
  · exact ⟨hs.below, hs.total⟩

lemma spent_run : ∀ {s : State} {total : ℕ} (as : List Action), Inv n s → Spent limit total s →
    (machine n).run s as = some s' → (∀ a ∈ as, ∀ fd ∈ a.opens, fd < limit) →
    Spent limit (total + (as.map fun a => a.opens.length).sum) s' := by
  intro s total as
  induction as generalizing s total with
  | nil =>
      intro _ hs hr _
      rw [Machine.run_nil, Option.some.injEq] at hr
      exact hr ▸ hs
  | cons a as ih =>
      intro h hs hr hlimit
      obtain ⟨t, hst, hrun⟩ := Machine.run_cons_eq_some.mp hr
      rw [List.forall_mem_cons] at hlimit
      rw [List.map_cons, List.sum_cons, ← Nat.add_assoc]
      exact ih (inv_step h hst) (spent_step h hs hst hlimit.1) hrun hlimit.2

/-- Each connection there ever was has its own descriptor still. -/
lemma next_le_living (h : Inv n s) {total : ℕ} (hs : Spent limit total s) :
    s.server.next ≤ (s.server.living limit).card := by
  have halive : ∀ k < s.server.next, ∃ c, s.server.object k = some c := fun k hk =>
    Option.isSome_iff_exists.mp (h.server.isSome_iff.mpr (.inr (h.held k hk)))
  let fdOf (k : ℕ) : ℕ := (s.server.object k).elim 0 fun c => c.val.sockFd
  have howner : ∀ k < s.server.next, s.server.table (fdOf k) = some (.connection k) := by
    intro k hk
    obtain ⟨c, hc⟩ := halive k hk
    simp only [fdOf, hc, Option.elim_some]
    exact (h.server.live k c hc).owner
  have hcard := Finset.card_le_card_of_injOn (s := Finset.range s.server.next)
    (t := s.server.living limit) fdOf ?_ ?_
  · rwa [Finset.card_range] at hcard
  · intro k hk
    have hk := howner k (Finset.mem_range.mp hk)
    rw [Finset.mem_coe, Registry.State.living, Finset.mem_filter, Finset.mem_range]
    exact ⟨hs.below _ k hk, by rw [hk]; rfl⟩
  · intro k hk j hj heq
    have hk := howner k (Finset.mem_range.mp hk)
    have hj := howner j (Finset.mem_range.mp hj)
    rw [heq, hj] at hk
    simpa using hk.symm

/-- **No descriptor is ever closed.**  For every run of the HTTP server in which the kernel returns
descriptors below `limit` only, whatever connections are deleted: those that were open before and
all that were returned in the run are together no more than the limit. -/
theorem all_stay_open {s₀ : State} (h₀ : (machine n).Init s₀) (as : List Action)
    (hrun : (machine n).run s₀ as = some s) (hlimit : ∀ a ∈ as, ∀ fd ∈ a.opens, fd < limit) :
    (s₀.server.staying limit).card + (as.map fun a => a.opens.length).sum ≤ limit := by
  have hinit : Inv n s₀ := inv_init h₀
  have h : Inv n s := inv_inductive.run as hinit hrun
  have hspent : Spent limit (s₀.server.staying limit).card s₀ := by
    refine ⟨fun fd k hk => absurd hk (h₀.1.owner fd k), ?_⟩
    rw [h₀.1.fresh]
    rfl
  have hs := spent_run as hinit hspent hrun hlimit
  have hliving := next_le_living h hs
  have hroom := Registry.staying_add_living_le s.server limit
  have htotal := hs.total
  omega

/-- With room for three descriptors: the first connection is deleted, and the second one's
`socket()` fails. -/
def roomForThree : List Action :=
  [.newConnection 5 (some 6), .deleteConnection 5, .newConnection 7 none]

theorem all_stay_open_roomForThree :
    ∃ s, (machine 4).run { server := Registry.standard } roomForThree = some s ∧
      s.server.connections 5 = none ∧
      (Registry.standard.staying 8).card + 3 ≤ 8 := by
  obtain ⟨s, hrun, hgone⟩ := (Option.any_eq_true
    (fun s : State => decide (s.server.connections 5 = none))
    ((machine 4).run { server := Registry.standard } roomForThree)).mp (by decide)
  exact ⟨s, hrun, of_decide_eq_true hgone, all_stay_open init_standard roomForThree hrun (by decide)⟩

end Http.Registries

end CppServer
