import Mathlib.Data.Int.CardIntervalMod
import Mathlib.Data.Nat.Prime.Basic
import CppServer.Server.DescriptorBalance

/-!
# Which sub reactors get the connections

`NewConnection` chooses the sub reactor `fd % n`.  The kernel returns the lowest descriptor that is
not open, so the choice is as even as the descriptors are; and the constructor of `Connection`
takes a descriptor of its own, which nobody closes.

* `accepts_bounded` — where descriptors have a limit, each accept of the server's whole life counts
  against it, however early its connection is closed.
* `loads` — connections that stay are given every other descriptor.  With an odd number of sub
  reactors they are spread evenly; with an even number half of the sub reactors get none.
* `one_at_a_time` — connections that are closed before the next comes all go to the same one.
-/

namespace CppServer.Registry

open Descriptors (Owner)
open Function (update update_self update_of_ne)

variable {n : ℕ} {s : State} {a : Action} {k : ℕ}

/-! ## A limit on the descriptors -/

/-- The descriptors the kernel returns in a step. -/
def Action.opens : Action → List ℕ
  | .newConnection fd none => [fd]
  | .newConnection fd (some g) => [fd, g]
  | _ => []

/-- The accepts of a run. -/
def accepts (as : List Action) : ℕ := (as.filterMap Action.leaked).length

def Owner.isConnection : Owner → Bool
  | .connection _ => true
  | _ => false

/-- The open descriptors below `limit` that are there for a connection. -/
def State.living (s : State) (limit : ℕ) : Finset ℕ :=
  (Finset.range limit).filter fun fd => (s.table fd).any Owner.isConnection

/-- The others. -/
def State.staying (s : State) (limit : ℕ) : Finset ℕ :=
  (Finset.range limit).filter fun fd => (s.table fd).any fun x => !Owner.isConnection x

variable {limit fd : ℕ}

lemma mem_staying :
    fd ∈ s.staying limit ↔ fd < limit ∧ ∃ x, Owner.Stays x ∧ s.table fd = some x := by
  rw [State.staying, Finset.mem_filter, Finset.mem_range, Option.any_eq_true]
  refine and_congr_right fun _ => exists_congr fun x => ?_
  cases x <;> simp [Owner.isConnection, Owner.Stays]

/-- What an accept leaves open was free before. -/
lemma leaked_free {g : ℕ} (hg : guard n s a) (hleak : a.leaked = some g) :
    s.table g = none ∧ g ∈ a.opens := by
  cases a with
  | newConnection fd g' =>
      obtain ⟨-, hfd, hfree⟩ := hg
      cases g' with
      | none =>
          rw [Action.leaked, Option.some.injEq] at hleak
          exact hleak ▸ ⟨hfd, by simp [Action.opens]⟩
      | some g' =>
          rw [Action.leaked, Option.some.injEq] at hleak
          exact hleak ▸ ⟨(hfree g' rfl).1, by simp [Action.opens]⟩
  | _ => simp [Action.leaked] at hleak

lemma mem_staying_step (h : Inv n s) (hg : guard n s a) (fd : ℕ) :
    fd ∈ (effect n s a).staying limit ↔
      fd ∈ s.staying limit ∨ (a.leaked = some fd ∧ fd < limit) := by
  rw [mem_staying, mem_staying]
  constructor
  · rintro ⟨hlt, x, hx, hopen⟩
    rcases (stays_step h hg fd hx).mp hopen with hold | ⟨hleak, -⟩
    · exact .inl ⟨hlt, x, hx, hold⟩
    · exact .inr ⟨hleak, hlt⟩
  · rintro (⟨hlt, x, hx, hold⟩ | ⟨hleak, hlt⟩)
    · exact ⟨hlt, x, hx, (stays_step h hg fd hx).mpr (.inl hold)⟩
    · exact ⟨hlt, .leaked, trivial,
        (stays_step (x := .leaked) h hg fd trivial).mpr (.inr ⟨hleak, rfl⟩)⟩

/-- **An accept adds one for good**, and nothing else adds or takes away any. -/
lemma staying_card_step (h : Inv n s) (hg : guard n s a) (hlimit : ∀ fd ∈ a.opens, fd < limit) :
    ((effect n s a).staying limit).card
      = (s.staying limit).card + a.leaked.toList.length := by
  cases hleak : a.leaked with
  | none =>
      have heq : (effect n s a).staying limit = s.staying limit := by
        ext fd
        simp [mem_staying_step h hg, hleak]
      rw [heq]
      rfl
  | some g =>
      obtain ⟨hfree, hopens⟩ := leaked_free hg hleak
      have heq : (effect n s a).staying limit = insert g (s.staying limit) := by
        ext fd
        rw [mem_staying_step h hg, Finset.mem_insert, hleak, Option.some.injEq]
        constructor
        · rintro (hold | ⟨rfl, -⟩)
          · exact .inr hold
          · exact .inl rfl
        · rintro (rfl | hold)
          · exact .inr ⟨rfl, hlimit fd hopens⟩
          · exact .inl hold
      have hnew : g ∉ s.staying limit := by
        rw [mem_staying]
        rintro ⟨-, x, -, hx⟩
        rw [hfree] at hx
        simp at hx
      rw [heq, Finset.card_insert_of_notMem hnew]
      rfl

lemma staying_card_run :
    ∀ {s s' : State} (as : List Action), Inv n s → (machine n).run s as = some s' →
      (∀ a ∈ as, ∀ fd ∈ a.opens, fd < limit) →
      (s'.staying limit).card = (s.staying limit).card + accepts as
  | s, s', [], _, hr, _ => by
      rw [Machine.run_nil, Option.some.injEq] at hr
      simp [hr, accepts]
  | s, s', a :: as, h, hr, hlimit => by
      obtain ⟨t, hst, hrun⟩ := Machine.run_cons_eq_some.mp hr
      obtain ⟨hg, rfl⟩ := Machine.guarded_step_eq_some.mp hst
      rw [List.forall_mem_cons] at hlimit
      rw [staying_card_run as (inv_step h hg) hrun hlimit.2, staying_card_step h hg hlimit.1]
      cases hleak : a.leaked with
      | none => simp [accepts, hleak]
      | some g =>
          simp only [accepts, hleak, List.filterMap_cons, List.length_cons, Option.toList_some,
            List.length_nil]
          omega

/-- The two kinds of open descriptors have room below the limit. -/
lemma staying_add_living_le (s : State) (limit : ℕ) :
    (s.staying limit).card + (s.living limit).card ≤ limit := by
  have hdisjoint : Disjoint (s.staying limit) (s.living limit) := by
    rw [State.staying, State.living, Finset.disjoint_filter]
    intro fd _ hstay hlive
    cases hx : s.table fd <;> simp_all
  rw [← Finset.card_union_of_disjoint hdisjoint]
  refine (Finset.card_le_card (Finset.union_subset (Finset.filter_subset _ _)
    (Finset.filter_subset _ _))).trans (Finset.card_range limit).le

/-- **A server accepts finitely many connections in its life.**  Where the kernel returns
descriptors below `limit` only: those that were open before, the accepts of the whole run and the
connections there are at its end are together no more than the limit. -/
theorem accepts_bounded {s₀ : State} (h₀ : Started s₀) (as : List Action)
    (hrun : (machine n).run s₀ as = some s) (hlimit : ∀ a ∈ as, ∀ fd ∈ a.opens, fd < limit) :
    (s₀.staying limit).card + accepts as + (s.living limit).card ≤ limit := by
  rw [← staying_card_run as (inv_init h₀) hrun hlimit]
  exact staying_add_living_le s limit

/-- With room for three descriptors: two connections come and go, and the third one's `socket()`
fails.  Nothing is left. -/
def usedUp : List Action :=
  [.newConnection 5 (some 6), .deleteConnection 5, .newConnection 5 (some 7), .deleteConnection 5,
    .newConnection 5 none]

theorem accepts_bounded_usedUp :
    ∃ s, (machine 4).run standard usedUp = some s ∧ accepts usedUp = 3 ∧
      (standard.staying 8).card + accepts usedUp + (s.living 8).card ≤ 8 := by
  obtain ⟨s, hrun⟩ := Option.isSome_iff_exists.mp
    (show ((machine 4).run standard usedUp).isSome = true by decide)
  exact ⟨s, hrun, by decide, accepts_bounded started_standard usedUp hrun (by decide)⟩

/-! ## The lowest descriptor -/

/-- The kernel returns the lowest descriptor that is not open. -/
def Lowest (s : State) : Action → Prop
  | .newConnection fd g =>
      (∀ f < fd, s.table f ≠ none) ∧ ∀ g' ∈ g, ∀ f < g', f ≠ fd → s.table f ≠ none
  | _ => True

/-- `socket()` does not fail. -/
def Made : Action → Prop
  | .newConnection _ g => g.isSome
  | _ => True

instance : DecidablePred Made
  | .newConnection _ g => inferInstanceAs (Decidable (g.isSome = true))
  | .deleteConnection _ => isTrue trivial
  | .retain _ => isTrue trivial
  | .drop _ => isTrue trivial

/-- The step closes no descriptor. -/
def NoneClosed (n : ℕ) (s : State) (a : Action) : Prop :=
  ∀ fd, s.table fd ≠ none → (effect n s a).table fd ≠ none

/-- An accept takes the lowest two descriptors. -/
lemma lowest_two {first g : ℕ} (hopen : ∀ f, s.table f ≠ none ↔ f < first)
    (hg : guard n s (.newConnection fd (some g))) (hlow : Lowest s (.newConnection fd (some g))) :
    fd = first ∧ g = first + 1 := by
  obtain ⟨-, hfd, hfree⟩ := hg
  obtain ⟨hg, hne⟩ := hfree g rfl
  have hfd' : ¬ fd < first := fun hlt => (hopen fd).mpr hlt hfd
  have hg' : ¬ g < first := fun hlt => (hopen g).mpr hlt hg
  have heq : fd = first := by
    by_contra hlt
    exact absurd ((hopen first).mp (hlow.1 first (by omega))) (lt_irrefl first)
  refine ⟨heq, ?_⟩
  by_contra hlt
  exact absurd ((hopen (first + 1)).mp (hlow.2 g rfl (first + 1) (by omega) (by omega))) (by omega)

/-- A step other than an accept gives up one reference, adds one, or does nothing. -/
lemma not_accept_cases (h : Inv n s) (hopens : a.opens = []) :
    effect n s a = s ∨ (∃ j, a = .retain j) ∨
      ∃ t j, Kernel n t ∧ t.table = s.table ∧ t.object = s.object ∧ t.next = s.next ∧
        effect n s a = t.release j := by
  cases a with
  | newConnection fd g => cases g <;> simp [Action.opens] at hopens
  | deleteConnection x =>
      simp only [effect, State.deleteConnection, State.erase]
      split
      · cases hx : s.connections x with
        | none => exact .inl rfl
        | some j =>
            exact .inr (.inr ⟨{ s with connections := update s.connections x none }, j,
              ⟨h.live, h.owner, h.watched, h.sub, h.unborn, h.legal⟩, rfl, rfl, rfl, rfl⟩)
      · exact .inl rfl
  | retain j => exact .inr (.inl ⟨j, rfl⟩)
  | drop j =>
      exact .inr (.inr ⟨{ s with retained := update s.retained j (s.retained j - 1) }, j,
        ⟨h.live, h.owner, h.watched, h.sub, h.unborn, h.legal⟩, rfl, rfl, rfl, rfl⟩)

/-! ## Connections that stay -/

/-- Connection `k` is on descriptor `first + 2 * k`, and nothing else has been opened but a
descriptor behind each. -/
structure Filled (first : ℕ) (s : State) : Prop where
  table : ∀ fd, s.table fd ≠ none ↔ fd < first + 2 * s.next
  conns : ∀ k < s.next, ∃ c, s.object k = some c ∧ c.val.sockFd = first + 2 * k

/-- The descriptors and the connections are those of the state before. -/
structure Same (s s' : State) : Prop where
  table : ∀ fd, s'.table fd ≠ none ↔ s.table fd ≠ none
  next : s'.next = s.next
  conns : ∀ k c, s.object k = some c → ∃ c', s'.object k = some c' ∧ c'.val = c.val

lemma Same.refl (s : State) : Same s s := ⟨fun _ => Iff.rfl, rfl, fun _ c hc => ⟨c, hc, rfl⟩⟩

lemma close_table {s : State} {f : ℕ} (hf : s.table f = none) (fd : ℕ) :
    (s.close fd).table f = none := by
  change update s.table fd none f = none
  by_cases hfd : f = fd
  · rw [hfd, update_self]
  · rw [update_of_ne hfd, hf]

/-- A reference goes, and no descriptor is closed. -/
lemma Kernel.release_same (h : Kernel n s) {j : ℕ}
    (hkept : ∀ fd, s.table fd ≠ none → (s.release j).table fd ≠ none) : Same s (s.release j) where
  table fd := by
    refine ⟨fun hne hnone => hne ?_, hkept fd⟩
    rcases h.release_eq j with ⟨d, -, -, heq⟩ | ⟨-, heq⟩
    · rw [heq]
      exact close_table hnone _
    · rw [heq]
      exact hnone
  next := release_next s j
  conns k c hc := by
    rw [h.release_object]
    by_cases hkj : k = j
    · subst hkj
      rcases h.release_eq k with ⟨d, hd, -, heq⟩ | ⟨hnone, -⟩
      · -- the descriptor would have been closed
        refine absurd ?_ (hkept d.val.sockFd (by rw [(h.live k d hd).owner]; simp))
        rw [heq]
        exact update_self _ _ _
      · exact ⟨_, RefCount.release_of_dropped_none hc hnone, rfl⟩
    · exact ⟨c, by rw [RefCount.release_of_ne hkj, hc], rfl⟩

/-- Steps that open nothing and close nothing. -/
lemma same_step (h : Inv n s) (hopens : a.opens = []) (hkept : NoneClosed n s a) :
    Same s (effect n s a) := by
  rcases not_accept_cases h hopens with heq | ⟨j, rfl⟩ |
    ⟨t, j, hkernel, htable, hobject, hnext, heq⟩
  · rw [heq]
    exact .refl s
  · refine ⟨fun _ => Iff.rfl, rfl, fun k c hc => ?_⟩
    simp only [effect, RefCount.retain]
    by_cases hkj : k = j
    · subst hkj
      exact ⟨{ c with refs := c.refs + 1 }, by rw [update_self, hc]; rfl, rfl⟩
    · exact ⟨c, by rw [update_of_ne hkj, hc], rfl⟩
  · have hsame := hkernel.release_same (j := j) fun fd hfd => by
      rw [← heq]
      exact hkept fd (htable ▸ hfd)
    rw [heq]
    exact ⟨fun fd => by rw [hsame.table, htable], hsame.next.trans hnext,
      fun k c hc => hsame.conns k c (hobject ▸ hc)⟩

/-- What the loads of the sub reactors are about: the kernel returns the lowest descriptor,
`socket()` does not fail, and no connection goes. -/
def Growing (n : ℕ) (s : State) (a : Action) : Prop := Lowest s a ∧ Made a ∧ NoneClosed n s a

lemma filled_step {first : ℕ} (h : Inv n s) (hf : Filled first s) (hg : guard n s a)
    (hgrow : Growing n s a) : Filled first (effect n s a) := by
  obtain ⟨hlow, hmade, hkept⟩ := hgrow
  have quiet (hopens : a.opens = []) : Filled first (effect n s a) := by
    have hsame := same_step h hopens hkept
    refine ⟨fun fd => ?_, fun k hk => ?_⟩
    · rw [hsame.table, hf.table, hsame.next]
    · rw [hsame.next] at hk
      obtain ⟨c, hc, hfd⟩ := hf.conns k hk
      obtain ⟨c', hc', hval⟩ := hsame.conns k c hc
      exact ⟨c', hc', by rw [hval, hfd]⟩
  cases a with
  | newConnection fd g =>
      cases g with
      | none => simp [Made] at hmade
      | some g =>
          obtain ⟨rfl, rfl⟩ := lowest_two hf.table hg hlow
          simp only [effect, h.newConnection_eq hg.2.1]
          refine ⟨fun f => ?_, fun k hk => ?_⟩
          · dsimp only
            by_cases hfg : f = first + 2 * s.next + 1
            · rw [hfg, update_self]
              exact iff_of_true (by simp) (by omega)
            · by_cases hff : f = first + 2 * s.next
              · rw [update_of_ne hfg, hff, update_self]
                exact iff_of_true (by simp) (by omega)
              · rw [update_of_ne hfg, update_of_ne hff, hf.table f]
                omega
          · dsimp only at hk ⊢
            by_cases hkn : k = s.next
            · subst hkn
              exact ⟨_, RefCount.create_self _ _ _, rfl⟩
            · obtain ⟨c, hc, hfd⟩ := hf.conns k (by omega)
              exact ⟨c, (RefCount.create_of_ne hkn _).trans hc, hfd⟩
  | _ => exact quiet rfl

lemma filled_run {s₀ : State} {first : ℕ} (h₀ : Started s₀)
    (hopen : ∀ fd, s₀.table fd ≠ none ↔ fd < first) (as : List Action)
    (hrun : (machine n).run s₀ as = some s) (hgrow : (machine n).Along (Growing n) s₀ as) :
    Inv n s ∧ Filled first s := by
  have hnext : s₀.next = 0 := by rw [h₀.fresh]
  refine Machine.run_guarded (P := Growing n) (I := fun s => Inv n s ∧ Filled first s)
    (fun s a s' h ha hst => ?_) as ⟨inv_init h₀, ?_⟩ hgrow hrun
  · obtain ⟨hg, rfl⟩ := Machine.guarded_step_eq_some.mp hst
    exact ⟨inv_step h.1 hg, filled_step h.1 h.2 hg ha⟩
  · exact ⟨fun fd => by rw [hopen, hnext]; omega, fun k hk => by omega⟩

/-! ## How they are spread -/

/-- The connections a sub reactor has in its epoll set. -/
def State.load (s : State) (i : ℕ) : ℕ :=
  Nat.count (fun k => (s.object k).any fun c => (s.epoll (.sub i) c.val.sockFd).isSome) s.next

/-- A sub reactor watches the connections whose descriptor has its residue. -/
lemma watched_iff {first : ℕ} (h : Inv n s) (hf : Filled first s) {i : ℕ} (hk : k < s.next) :
    ((s.object k).any fun c => (s.epoll (.sub i) c.val.sockFd).isSome) = true ↔
      (first + 2 * k) % n = i := by
  obtain ⟨c, hc, hfd⟩ := hf.conns k hk
  have hlive := h.live k c hc
  rw [hc, Option.any_some]
  constructor
  · intro hsome
    by_contra hne
    have hother : Reactor.sub i ≠ choose n c.val.sockFd := by
      rw [choose, hfd]
      exact fun heq => hne (Reactor.sub.inj heq).symm
    rw [hlive.others _ hother] at hsome
    simp at hsome
  · intro heq
    have hchosen : choose n c.val.sockFd = .sub i := by rw [choose, hfd, heq]
    rw [← hchosen, hlive.watched]
    rfl

/-- Some even step from `first` has residue `i`, unless the parities are against it. -/
lemma exists_residue {first i : ℕ} (hi : i < n) (hparity : n % 2 = 1 ∨ i % 2 = first % 2) :
    ∃ v, (first + 2 * v) % n = i := by
  have hn : 0 < n := by omega
  have hlt : first % n < n := Nat.mod_lt first hn
  have hdiv := Nat.div_add_mod first n
  -- what is missing from `first` to `i`, and a round more if that is odd
  have hmissing : ∃ v, 2 * v = i + n - first % n ∨ 2 * v = i + n - first % n + n := by
    by_cases heven : (i + n - first % n) % 2 = 0
    · exact ⟨(i + n - first % n) / 2, .inl (by omega)⟩
    · refine ⟨(i + n - first % n + n) / 2, .inr ?_⟩
      have hodd : n % 2 = 1 := by
        by_contra hne
        have hsame : first % n % 2 = first % 2 := Nat.mod_mod_of_dvd first (by omega)
        omega
      omega
  obtain ⟨v, hv | hv⟩ := hmissing
  · refine ⟨v, ?_⟩
    rw [show first + 2 * v = i + n * (first / n + 1) by rw [Nat.mul_add]; omega,
      Nat.add_mul_mod_self_left, Nat.mod_eq_of_lt hi]
  · refine ⟨v, ?_⟩
    rw [show first + 2 * v = i + n * (first / n + 2) by rw [Nat.mul_add]; omega,
      Nat.add_mul_mod_self_left, Nat.mod_eq_of_lt hi]

/-- The connections of one sub reactor are those of one residue. -/
lemma residue_iff {first i v : ℕ} (hn : 0 < n) (hv : (first + 2 * v) % n = i) (k : ℕ) :
    (first + 2 * k) % n = i ↔ k ≡ v [MOD n / n.gcd 2] := by
  rw [← hv]
  constructor
  · intro h
    exact Nat.ModEq.cancel_left_div_gcd hn (Nat.ModEq.add_left_cancel' first h)
  · intro h
    have htwo : 2 * k ≡ 2 * v [MOD 2 * (n / n.gcd 2)] := h.mul_left' 2
    refine Nat.ModEq.add_left first (htwo.of_dvd ?_)
    calc n = n.gcd 2 * (n / n.gcd 2) := (Nat.mul_div_cancel' (Nat.gcd_dvd_left n 2)).symm
      _ ∣ 2 * (n / n.gcd 2) := Nat.mul_dvd_mul_right (Nat.gcd_dvd_right n 2) _

/-- The load of a sub reactor that gets connections at all. -/
lemma load_eq {first i v : ℕ} (h : Inv n s) (hf : Filled first s) (hn : 0 < n)
    (hv : (first + 2 * v) % n = i) :
    s.next / (n / n.gcd 2) ≤ s.load i ∧ s.load i ≤ s.next / (n / n.gcd 2) + 1 := by
  have hpos : 0 < n / n.gcd 2 :=
    Nat.div_pos (Nat.le_of_dvd hn (Nat.gcd_dvd_left n 2)) (Nat.gcd_pos_of_pos_left 2 hn)
  have hcount : s.load i = Nat.count (· ≡ v [MOD n / n.gcd 2]) s.next := by
    rw [State.load, Nat.count_eq_card_filter_range, Nat.count_eq_card_filter_range]
    refine congrArg Finset.card (Finset.filter_congr fun k hk => ?_)
    rw [watched_iff h hf (Finset.mem_range.mp hk), residue_iff hn hv]
  rw [hcount, Nat.count_modEq_card _ hpos]
  split <;> omega

/-- **How the connections are spread.**  For every run from a server whose open descriptors are
those below `first`, while connections come and none goes: with an odd number of sub reactors each
has its share of the connections, or one more; with an even number half of the sub reactors have
none, and the connections are spread over the other half. -/
theorem loads {s₀ : State} {first : ℕ} (h₀ : Started s₀)
    (hopen : ∀ fd, s₀.table fd ≠ none ↔ fd < first) (as : List Action)
    (hrun : (machine n).run s₀ as = some s) (hgrow : (machine n).Along (Growing n) s₀ as)
    {i : ℕ} (hi : i < n) :
    (n % 2 = 1 → s.next / n ≤ s.load i ∧ s.load i ≤ s.next / n + 1) ∧
    (n % 2 = 0 → i % 2 = first % 2 →
      s.next / (n / 2) ≤ s.load i ∧ s.load i ≤ s.next / (n / 2) + 1) ∧
    (n % 2 = 0 → i % 2 ≠ first % 2 → ∀ fd, s.epoll (.sub i) fd = none) := by
  obtain ⟨h, hf⟩ := filled_run h₀ hopen as hrun hgrow
  have hn : 0 < n := by omega
  refine ⟨fun hodd => ?_, fun heven hsame => ?_, fun heven hne fd => ?_⟩
  · obtain ⟨v, hv⟩ := exists_residue hi (.inl hodd)
    have hgcd : n.gcd 2 = 1 := Nat.coprime_two_right.mpr (Nat.odd_iff.mpr hodd)
    have hload := load_eq h hf hn hv
    rwa [hgcd, Nat.div_one] at hload
  · obtain ⟨v, hv⟩ := exists_residue hi (.inr hsame)
    have hgcd : n.gcd 2 = 2 := Nat.gcd_eq_right (Nat.dvd_of_mod_eq_zero heven)
    have hload := load_eq h hf hn hv
    rwa [hgcd] at hload
  · by_contra hwatched
    obtain ⟨k, hk⟩ := h.sub i fd hwatched
    obtain ⟨c, hc, hfd⟩ := h.owner fd k hk
    have hlt : k < s.next := by
      by_contra hge
      rw [h.unborn k (by omega)] at hc
      simp at hc
    have hsome : ((s.object k).any fun c => (s.epoll (.sub i) c.val.sockFd).isSome) = true := by
      rw [hc, Option.any_some, hfd]
      exact Option.isSome_iff_ne_none.mpr hwatched
    have hi' := (watched_iff h hf hlt).mp hsome
    -- an even step from `first`, and an even number of sub reactors
    have hmod : (first + 2 * k) % n % 2 = (first + 2 * k) % 2 :=
      Nat.mod_mod_of_dvd _ (Nat.dvd_of_mod_eq_zero heven)
    omega

/-- Steps that close nothing, whatever the state. -/
def Action.Opening : Action → Prop
  | .newConnection _ g => g.isSome
  | .retain _ => True
  | _ => False

instance : DecidablePred Action.Opening
  | .newConnection _ g => inferInstanceAs (Decidable (g.isSome = true))
  | .retain _ => isTrue trivial
  | .deleteConnection _ => isFalse id
  | .drop _ => isFalse id

instance decidableLowest (s : State) : ∀ a, Decidable (Lowest s a)
  | .newConnection fd none =>
      decidable_of_iff (∀ f < fd, s.table f ≠ none) (by simp [Lowest])
  | .newConnection fd (some g) =>
      decidable_of_iff ((∀ f < fd, s.table f ≠ none) ∧ ∀ f < g, f ≠ fd → s.table f ≠ none)
        (by simp [Lowest])
  | .deleteConnection _ => isTrue trivial
  | .retain _ => isTrue trivial
  | .drop _ => isTrue trivial

lemma Action.Opening.growing (ha : a.Opening) (h : Inv n s) (hg : guard n s a)
    (hlow : Lowest s a) : Growing n s a := by
  cases a with
  | newConnection fd g =>
      refine ⟨hlow, ha, fun f hf => ?_⟩
      obtain ⟨g, rfl⟩ := Option.isSome_iff_exists.mp ha
      simp only [effect, h.newConnection_eq hg.2.1]
      by_cases hfg : f = g
      · rw [hfg, update_self]
        simp
      · rw [update_of_ne hfg]
        by_cases hff : f = fd
        · rw [hff, update_self]
          simp
        · rwa [update_of_ne hff]
  | retain k => exact ⟨hlow, trivial, fun _ => id⟩
  | deleteConnection x => exact absurd ha id
  | drop k => exact absurd ha id

lemma growing_run {s₀ : State} (h₀ : Inv n s₀) (as : List Action)
    (hall : (machine n).Along (fun s a => guard n s a ∧ Lowest s a ∧ a.Opening) s₀ as) :
    (machine n).Along (Growing n) s₀ as :=
  Machine.along_guarded (I := Inv n)
    (fun s a s' h _ hst => inv_inductive.step s a s' h hst)
    (fun _ _ h ha => ha.2.2.growing h ha.1 ha.2.1) as h₀ hall

/-- Five connections to four sub reactors, and the application keeps a pointer to the first. -/
def fiveStay : List Action :=
  [.newConnection 5 (some 6), .newConnection 7 (some 8), .retain 0, .newConnection 9 (some 10),
    .newConnection 11 (some 12), .newConnection 13 (some 14)]

lemma standard_open (fd : ℕ) : standard.table fd ≠ none ↔ fd < 5 := by
  simp only [standard]
  split <;> simp_all

theorem loads_fiveStay :
    ∃ s, (machine 4).run standard fiveStay = some s ∧ s.next = 5 ∧
      (2 ≤ s.load 1 ∧ s.load 1 ≤ 3) ∧ ∀ fd, s.epoll (.sub 2) fd = none := by
  obtain ⟨s, hrun, hnext⟩ := (Option.any_eq_true (fun s : State => decide (s.next = 5))
    ((machine 4).run standard fiveStay)).mp (by decide)
  have hnext : s.next = 5 := of_decide_eq_true hnext
  have hgrow : (machine 4).Along (Growing 4) standard fiveStay :=
    growing_run (inv_init started_standard) fiveStay (by decide)
  have hodd := (loads started_standard standard_open fiveStay hrun hgrow (i := 1) (by decide)).2.1
    rfl rfl
  rw [hnext] at hodd
  exact ⟨s, hrun, hnext, hodd,
    (loads started_standard standard_open fiveStay hrun hgrow (i := 2) (by decide)).2.2 rfl
      (by decide)⟩

/-! ## Connections that come one at a time -/

/-- None of the connections so far is left when one is accepted. -/
def Alone (s : State) : Action → Prop
  | .newConnection _ _ => ∀ k < s.next, s.object k = none
  | _ => True

instance decidableAlone (s : State) : ∀ a, Decidable (Alone s a)
  | .newConnection _ _ => inferInstanceAs (Decidable (∀ k < s.next, s.object k = none))
  | .deleteConnection _ => isTrue trivial
  | .retain _ => isTrue trivial
  | .drop _ => isTrue trivial

lemma Alone.object_none {g : Option ℕ} (ha : Alone s (.newConnection fd g)) (h : Inv n s) (k : ℕ) :
    s.object k = none := by
  by_cases hk : k < s.next
  · exact ha k hk
  · exact h.unborn k (by omega)

/-- The descriptors below `first` are open for good, and a connection can only be on `first`. -/
structure Single (first : ℕ) (s : State) : Prop where
  below : ∀ fd < first, ∃ x, Owner.Stays x ∧ s.table fd = some x
  free : ∀ x, Owner.Stays x → s.table first ≠ some x
  conns : ∀ k c, s.object k = some c → c.val.sockFd = first

/-- A connection that is there after a step other than an accept was there before it. -/
lemma object_of_not_accept (h : Inv n s) (hopens : a.opens = []) {c : Counted Conn}
    (hc : (effect n s a).object k = some c) : ∃ c', s.object k = some c' ∧ c'.val = c.val := by
  rcases not_accept_cases h hopens with heq | ⟨j, rfl⟩ | ⟨t, j, hkernel, -, hobject, -, heq⟩
  · rw [heq] at hc
    exact ⟨c, hc, rfl⟩
  · exact RefCount.retain_eq_some hc
  · rw [heq, hkernel.release_object, hobject] at hc
    exact RefCount.release_eq_some hc

/-- Where no connection is left, the next one gets `first`. -/
lemma Single.fd_eq {first : ℕ} (h : Inv n s) (hs : Single first s) (hfd : s.table fd = none)
    (hlow : ∀ f < fd, s.table f ≠ none) (halone : ∀ k, s.object k = none) : fd = first := by
  have hfree : s.table first = none := by
    cases hx : s.table first with
    | none => rfl
    | some x =>
        cases x with
        | connection k =>
            obtain ⟨c, hc, -⟩ := h.owner first k hx
            rw [halone k] at hc
            simp at hc
        | leaked => exact absurd hx (hs.free _ trivial)
        | other => exact absurd hx (hs.free _ trivial)
  rcases lt_trichotomy fd first with hlt | heq | hgt
  · obtain ⟨x, -, hx⟩ := hs.below fd hlt
    rw [hfd] at hx
    simp at hx
  · exact heq
  · exact absurd hfree (hlow first hgt)

lemma single_step {first : ℕ} (h : Inv n s) (hs : Single first s) (hg : guard n s a)
    (hlow : Lowest s a) (hmade : Made a) (halone : Alone s a) : Single first (effect n s a) := by
  have hbelow : ∀ fd < first, ∃ x, Owner.Stays x ∧ (effect n s a).table fd = some x := by
    intro fd hfd
    obtain ⟨x, hx, hopen⟩ := hs.below fd hfd
    exact ⟨x, hx, (stays_step h hg fd hx).mpr (.inl hopen)⟩
  have quiet (hopens : a.opens = []) (hleak : a.leaked = none) :
      Single first (effect n s a) := by
    refine ⟨hbelow, fun x hx hopen => ?_, fun k c hc => ?_⟩
    · rcases (stays_step h hg first hx).mp hopen with hold | ⟨hnew, -⟩
      · exact hs.free x hx hold
      · rw [hleak] at hnew
        simp at hnew
    · obtain ⟨c', hc', hval⟩ := object_of_not_accept h hopens hc
      rw [← hval]
      exact hs.conns k c' hc'
  cases a with
  | newConnection fd g =>
      cases g with
      | none => simp [Made] at hmade
      | some g =>
          have hnone := halone.object_none h
          have hfd : fd = first := hs.fd_eq h hg.2.1 hlow.1 hnone
          have hne : g ≠ fd := (hg.2.2 g rfl).2
          refine ⟨hbelow, fun x hx hopen => ?_, fun k c hc => ?_⟩
          · rcases (stays_step h hg first hx).mp hopen with hold | ⟨hnew, -⟩
            · exact hs.free x hx hold
            · rw [Action.leaked, Option.some.injEq] at hnew
              exact hne (hnew.trans hfd.symm)
          · simp only [effect, h.newConnection_eq hg.2.1] at hc
            by_cases hk : k = s.next
            · rw [hk, RefCount.create_self, Option.some.injEq] at hc
              rw [← hc]
              exact hfd
            · rw [RefCount.create_of_ne hk, hnone k] at hc
              simp at hc
  | deleteConnection x => exact quiet rfl rfl
  | retain k => exact quiet rfl rfl
  | drop k => exact quiet rfl rfl

/-- **One at a time, always the same one.**  For every run from a server whose lowest free descriptor
is `first`: if each connection is gone when the next is accepted, they all get descriptor `first`,
and the other sub reactors never get one. -/
theorem one_at_a_time {s₀ : State} {first : ℕ} (h₀ : Started s₀)
    (hbelow : ∀ fd < first, s₀.table fd ≠ none) (hfree : s₀.table first = none) (as : List Action)
    (hrun : (machine n).run s₀ as = some s)
    (halone : (machine n).Along (fun s a => Lowest s a ∧ Made a ∧ Alone s a) s₀ as)
    {i : ℕ} (hwatched : s.epoll (.sub i) fd ≠ none) : fd = first ∧ i = first % n := by
  have h₁ : Single first s₀ := by
    refine ⟨fun fd hfd => ?_, fun x _ hx => ?_, fun k c hc => ?_⟩
    · obtain ⟨x, hx⟩ := Option.ne_none_iff_exists'.mp (hbelow fd hfd)
      refine ⟨x, ?_, hx⟩
      cases x with
      | connection k => exact absurd hx (h₀.owner fd k)
      | leaked => trivial
      | other => trivial
    · rw [hfree] at hx
      simp at hx
    · rw [h₀.fresh] at hc
      simp at hc
  obtain ⟨h, hs⟩ := Machine.run_guarded
    (P := fun s a => Lowest s a ∧ Made a ∧ Alone s a)
    (I := fun s => Inv n s ∧ Single first s)
    (fun s a s' h ha hst => by
      obtain ⟨hg, rfl⟩ := Machine.guarded_step_eq_some.mp hst
      exact ⟨inv_step h.1 hg, single_step h.1 h.2 hg ha.1 ha.2.1 ha.2.2⟩)
    as ⟨inv_init h₀, h₁⟩ halone hrun
  obtain ⟨k, hk⟩ := h.sub i fd hwatched
  obtain ⟨c, hc, hfd⟩ := h.owner fd k hk
  have hfirst : fd = first := hfd ▸ hs.conns k c hc
  refine ⟨hfirst, ?_⟩
  by_contra hne
  have hother : Reactor.sub i ≠ choose n c.val.sockFd := by
    rw [choose, hfd, hfirst]
    exact fun heq => hne (Reactor.sub.inj heq)
  have hnone := (h.live k c hc).others _ hother
  rw [hfd] at hnone
  exact hwatched hnone

/-- The second connection comes when the first has gone. -/
def oneByOne : List Action :=
  [.newConnection 5 (some 6), .deleteConnection 5, .newConnection 5 (some 7)]

theorem one_at_a_time_oneByOne :
    ∃ s, (machine 4).run standard oneByOne = some s ∧ s.epoll (.sub 1) 5 ≠ none ∧
      ∀ i fd, s.epoll (.sub i) fd ≠ none → fd = 5 ∧ i = 1 := by
  obtain ⟨s, hrun, hwatched⟩ := (Option.any_eq_true
    (fun s : State => decide (s.epoll (.sub 1) 5 ≠ none)) ((machine 4).run standard oneByOne)).mp
      (by decide)
  exact ⟨s, hrun, of_decide_eq_true hwatched, fun i fd hfd =>
    one_at_a_time started_standard (by decide) (by decide) oneByOne hrun (by decide) hfd⟩

end CppServer.Registry
