import Mathlib.Data.Int.Basic
import CppServer.Server.Registry

/-!
# The registry is coherent

* `Live` — what holds of a connection as long as it exists, whether it is registered or only held
  by the application: it owns its descriptor, and that is in the epoll set of one sub reactor.
* `Kernel` — the descriptor table and the epoll sets know live connections only.  So a descriptor
  that `accept` returns is in no set, and its `EPOLL_CTL_ADD` adds.
* `Inv` — with the references: a connection lives exactly as long as somebody holds it.
* `registry_coherent` — what follows for `connections_`, in every reachable state.
-/

namespace CppServer.Registry

open Descriptors (Owner)
open Function (update update_self update_of_ne)

/-- The events a connection's channel listens for. -/
def MASK : UInt32 := EPOLLIN ||| EPOLLPRI ||| EPOLLET

/-- The channel of a connection once `NewConnection` is done with it. -/
def readyChannel (fd : ℕ) : Channel :=
  { fd, listenEvents := MASK, inEpoll := true, readCallback := true }

/-- What holds of a connection while it exists. -/
structure Live (n : ℕ) (table : ℕ → Option Owner) (epoll : Reactor → ℕ → Option UInt32) (k : ℕ)
    (c : Conn) : Prop where
  channel : c.channel = readyChannel c.sockFd
  owner : table c.sockFd = some (.connection k)
  watched : epoll (choose n c.sockFd) c.sockFd = some MASK
  others : ∀ r, r ≠ choose n c.sockFd → epoll r c.sockFd = none

/-- The kernel's side of the registry. -/
structure Kernel (n : ℕ) (s : State) : Prop where
  live : ∀ k c, s.object k = some c → Live n s.table s.epoll k c.val
  owner : ∀ fd k, s.table fd = some (.connection k) →
    ∃ c, s.object k = some c ∧ c.val.sockFd = fd
  watched : ∀ r fd, s.epoll r fd ≠ none → s.table fd ≠ none
  sub : ∀ i fd, s.epoll (.sub i) fd ≠ none → ∃ k, s.table fd = some (.connection k)
  unborn : ∀ k, s.next ≤ k → s.object k = none
  legal : ∀ ctl ∈ s.ctls, ctl.Legal

open Classical in
/-- How many references to connection `k` are in `connections_`. -/
noncomputable def entries (connections : ℤ → Option ℕ) (k : ℕ) : ℕ :=
  if ∃ x, connections x = some k then 1 else 0

/-- With those of the application. -/
noncomputable def State.holders (s : State) (k : ℕ) : ℕ := entries s.connections k + s.retained k

/-- What holds in every reachable state. -/
structure Inv (n : ℕ) (s : State) : Prop extends Kernel n s where
  registered : ∀ x k, s.connections x = some k → ∀ c, s.object k = some c → x = c.val.sockFd
  exact : RefCount.Exact s.object s.holders
  displaced : s.displaced = []

variable {n : ℕ} {s : State} {k : ℕ}

/-- A connection stays live if nothing happens to its descriptor. -/
lemma Live.congr {table table' : ℕ → Option Owner} {epoll epoll' : Reactor → ℕ → Option UInt32}
    {c : Conn} (h : Live n table epoll k c) (ht : table' c.sockFd = table c.sockFd)
    (he : ∀ r, epoll' r c.sockFd = epoll r c.sockFd) : Live n table' epoll' k c where
  channel := h.channel
  owner := ht.trans h.owner
  watched := (he _).trans h.watched
  others r hr := (he r).trans (h.others r hr)

/-- What is open is not what the kernel is about to open. -/
lemma ne_of_free {table : ℕ → Option Owner} {f fd : ℕ} {x : Owner} (hf : table f = some x)
    (hfd : table fd = none) : f ≠ fd := by
  rintro rfl
  rw [hfd] at hf
  simp at hf

/-- An addition to one epoll set is about one descriptor. -/
lemma added_of_ne (epoll : Reactor → ℕ → Option UInt32) (added r : Reactor) {f fd : ℕ}
    (h : f ≠ fd) (mask : UInt32) :
    update epoll added (update (epoll added) fd (some mask)) r f = epoll r f := by
  by_cases hr : r = added
  · rw [hr, update_self, update_of_ne h]
  · rw [update_of_ne hr]

lemma entries_eq_one {connections : ℤ → Option ℕ} {x : ℤ} (h : connections x = some k) :
    entries connections k = 1 := if_pos ⟨x, h⟩

lemma entries_eq_zero {connections : ℤ → Option ℕ} (h : ∀ x, connections x ≠ some k) :
    entries connections k = 0 := if_neg fun ⟨x, hx⟩ => h x hx

lemma entries_congr {connections connections' : ℤ → Option ℕ}
    (h : (∃ x, connections x = some k) ↔ ∃ x, connections' x = some k) :
    entries connections k = entries connections' k := by
  rw [entries, entries, propext h]

lemma inv_init (h : Started s) : Inv n s := by
  have hobject : s.object = fun _ => none := by rw [h.fresh]
  have hconn : s.connections = fun _ => none := by rw [h.fresh]
  have hretained : s.retained = fun _ => 0 := by rw [h.fresh]
  have hctls : s.ctls = [] := by rw [h.fresh]
  refine ⟨⟨?_, ?_, h.watched, ?_, ?_, ?_⟩, ?_, ⟨?_, ?_⟩, ?_⟩
  · simp [hobject]
  · exact fun fd k hk => absurd hk (h.owner fd k)
  · exact fun i fd hne => absurd (h.sub i fd) hne
  · simp [hobject]
  · simp [hctls]
  · simp [hconn]
  · simp [hobject, State.holders, hconn, hretained, entries]
  · simp [hobject]
  · rw [h.fresh]

/-! ## Closing -/

lemma close_close (s : State) (fd : ℕ) : (s.close fd).close fd = s.close fd := by
  simp [State.close]

/-- The descriptor of a live connection is its own. -/
lemma Kernel.sockFd_ne (h : Kernel n s) {j : ℕ} {c d : Counted Conn} (hk : s.object k = some c)
    (hj : s.object j = some d) (hne : j ≠ k) : d.val.sockFd ≠ c.val.sockFd := by
  intro heq
  have hown := (h.live j d hj).owner
  rw [heq, (h.live k c hk).owner, Option.some.injEq, Owner.connection.injEq] at hown
  exact hne hown.symm

/-- What the loss of a reference does: with the last one the connection and its descriptor go. -/
lemma Kernel.release_eq (h : Kernel n s) (k : ℕ) :
    (∃ c, s.object k = some c ∧ RefCount.dropped s.object k = some c.val ∧
      s.release k = { s with object := RefCount.release s.object k }.close c.val.sockFd) ∨
    (RefCount.dropped s.object k = none ∧
      s.release k = { s with object := RefCount.release s.object k }) := by
  cases hd : RefCount.dropped s.object k with
  | none => exact .inr ⟨rfl, by simp only [State.release, hd]⟩
  | some v =>
      obtain ⟨c, hc, rfl⟩ := RefCount.eq_some_of_dropped hd
      have hch : c.val.channel.fd = c.val.sockFd := by
        rw [(h.live k c hc).channel]
        rfl
      refine .inl ⟨c, hc, rfl, ?_⟩
      simp only [State.release, hd, State.destroy, hch, close_close]

/-- Steps that change no more than the counts. -/
lemma Kernel.recount (h : Kernel n s) {t : RefCount.Table ℕ Conn}
    (hback : ∀ k c, t k = some c → ∃ c', s.object k = some c' ∧ c'.val = c.val)
    (hforth : ∀ k c, s.object k = some c → ∃ c', t k = some c' ∧ c'.val = c.val) :
    Kernel n { s with object := t } where
  live k c hc := by
    obtain ⟨c', hc', hval⟩ := hback k c hc
    exact hval ▸ h.live k c' hc'
  owner fd k hk := by
    obtain ⟨c, hc, hfd⟩ := h.owner fd k hk
    obtain ⟨c', hc', hval⟩ := hforth k c hc
    exact ⟨c', hc', by rw [hval, hfd]⟩
  watched := h.watched
  sub := h.sub
  unborn k hk := by
    cases hc : t k with
    | none => exact hc
    | some c =>
        obtain ⟨c', hc', -⟩ := hback k c hc
        rw [h.unborn k hk] at hc'
        simp at hc'
  legal := h.legal

/-- A destroyed connection takes its descriptor along, and leaves those of the others alone. -/
lemma kernel_destroy (h : Kernel n s) {c : Counted Conn} (hc : s.object k = some c)
    (hd : RefCount.dropped s.object k = some c.val) :
    Kernel n ({ s with object := RefCount.release s.object k }.close c.val.sockFd) := by
  have hgone : RefCount.release s.object k k = none := RefCount.release_of_dropped_some hd
  have hold : ∀ {j d}, RefCount.release s.object k j = some d → j ≠ k ∧ s.object j = some d := by
    intro j d hjd
    have hjk : j ≠ k := by
      rintro rfl
      rw [hgone] at hjd
      simp at hjd
    exact ⟨hjk, by rwa [RefCount.release_of_ne hjk] at hjd⟩
  refine ⟨fun j d hj => ?_, fun fd j hj => ?_, fun r fd hne => ?_, fun i fd hne => ?_,
    fun j hj => ?_, h.legal⟩
  · obtain ⟨hjk, hjd⟩ := hold hj
    have hne := h.sockFd_ne hc hjd hjk
    exact (h.live j d hjd).congr (update_of_ne hne _ _) fun r => update_of_ne hne _ _
  · simp only [State.close] at hj ⊢
    have hne : fd ≠ c.val.sockFd := by
      rintro rfl
      simp at hj
    rw [update_of_ne hne] at hj
    obtain ⟨d, hjd, hfd⟩ := h.owner fd j hj
    have hjk : j ≠ k := by
      rintro rfl
      rw [hc, Option.some.injEq] at hjd
      exact hne (by rw [← hfd, hjd])
    exact ⟨d, by rw [RefCount.release_of_ne hjk, hjd], hfd⟩
  · simp only [State.close] at hne ⊢
    by_cases hfd : fd = c.val.sockFd
    · subst hfd
      simp at hne
    · rw [update_of_ne hfd] at hne ⊢
      exact h.watched r fd hne
  · simp only [State.close] at hne ⊢
    by_cases hfd : fd = c.val.sockFd
    · subst hfd
      simp at hne
    · rw [update_of_ne hfd] at hne ⊢
      exact h.sub i fd hne
  · cases hjd : RefCount.release s.object k j with
    | none => exact hjd
    | some d =>
        have hnone := h.unborn j hj
        rw [(hold hjd).2] at hnone
        simp at hnone

lemma kernel_release (h : Kernel n s) (k : ℕ) : Kernel n (s.release k) := by
  rcases h.release_eq k with ⟨c, hc, hd, heq⟩ | ⟨hd, heq⟩
  · rw [heq]
    exact kernel_destroy h hc hd
  · rw [heq]
    refine h.recount (fun j c => RefCount.release_eq_some) fun j c hj => ?_
    by_cases hjk : j = k
    · subst hjk
      exact ⟨_, RefCount.release_of_dropped_none hj hd, rfl⟩
    · exact ⟨c, by rw [RefCount.release_of_ne hjk, hj], rfl⟩

lemma Kernel.release_object (h : Kernel n s) (k : ℕ) :
    (s.release k).object = RefCount.release s.object k := by
  rcases h.release_eq k with ⟨c, -, -, heq⟩ | ⟨-, heq⟩
  · rw [heq]
    rfl
  · rw [heq]

lemma release_connections (s : State) (k : ℕ) : (s.release k).connections = s.connections := by
  unfold State.release
  cases RefCount.dropped s.object k <;> rfl

lemma release_retained (s : State) (k : ℕ) : (s.release k).retained = s.retained := by
  unfold State.release
  cases RefCount.dropped s.object k <;> rfl

lemma release_next (s : State) (k : ℕ) : (s.release k).next = s.next := by
  unfold State.release
  cases RefCount.dropped s.object k <;> rfl

lemma release_displaced (s : State) (k : ℕ) : (s.release k).displaced = s.displaced := by
  unfold State.release
  cases RefCount.dropped s.object k <;> rfl

/-- A reference goes away: the counts were right before, and one holder is gone. -/
lemma inv_release (h : Kernel n s)
    (hreg : ∀ x k, s.connections x = some k → ∀ c, s.object k = some c → x = c.val.sockFd)
    (hexact : RefCount.Exact (RefCount.release s.object k) s.holders)
    (hdis : s.displaced = []) : Inv n (s.release k) := by
  have hobject := h.release_object k
  refine ⟨kernel_release h k, fun x j hx c hc => ?_, ?_, (release_displaced s k).trans hdis⟩
  · rw [hobject] at hc
    obtain ⟨c', hc', hval⟩ := RefCount.release_eq_some hc
    rw [← hval]
    exact hreg x j (release_connections s k ▸ hx) c' hc'
  · have hholders : (s.release k).holders = s.holders := by
      funext j
      rw [State.holders, State.holders, release_connections, release_retained]
    rwa [hobject, hholders]

/-! ## The steps -/

/-- A descriptor that is not open is in no epoll set. -/
lemma Kernel.epoll_none (h : Kernel n s) {fd : ℕ} (hfd : s.table fd = none) (r : Reactor) :
    s.epoll r fd = none := by
  by_contra hne
  exact h.watched r fd hne hfd

/-- The constructor's two calls of `epoll_ctl`: the second modifies what the first has added. -/
lemma construct_eq (s : State) (n fd g : ℕ) :
    { s with table := update s.table fd (some (.connection s.next)) }.construct n fd g =
      { s with table := update (update s.table fd (some (.connection s.next))) g (some .leaked),
               epoll := update s.epoll (choose n fd)
                 (update (s.epoll (choose n fd)) fd (some MASK)),
               object := RefCount.create s.object s.next ⟨fd, readyChannel fd⟩,
               next := s.next + 1,
               ctls := s.ctls ++ [⟨.ADD, (s.epoll (choose n fd) fd).isSome⟩, ⟨.MOD, true⟩] } := by
  simp [State.construct, State.epollCtl, Channel.enableRead, Channel.updateChannel,
    Channel.useET, Channel.setReadCallBack, readyChannel, MASK]

/-- A connection is constructed on a descriptor the kernel has just returned. -/
lemma kernel_construct (h : Kernel n s) {fd g : ℕ} (hfd : s.table fd = none)
    (hg : s.table g = none) (hne : g ≠ fd) :
    Kernel n ({ s with table := update s.table fd (some (.connection s.next)) }.construct
      n fd g) := by
  rw [construct_eq]
  have hnext : s.object s.next = none := h.unborn s.next le_rfl
  refine ⟨fun k c hk => ?_, fun f k hk => ?_, fun r f hf => ?_, fun i f hf => ?_, fun k hk => ?_,
    fun ctl hctl => ?_⟩
  · by_cases hkn : k = s.next
    · subst hkn
      simp only [RefCount.create_self, Option.some.injEq] at hk
      subst hk
      refine ⟨rfl, ?_, ?_, fun r hr => ?_⟩
      · simp only [update_of_ne hne.symm, update_self]
      · simp only [update_self]
      · simp only [update_of_ne hr]
        exact h.epoll_none hfd r
    · have hlive := h.live k c ((RefCount.create_of_ne hkn _).symm.trans hk)
      have hcf : c.val.sockFd ≠ fd := ne_of_free hlive.owner hfd
      have hcg : c.val.sockFd ≠ g := ne_of_free hlive.owner hg
      refine hlive.congr ?_ fun r => added_of_ne s.epoll _ r hcf MASK
      simp only [update_of_ne hcg, update_of_ne hcf]
  · simp only at hk
    have hfg : f ≠ g := by
      rintro rfl
      simp at hk
    rw [update_of_ne hfg] at hk
    by_cases hff : f = fd
    · subst hff
      rw [update_self, Option.some.injEq, Owner.connection.injEq] at hk
      subst hk
      exact ⟨_, RefCount.create_self _ _ _, rfl⟩
    · rw [update_of_ne hff] at hk
      obtain ⟨c, hc, hcf⟩ := h.owner f k hk
      have hkn : k ≠ s.next := by
        rintro rfl
        rw [hnext] at hc
        simp at hc
      exact ⟨c, (RefCount.create_of_ne hkn _).trans hc, hcf⟩
  · simp only at hf ⊢
    by_cases hfg : f = g
    · subst hfg
      simp
    by_cases hff : f = fd
    · subst hff
      rw [update_of_ne hfg, update_self]
      simp
    rw [added_of_ne s.epoll _ r hff] at hf
    rw [update_of_ne hfg, update_of_ne hff]
    exact h.watched r f hf
  · simp only at hf ⊢
    by_cases hff : f = fd
    · subst hff
      exact ⟨s.next, by rw [update_of_ne hne.symm, update_self]⟩
    rw [added_of_ne s.epoll _ _ hff] at hf
    obtain ⟨k, hk⟩ := h.sub i f hf
    exact ⟨k, by rw [update_of_ne (ne_of_free hk hg), update_of_ne hff, hk]⟩
  · have hkn : k ≠ s.next := Nat.ne_of_gt hk
    exact (RefCount.create_of_ne hkn _).trans (h.unborn k (Nat.le_of_succ_le hk))
  · rcases List.mem_append.mp hctl with hctl | hctl
    · exact h.legal ctl hctl
    · simp only [List.mem_cons, List.not_mem_nil, or_false] at hctl
      rcases hctl with rfl | rfl
      · simp [Ctl.Legal, h.epoll_none hfd]
      · simp [Ctl.Legal]

/-- What is registered exists. -/
lemma Inv.exists_object (h : Inv n s) {x : ℤ} (hx : s.connections x = some k) :
    ∃ c, s.object k = some c := by
  refine Option.isSome_iff_exists.mp (h.exact.isSome_iff.mpr ?_)
  rw [State.holders, entries_eq_one hx]
  omega

/-- Nothing is registered under a descriptor that is not open. -/
lemma Inv.connections_none (h : Inv n s) {fd : ℕ} (hfd : s.table fd = none) :
    s.connections fd = none := by
  cases hx : s.connections fd with
  | none => rfl
  | some k =>
      obtain ⟨c, hc⟩ := h.exists_object hx
      have hsock : fd = c.val.sockFd := Int.ofNat.inj (h.registered fd k hx c hc)
      have hown := (h.live k c hc).owner
      rw [← hsock, hfd] at hown
      simp at hown

/-- `NewConnection` on a descriptor the kernel has just returned. -/
lemma Inv.newConnection_eq (h : Inv n s) {fd : ℕ} (hfd : s.table fd = none) (g : ℕ) :
    s.newConnection n fd (some g) =
      { s with table := update (update s.table fd (some (.connection s.next))) g (some .leaked),
               epoll := update s.epoll (choose n fd)
                 (update (s.epoll (choose n fd)) fd (some MASK)),
               object := RefCount.create s.object s.next ⟨fd, readyChannel fd⟩,
               connections := update s.connections fd (some s.next),
               next := s.next + 1,
               ctls := s.ctls ++ [⟨.ADD, (s.epoll (choose n fd) fd).isSome⟩, ⟨.MOD, true⟩] } := by
  simp only [State.newConnection, construct_eq, State.register, h.connections_none hfd]

lemma inv_newConnection (h : Inv n s) {fd g : ℕ} (hfd : s.table fd = none)
    (hg : s.table g = none) (hne : g ≠ fd) : Inv n (s.newConnection n fd (some g)) := by
  have hnone := h.connections_none hfd
  have hk := kernel_construct h.toKernel hfd hg hne
  have hnext : s.object s.next = none := h.unborn s.next le_rfl
  have hfree : s.holders s.next = 0 := by
    by_contra hpos
    have hsome := h.exact.isSome_iff.mpr (Nat.pos_of_ne_zero hpos)
    rw [hnext] at hsome
    simp at hsome
  rw [construct_eq] at hk
  rw [h.newConnection_eq hfd]
  refine ⟨⟨hk.live, hk.owner, hk.watched, hk.sub, hk.unborn, hk.legal⟩, ?_, ?_, h.displaced⟩
  · intro x k hx c hc
    simp only at hx hc
    by_cases hxf : x = fd
    · subst hxf
      rw [update_self, Option.some.injEq] at hx
      rw [← hx, RefCount.create_self, Option.some.injEq] at hc
      rw [← hc]
    · rw [update_of_ne hxf] at hx
      by_cases hkn : k = s.next
      · subst hkn
        rw [State.holders, entries_eq_one hx] at hfree
        omega
      · rw [RefCount.create_of_ne hkn] at hc
        exact h.registered x k hx c hc
  · have hcreate := h.exact.create (k := s.next) ⟨fd, readyChannel fd⟩
    refine ⟨fun k => (hcreate.refs k).trans ?_, hcreate.pos⟩
    by_cases hkn : k = s.next
    · subst hkn
      have hreg : update s.connections (fd : ℤ) (some s.next) fd = some s.next :=
        update_self _ _ _
      simp only [State.holders] at hfree ⊢
      rw [update_self, entries_eq_one hreg]
      omega
    · have hiff : (∃ x, update s.connections (fd : ℤ) (some s.next) x = some k) ↔
          ∃ x, s.connections x = some k := by
        refine exists_congr fun x => ?_
        by_cases hxf : x = fd
        · subst hxf
          rw [update_self, hnone]
          simp [Ne.symm hkn]
        · rw [update_of_ne hxf]
      rw [update_of_ne hkn]
      simp only [State.holders, entries_congr hiff]

/-- An accept whose connection cannot be constructed leaves an open descriptor behind. -/
lemma inv_newConnection_none (h : Inv n s) {fd : ℕ} (hfd : s.table fd = none) :
    Inv n (s.newConnection n fd none) := by
  refine ⟨⟨fun k c hk => ?_, fun f k hk => ?_, fun r f hf => ?_, fun i f hf => ?_, h.unborn,
    h.legal⟩, h.registered, h.exact, h.displaced⟩
  · have hne : c.val.sockFd ≠ fd := ne_of_free (h.live k c hk).owner hfd
    exact (h.live k c hk).congr (update_of_ne hne _ _) fun _ => rfl
  · simp only [State.newConnection] at hk
    by_cases hff : f = fd
    · subst hff
      simp at hk
    · rw [update_of_ne hff] at hk
      exact h.owner f k hk
  · simp only [State.newConnection]
    by_cases hff : f = fd
    · subst hff
      simp
    · rw [update_of_ne hff]
      exact h.watched r f hf
  · obtain ⟨k, hk⟩ := h.sub i f hf
    exact ⟨k, by simp only [State.newConnection, update_of_ne (ne_of_free hk hfd), hk]⟩

lemma inv_erase (h : Inv n s) (x : ℤ) : Inv n (s.erase x) := by
  unfold State.erase
  cases hx : s.connections x with
  | none => exact h
  | some k =>
      have hkernel := h.toKernel
      have hreg : ∀ y j, update s.connections x none y = some j →
          y ≠ x ∧ s.connections y = some j := by
        intro y j hy
        have hyx : y ≠ x := by
          rintro rfl
          simp at hy
        exact ⟨hyx, by rwa [update_of_ne hyx] at hy⟩
      refine inv_release (s := { s with connections := update s.connections x none })
        ⟨hkernel.live, hkernel.owner, hkernel.watched, hkernel.sub, hkernel.unborn, hkernel.legal⟩
        (fun y j hy => h.registered y j (hreg y j hy).2) ?_ h.displaced
      have hexact := h.exact.release (k := k)
      refine ⟨fun j => (hexact.refs j).trans ?_, hexact.pos⟩
      by_cases hj : j = k
      · subst hj
        have hnone : ∀ y, update s.connections x none y ≠ some j := by
          intro y hy
          obtain ⟨hyx, hy⟩ := hreg y j hy
          obtain ⟨c, hc⟩ := h.exists_object hx
          exact hyx ((h.registered y j hy c hc).trans (h.registered x j hx c hc).symm)
        rw [update_self]
        simp only [State.holders, entries_eq_zero hnone, entries_eq_one hx]
        omega
      · have hiff : (∃ y, update s.connections x none y = some j) ↔
            ∃ y, s.connections y = some j := by
          constructor
          · rintro ⟨y, hy⟩
            exact ⟨y, (hreg y j hy).2⟩
          · rintro ⟨y, hy⟩
            have hyx : y ≠ x := by
              rintro rfl
              rw [hx, Option.some.injEq] at hy
              exact hj hy.symm
            exact ⟨y, by rw [update_of_ne hyx, hy]⟩
        rw [update_of_ne hj]
        simp only [State.holders, entries_congr hiff]

lemma inv_retain (h : Inv n s) (hk : (s.object k).isSome) : Inv n (effect n s (.retain k)) := by
  have hkernel : Kernel n { s with object := RefCount.retain s.object k } := by
    refine h.toKernel.recount (fun j c => RefCount.retain_eq_some) fun j c hj => ?_
    by_cases hjk : j = k
    · subst hjk
      exact ⟨{ c with refs := c.refs + 1 }, by rw [RefCount.retain, update_self, hj]; rfl, rfl⟩
    · exact ⟨c, by rw [RefCount.retain_of_ne hjk, hj], rfl⟩
  have hexact := h.exact.retain hk
  refine ⟨⟨hkernel.live, hkernel.owner, hkernel.watched, hkernel.sub, hkernel.unborn,
    hkernel.legal⟩, fun x j hx c hc => ?_, ⟨fun j => (hexact.refs j).trans ?_, hexact.pos⟩,
    h.displaced⟩
  · obtain ⟨c', hc', hval⟩ := RefCount.retain_eq_some hc
    rw [← hval]
    exact h.registered x j hx c' hc'
  · by_cases hj : j = k
    · subst hj
      simp only [effect, State.holders, update_self]
      omega
    · simp only [effect, State.holders, update_of_ne hj]

lemma inv_drop (h : Inv n s) (hk : 0 < s.retained k) : Inv n (effect n s (.drop k)) := by
  have hkernel := h.toKernel
  have hexact := h.exact.release (k := k)
  refine inv_release (s := { s with retained := update s.retained k (s.retained k - 1) })
    ⟨hkernel.live, hkernel.owner, hkernel.watched, hkernel.sub, hkernel.unborn, hkernel.legal⟩
    h.registered ⟨fun j => (hexact.refs j).trans ?_, hexact.pos⟩ h.displaced
  by_cases hj : j = k
  · subst hj
    simp only [State.holders, update_self]
    omega
  · simp only [State.holders, update_of_ne hj]

theorem inv_step {a : Action} (h : Inv n s) (hg : guard n s a) : Inv n (effect n s a) := by
  cases a with
  | newConnection fd g =>
      obtain ⟨-, hfd, hfree⟩ := hg
      cases g with
      | none => exact inv_newConnection_none h hfd
      | some g => exact inv_newConnection h hfd (hfree g rfl).1 (hfree g rfl).2
  | deleteConnection x =>
      simp only [effect, State.deleteConnection]
      split
      · exact inv_erase h x
      · exact h
  | retain k => exact inv_retain h hg
  | drop k => exact inv_drop h hg

theorem inv_inductive : (machine n).Inductive (Inv n) :=
  Machine.guarded_inductive (fun _ hs => inv_init hs) fun _ _ => inv_step

/-! ## The result -/

/-- What an entry of `connections_` promises. -/
structure Coherent (n : ℕ) (s : State) (fd : ℕ) (c : Conn) : Prop where
  isOpen : s.table fd ≠ none
  sock : c.sockFd = fd
  channel : c.channel.fd = fd
  inEpoll : c.channel.inEpoll = true
  listens : c.channel.listenEvents = EPOLLIN ||| EPOLLPRI ||| EPOLLET
  watched : s.epoll (.sub (fd % n)) fd = some c.channel.listenEvents
  others : ∀ r, r ≠ .sub (fd % n) → s.epoll r fd = none

lemma Live.coherent {c : Conn} (h : Live n s.table s.epoll k c) : Coherent n s c.sockFd c where
  isOpen := by simp [h.owner]
  sock := rfl
  channel := by rw [h.channel]; rfl
  inEpoll := by rw [h.channel]; rfl
  listens := by rw [h.channel]; rfl
  watched := by rw [h.channel]; exact h.watched
  others := h.others

/-- Somebody holds connection `k`. -/
def State.Held (s : State) (k : ℕ) : Prop :=
  (∃ x, s.connections x = some k) ∨ 0 < s.retained k

lemma Inv.isSome_iff (h : Inv n s) : (s.object k).isSome ↔ s.Held k := by
  rw [h.exact.isSome_iff, State.holders, State.Held]
  by_cases hx : ∃ x, s.connections x = some k
  · obtain ⟨x, hx⟩ := hx
    rw [entries_eq_one hx]
    exact iff_of_true (by omega) (.inl ⟨x, hx⟩)
  · simp [entries_eq_zero (not_exists.mp hx), hx]

/-- **The registry is coherent.**  In every reachable state each entry is an open descriptor with
its connection, in the epoll set of one sub reactor with the events its channel listens for.
`NewConnection` replaces no entry, `EPOLL_CTL_ADD` adds and `EPOLL_CTL_MOD` modifies.  A connection
exists exactly as long as it is held; no descriptor and no set of a sub reactor knows one that does
not. -/
theorem registry_coherent (hs : (machine n).Reachable s) :
    (∀ x k, s.connections x = some k →
      ∃ (fd : ℕ) (c : Conn), x = fd ∧ (s.object k).map Counted.val = some c ∧
        Coherent n s fd c) ∧
    s.displaced = [] ∧
    (∀ ctl ∈ s.ctls, ctl.Legal) ∧
    (∀ k, (s.object k).isSome ↔ s.Held k) ∧
    (∀ fd k, s.table fd = some (.connection k) → s.Held k) ∧
    (∀ i fd, s.epoll (.sub i) fd ≠ none → ∃ k, s.table fd = some (.connection k) ∧ s.Held k) := by
  have h : Inv n s := inv_inductive.reachable hs
  have hheld : ∀ fd k, s.table fd = some (.connection k) → s.Held k := by
    intro fd k hk
    obtain ⟨c, hc, -⟩ := h.owner fd k hk
    exact h.isSome_iff.mp (by rw [hc]; rfl)
  refine ⟨fun x k hx => ?_, h.displaced, h.legal, fun k => h.isSome_iff, hheld,
    fun i fd hne => ?_⟩
  · obtain ⟨c, hc⟩ := h.exists_object hx
    exact ⟨c.val.sockFd, c.val, h.registered x k hx c hc, by rw [hc]; rfl, (h.live k c hc).coherent⟩
  · obtain ⟨k, hk⟩ := h.sub i fd hne
    exact ⟨k, hk, hheld fd k hk⟩

/-- Descriptors 0 to 4 are open before the first accept, and the main reactor listens to 3. -/
def standard : State where
  table fd := if fd < 5 then some .other else none
  epoll r fd := if r = .main ∧ fd = 3 then some (EPOLLIN ||| EPOLLPRI) else none

lemma started_standard : Started standard where
  owner fd k := by
    simp only [standard]
    split <;> simp
  sub i fd := by simp [standard]
  watched r fd hne := by
    simp only [standard] at hne ⊢
    split at hne
    · rename_i h
      simp [h.2]
    · exact absurd rfl hne
  fresh := rfl

/-- A connection that outlives its entry, and another one on the same descriptor. -/
def withReuse : List Action :=
  [.newConnection 5 (some 6), .retain 0, .deleteConnection 5, .drop 0, .newConnection 5 (some 7)]

theorem registry_coherent_withReuse :
    ∃ s, (machine 4).Reachable s ∧ ∃ (fd : ℕ) (c : Conn), (5 : ℤ) = fd ∧
      (s.object 1).map Counted.val = some c ∧ Coherent 4 s fd c := by
  obtain ⟨s, hs, hp⟩ := Machine.exists_reachable_of_run (m := machine 4) started_standard withReuse
    (fun s => decide (s.connections 5 = some 1)) (by decide)
  exact ⟨s, hs, (registry_coherent hs).1 5 1 (of_decide_eq_true hp)⟩

end CppServer.Registry
