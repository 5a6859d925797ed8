import CppServer.Lib.Raii
import CppServer.Server.Sizing

/-!
# Constructing a server

The constructor of `Server` with those of its members, as far as system calls go: what they
acquire, which of them throw, and what is destroyed by unwinding.  `Errif` makes an exception of
every call that fails.  Memory is never exhausted.

The listening socket has its descriptor in two places, in `sock_` and in `channel_`, and both close
it.  The sub reactors are known by raw pointers, which nobody deletes unless the constructor of
`Server` has returned.

* `makes_acceptor` — the two owners of the listening socket do no harm here: nothing is opened
  between the two calls of `close`.
* `construction_leaks` — if no call fails, the destructor closes all that was opened.  Whichever
  call fails first, the constructor leaves open exactly the descriptors of the sub reactors there
  are by then; only a thread that cannot be started, when there are others, cannot be unwound.
-/

namespace CppServer.Construction

open Raii
open Reactors (poolSize)

variable (env : Env)

/-- `EventLoop`, with the descriptor of its `Epoll`. -/
structure EventLoop where
  epfd : ℕ
  deriving DecidableEq, Repr

/-- `EventLoop::EventLoop`, with `Epoll::Epoll` -/
def EventLoop.new : Code String EventLoop := EventLoop.mk <$> acquire env "epoll create error"

/-- `EventLoop::~EventLoop`, with `Epoll::~Epoll` -/
def EventLoop.destroy (l : EventLoop) : World → World := release l.epfd

/-- `Acceptor`, with the descriptors in `sock_` and `channel_`. -/
structure Acceptor where
  sockFd : ℕ
  channelFd : ℕ
  same : channelFd = sockFd
  deriving DecidableEq, Repr

/-- The constructor of `Acceptor` once it has its `sock_`: `Bind`, `Listen`, and `EnableRead` of a
channel that is destroyed if it fails. -/
def Acceptor.listenOn (fd : ℕ) : Code String Unit := do
  call env "socket bind error"
  call env "socket listen error"
  holding (release fd) (call env "epoll add error")

/-- `Acceptor::Acceptor` -/
def Acceptor.new : Code String Acceptor :=
  (fun p => ⟨p.1, p.1, rfl⟩) <$>
    member release (acquire env "socket create error") (Acceptor.listenOn env)

/-- `Acceptor::~Acceptor`: `channel_` goes before `sock_`. -/
def Acceptor.destroy (a : Acceptor) : World → World := release a.sockFd ∘ release a.channelFd

/-- `ThreadPool::ThreadPool`.  If a thread cannot be started, unwinding destroys `cv_` before
`threads_`: the workers there are already wait on it, and when it is their turn they are joinable.
So it can be unwound only if there are none. -/
def ThreadPool.new : ℕ → Code String Unit
  | 0 => pure ()
  | n + 1 => do
      call env "Resource temporarily unavailable"
      notUnwound (ThreadPool.new n)

/-- `ThreadPool::~ThreadPool`, with no task in the queue: it joins the workers. -/
def ThreadPool.destroy (_ : Unit) : World → World := id

/-- `Server`, as far as it has descriptors. -/
structure Server where
  mainReactor : EventLoop
  acceptor : Acceptor
  subReactors : List EventLoop
  deriving DecidableEq, Repr

/-- `Server::Server` -/
def Server.new (hardwareConcurrency : UInt32) : Code String Server :=
  let numThreads := poolSize hardwareConcurrency
  (fun p => { mainReactor := p.1, acceptor := p.2.1, subReactors := p.2.2.2 }) <$>
    member EventLoop.destroy (EventLoop.new env) fun _ =>
      member Acceptor.destroy (Acceptor.new env) fun _ =>
        member ThreadPool.destroy (ThreadPool.new env numThreads) fun _ =>
          pushBack (EventLoop.new env) numThreads

/-- `Server::~Server`, with the members in the reverse of their order. -/
def Server.destroy (s : Server) : World → World :=
  s.mainReactor.destroy ∘ s.acceptor.destroy ∘ ThreadPool.destroy () ∘
    destroyAll EventLoop.destroy s.subReactors

/-! ## The members -/

/-- What an object owns. -/
def EventLoop.owns (l : EventLoop) : Finset ℕ := {l.epfd}

def Acceptor.owns (a : Acceptor) : Finset ℕ := {a.sockFd}

def Server.owns (s : Server) : Finset ℕ :=
  s.mainReactor.owns ∪ (s.acceptor.owns ∪ (∅ ∪ ownsAll EventLoop.owns s.subReactors))

lemma frees_eventLoop (l : EventLoop) : Frees l.destroy l.owns := frees_release l.epfd

/-- The second call of `close` finds nothing to close. -/
lemma frees_acceptor (a : Acceptor) : Frees a.destroy a.owns := by
  have htwice := (frees_release a.channelFd).comp (frees_release a.sockFd)
  rw [a.same, Finset.union_self, ← a.same] at htwice
  rw [Acceptor.owns, ← a.same]
  rw [Acceptor.destroy, ← a.same]
  exact htwice

lemma frees_server (s : Server) : Frees s.destroy s.owns := by
  have hsubs := Frees.destroyAll frees_eventLoop s.subReactors
  have hacceptor := (hsubs.comp (frees_acceptor s.acceptor)).comp (frees_eventLoop s.mainReactor)
  have howns : s.owns = ownsAll EventLoop.owns s.subReactors ∪ s.acceptor.owns ∪
      s.mainReactor.owns := by
    rw [Server.owns, Finset.empty_union, Finset.union_comm, Finset.union_comm s.acceptor.owns]
  rw [howns]
  exact hacceptor

variable {env}

theorem makes_eventLoop :
    Makes env (EventLoop.new env) 1 1 EventLoop.owns fun _ => some 0 :=
  (makes_acquire env _).map fun _ => rfl

/-- The three calls behind `socket`. -/
def listenCalls (env : Env) : Code String Unit := do
  call env "socket bind error"
  call env "socket listen error"
  call env "epoll add error"

/-- What `channel_` closes in unwinding, `sock_` would close. -/
lemma holding_listenOn (fd : ℕ) :
    holding (release fd) (Acceptor.listenOn env fd) = holding (release fd) (listenCalls env) := by
  have hlast : holding (release fd) (call env "socket listen error" >>= fun _ =>
      holding (release fd) (call env "epoll add error")) =
        holding (release fd) (call env "socket listen error" >>= fun _ =>
          call env "epoll add error") := holding_twice (release_release fd)
  rw [Acceptor.listenOn, listenCalls, ← holding_twice (release_release fd), hlast,
    holding_twice (release_release fd)]

lemma makes_listenCalls : Makes env (listenCalls env) 3 0 (fun _ => ∅) fun _ => some 0 := by
  have hcalls := (makes_call env "socket bind error").bind fun _ =>
    (makes_call env "socket listen error").bind fun _ => makes_call env "epoll add error"
  rw [listenCalls]
  simpa using hcalls

/-- **An acceptor that cannot be made leaves nothing open.** -/
theorem makes_acceptor : Makes env (Acceptor.new env) 4 1 Acceptor.owns fun _ => some 0 := by
  have hnew : Acceptor.new env = (fun p => (⟨p.1, p.1, rfl⟩ : Acceptor)) <$>
      member release (acquire env "socket create error") fun _ => listenCalls env := by
    simp only [Acceptor.new, member, holding_listenOn]
  rw [hnew]
  have hmember := (makes_acquire env "socket create error").member frees_release
    fun _ => makes_listenCalls
  have howns : ∀ p : ℕ × Unit, Acceptor.owns ⟨p.1, p.1, rfl⟩ = {p.1} ∪ ∅ := fun p =>
    (Finset.union_empty _).symm
  simpa using hmember.map howns

/-- How the constructor of the pool ends if its thread `i` cannot be started. -/
def lostThreads : ℕ → Option ℕ
  | 0 => some 0
  | _ + 1 => none

theorem makes_threadPool (n : ℕ) :
    Makes env (ThreadPool.new env n) n 0 (fun _ => ∅) lostThreads := by
  induction n with
  | zero => exact makes_pure () rfl _
  | succ n ih =>
      have hpool := (makes_call env "Resource temporarily unavailable").bind
        fun _ => ih.notUnwound
      rw [Nat.add_comm] at hpool
      refine ⟨hpool.returns, fun w i hi hw => ?_⟩
      have hfail := hpool.fails w i hi hw
      cases i with
      | zero => exact hfail
      | succ i => exact hfail

/-- How many descriptors a failed constructor of `Server` leaves open, if call `i` is the first to
fail; `none` if that is undefined. -/
def leaked (numThreads i : ℕ) : Option ℕ :=
  if i ≤ 5 then some 0
  else if i < 5 + numThreads then none
  else some (i - (5 + numThreads))

/-- The members one after the other: one call, four, one for each thread, one for each loop. -/
lemma leaked_eq (n i : ℕ) :
    leaked n i = if i < 1 then some 0 else if i - 1 < 4 then some 0 else
      if i - 1 - 4 < n then lostThreads (i - 1 - 4) else some (i - 1 - 4 - n) := by
  rw [leaked]
  rcases Nat.lt_or_ge i 5 with hlow | hhigh
  · rw [if_pos (by omega)]
    split
    · rfl
    · rw [if_pos (by omega)]
  · obtain ⟨j, rfl⟩ := Nat.exists_eq_add_of_le hhigh
    rw [if_neg (show ¬ 5 + j < 1 by omega), if_neg (show ¬ 5 + j - 1 < 4 by omega),
      show 5 + j - 1 - 4 = j by omega, show 5 + j - (5 + n) = j - n by omega]
    cases j with
    | zero => split <;> simp [lostThreads]
    | succ j =>
        rw [if_neg (by omega), lostThreads]
        simp only [Nat.add_lt_add_iff_left]

theorem makes_server (hardwareConcurrency : UInt32) :
    Makes env (Server.new env hardwareConcurrency) (5 + 2 * poolSize hardwareConcurrency)
      (2 + poolSize hardwareConcurrency) Server.owns (leaked (poolSize hardwareConcurrency)) := by
  set n := poolSize hardwareConcurrency
  have hsubs : Makes env (pushBack (EventLoop.new env) n) n n (ownsAll EventLoop.owns) some :=
    makes_eventLoop.pushBack n
  have hpool : Makes env (member ThreadPool.destroy (ThreadPool.new env n) fun _ =>
      pushBack (EventLoop.new env) n) (n + n) (0 + n) (fun p => ∅ ∪ ownsAll EventLoop.owns p.2) _ :=
    (makes_threadPool n).member (fun _ w => (Finset.sdiff_empty (s := w.held)).symm) fun _ => hsubs
  have hserver : Makes env (Server.new env hardwareConcurrency) (1 + (4 + (n + n)))
      (1 + (1 + (0 + n))) Server.owns _ :=
    (makes_eventLoop.member frees_eventLoop fun _ =>
      makes_acceptor.member frees_acceptor fun _ => hpool).map fun _ => rfl
  have hcalls : 1 + (4 + (n + n)) = 5 + 2 * n := by omega
  have hsize : 1 + (1 + (0 + n)) = 2 + n := by omega
  rw [hcalls, hsize] at hserver
  refine ⟨hserver.returns, fun w i hi hw => ?_⟩
  rw [leaked_eq]
  exact hserver.fails w i hi hw

/-! ## The result -/

/-- **What a server leaves open.**  For every number of threads and whatever descriptors the kernel
hands out: if no call fails, the constructor opens one descriptor for itself, one to listen on, and
one for each sub reactor, and the destructor closes them all.  If call `i` is the first to fail,
then up to the first thread everything is closed again; a thread after the first that cannot be
started leaves a pool that cannot be unwound; and once all threads have been started the descriptors
of the sub reactors there are stay open. -/
theorem construction_leaks (env : Env) (hardwareConcurrency : UInt32) (w : World) :
    (NoneFails env w (5 + 2 * poolSize hardwareConcurrency) →
      ∃ server w', Server.new env hardwareConcurrency w = (.ok server, w') ∧
        w.held ⊆ w'.held ∧ (w'.held \ w.held).card = 2 + poolSize hardwareConcurrency ∧
        (server.destroy w').held = w.held) ∧
    ∀ i < 5 + 2 * poolSize hardwareConcurrency, FirstFails env w i →
      Failed (leaked (poolSize hardwareConcurrency) i) w (Server.new env hardwareConcurrency w) := by
  refine ⟨fun hnone => ?_, (makes_server hardwareConcurrency).fails w⟩
  obtain ⟨server, w', hrun, -, hacquired⟩ := (makes_server hardwareConcurrency).returns w hnone
  refine ⟨server, w', hrun, hacquired.subset, ?_, ?_⟩
  · rw [hacquired.sdiff, hacquired.card]
  · rw [frees_server server w', hacquired.held, Finset.union_sdiff_cancel_right hacquired.fresh]

/-- A kernel that hands out numbers above all that are open, and fails at the tenth call. -/
def tenthFails : Env where
  pick held := held.sup id + 1
  pick_notMem _ h := absurd (Finset.le_sup (f := id) h) (Nat.not_succ_le_self _)
  fails i := i == 9

/-- With three sub reactors, the tenth call makes the second one: the first stays open. -/
theorem construction_leaks_tenthFails :
    ∃ e w', Server.new tenthFails 3 { held := {0, 1, 2} } = (.error (.thrown e), w') ∧
      (w'.held \ {0, 1, 2}).card = 1 := by
  have hfirst : FirstFails tenthFails { held := {0, 1, 2} } 9 := ⟨by decide, by decide⟩
  have hpool : poolSize 3 = 3 := Reactors.poolSize_eq 3
  have hfailed := (construction_leaks tenthFails 3 { held := {0, 1, 2} }).2 9
    (by rw [hpool]; decide) hfirst
  rw [hpool, show leaked 3 9 = some 1 from rfl] at hfailed
  obtain ⟨e, w', hrun, -, hcard⟩ := hfailed
  exact ⟨e, w', hrun, hcard⟩

end CppServer.Construction
