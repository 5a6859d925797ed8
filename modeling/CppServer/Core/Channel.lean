import Mathlib.Data.Nat.Notation
import Mathlib.Tactic.Lemma

/-!
# `Channel` and the epoll masks

A channel is a descriptor with the events it listens for.  A callback is only known to be set or
not: what it does belongs to whoever sets it.
-/

namespace CppServer

def EPOLLIN : UInt32 := 0x1

def EPOLLPRI : UInt32 := 0x2

def EPOLLOUT : UInt32 := 0x4

def EPOLLERR : UInt32 := 0x8

def EPOLLHUP : UInt32 := 0x10

def EPOLLET : UInt32 := 0x80000000

/-- The size of the array `Epoll::Poll` hands to `epoll_wait`. -/
def MAX_EVENTS : ℕ := 1000

/-- `Channel` -/
structure Channel where
  fd : ℕ
  listenEvents : UInt32 := 0
  inEpoll : Bool := false
  readCallback : Bool := false
  writeCallback : Bool := false
  deriving DecidableEq, Repr

/-- The operations of `epoll_ctl` the server uses. -/
inductive EpollCtl where
  | ADD
  | MOD
  deriving DecidableEq, Repr

namespace Channel

/-- `Epoll::UpdateChannel`: the operation it issues, and the channel afterwards. -/
def updateChannel (ch : Channel) : EpollCtl × Channel :=
  if ch.inEpoll then (.MOD, ch) else (.ADD, { ch with inEpoll := true })

/-- `Channel::EnableRead` -/
def enableRead (ch : Channel) : EpollCtl × Channel :=
  updateChannel { ch with listenEvents := ch.listenEvents ||| (EPOLLIN ||| EPOLLPRI) }

/-- `Channel::UseET` -/
def useET (ch : Channel) : EpollCtl × Channel :=
  updateChannel { ch with listenEvents := ch.listenEvents ||| EPOLLET }

/-- `Channel::SetReadCallBack` -/
def setReadCallBack (ch : Channel) : Channel := { ch with readCallback := true }

end Channel

/-- The test of `HandleEvent` for its read callback. -/
def wantsRead (readyEvents : UInt32) : Bool := readyEvents &&& (EPOLLIN ||| EPOLLPRI) != 0

/-- The test of `HandleEvent` for its write callback. -/
def wantsWrite (readyEvents : UInt32) : Bool := readyEvents &&& EPOLLOUT != 0

/-- What `epoll_wait` may report for a descriptor: what it is registered for, errors and
hang-ups. -/
def reportable (listenEvents readyEvents : UInt32) : Bool :=
  readyEvents &&& ~~~(listenEvents ||| EPOLLERR ||| EPOLLHUP) == 0

/-- Data to read runs the read callback. -/
lemma wantsRead_of_EPOLLIN {m : UInt32} (h : m &&& EPOLLIN ≠ 0) : wantsRead m = true := by
  rw [wantsRead, bne_iff_ne]
  intro h0
  refine h ?_
  calc m &&& EPOLLIN = m &&& ((EPOLLIN ||| EPOLLPRI) &&& EPOLLIN) := by
        rw [show (EPOLLIN ||| EPOLLPRI) &&& EPOLLIN = EPOLLIN by decide]
    _ = 0 := by rw [← UInt32.and_assoc, h0, UInt32.zero_and]

end CppServer
