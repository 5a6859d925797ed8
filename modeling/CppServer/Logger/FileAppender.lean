import Mathlib.Data.Fintype.Sum
import Mathlib.Tactic.DeriveFintype
import CppServer.Lib.Machine

/-!
# `FileAppender`

The asynchronous appender as a machine: the constructor, the writer thread running `ConsumeLog`,
any number of other threads calling `Log` and `Reopen` (the index type `ι`), and the destructor,
which calls `Log` once more with the level `OTHER` and then joins the writer.

A step is what a thread does between two points at which another thread may interfere.  A wait on
a condition variable is a test, and while the test fails the mutex is released, the thread sleeps,
and takes the mutex back.  A waiting thread may also wake up on its own.

The constructor starts the writer before it opens the file.  A use of `file_stream_` is one step,
so two of them exclude each other here.  In the program only `Reopen` and the formatting take
`file_mtx_`: no lock orders the constructor's `open`, `log start` and `log end`, and nothing is
said of what comes of two uses at a time.

The last step of the destructor is the last statement of its body.  A thread that is then inside
`Log` goes on with a dead object, and the members' destructors do not wait for it: the model lets
it take its steps, but they are not defined.

The fields from `logged` on are history: no step reads them.
-/

namespace CppServer.Logger

/-- `LogLevel::Level` -/
inductive Level where
  | INFO
  | DEBUG
  | WARN
  | ERROR
  | FATAL
  | OTHER
  deriving DecidableEq, Repr

/-- The value of an enumerator. -/
def Level.value : Level → ℕ
  | .INFO => 1
  | .DEBUG => 2
  | .WARN => 3
  | .ERROR => 4
  | .FATAL => 5
  | .OTHER => 6

/-- What `queue_` holds: a level and a pointer to an event. -/
structure Entry (ε : Type*) where
  level : Level
  event : Option ε
  deriving DecidableEq, Repr

/-- What the destructor logs. -/
def sentinel {ε : Type*} : Entry ε := ⟨.OTHER, none⟩

/-- What is written to the file: a line of `ConsumeLog`'s own, or the formatted text of an
entry. -/
inductive Line (ε : Type*) where
  | logStart
  | text (e : Entry ε)
  | logEnd
  deriving DecidableEq, Repr

/-- `std::ofstream`, with the content of the file it is opened on. -/
structure Ofstream (ε : Type*) where
  isOpen : Bool := false
  fail : Bool := false
  content : List (Line ε) := []
  deriving DecidableEq, Repr

namespace Ofstream

variable {ε : Type*}

/-- `open(name)`: an existing file is truncated; opening what is open already fails. -/
def «open» (f : Ofstream ε) : Ofstream ε :=
  if f.isOpen then { f with fail := true } else { isOpen := true, fail := false, content := [] }

/-- `close()` -/
def close (f : Ofstream ε) : Ofstream ε :=
  if f.isOpen then { f with isOpen := false } else { f with fail := true }

/-- `operator<<`: on a stream that is not open, or has failed, nothing is stored. -/
def put (f : Ofstream ε) (l : Line ε) : Ofstream ε :=
  if f.isOpen && !f.fail then { f with content := f.content ++ [l] } else { f with fail := true }

end Ofstream

/-- A thread that calls `Log`. -/
inductive Caller (ι : Type*) where
  | producer (c : ι)
  | destructor
  deriving DecidableEq, Fintype, Repr

/-- The threads that may own a mutex. -/
inductive Thread (ι : Type*) where
  | writer
  | caller (c : Caller ι)
  deriving DecidableEq, Repr

/-- Where a caller is in `Log` or `Reopen`. -/
inductive CallerPc (ε : Type*) where
  | idle
  | entering (e : Entry ε)
  /-- holds `mtx_`, about to test the size of the queue -/
  | test (e : Entry ε)
  | sleeping (e : Entry ε)
  | woken (e : Entry ε)
  /-- holds `mtx_`, about to push -/
  | room (e : Entry ε)
  /-- holds `mtx_`, about to notify the writer -/
  | pushed
  /-- holds `mtx_`, about to return -/
  | notified
  | reopening
  /-- holds `file_mtx_`, about to close the stream if it has not failed -/
  | reopenLocked
  /-- holds `file_mtx_`, about to open the stream -/
  | reopenClosed
  /-- holds `file_mtx_`, about to return -/
  | reopenOpened
  deriving DecidableEq, Repr

/-- Where the writer is in `ConsumeLog`. -/
inductive WriterPc (ε : Type*) where
  | start
  /-- about to take `mtx_` -/
  | top
  /-- holds `mtx_`, about to test whether the queue is empty -/
  | test
  | sleeping
  | woken
  /-- holds `mtx_`, the queue is not empty -/
  | ready
  /-- holds `mtx_`, about to notify a caller -/
  | popped (e : Entry ε)
  /-- holds `mtx_`, about to release it -/
  | notified (e : Entry ε)
  /-- about to compare the level with `OTHER` -/
  | judging (e : Entry ε)
  /-- about to take `file_mtx_` -/
  | filing (e : Entry ε)
  /-- holds `file_mtx_`, about to compare the level with `level_` -/
  | formatting (e : Entry ε)
  /-- holds `file_mtx_`, about to release it -/
  | formatted
  | ending
  | exited
  deriving DecidableEq, Repr

/-- The life of the appender. -/
inductive Life where
  /-- the constructor has started the writer, and is about to open the file -/
  | opening
  | alive
  /-- the destructor is inside its call of `Log` -/
  | logging
  | joining
  | closing
  | destroyed
  deriving DecidableEq, Repr

/-- What an appender is built with.  No constructor sets `level_`: it may have any value. -/
structure Config where
  maxQueueSize : ℕ
  level : ℕ

/-- An appender, its threads, and what has happened to it. -/
structure State (ι ε : Type*) where
  queue : List (Entry ε) := []
  mtx : Option (Thread ι) := none
  fileMtx : Option (Thread ι) := none
  fileStream : Ofstream ε := {}
  life : Life := .opening
  writer : WriterPc ε := .start
  caller : Caller ι → CallerPc ε := fun _ => .idle
  /-- what each thread has called `Log` with, in the order of its calls -/
  logged : Caller ι → List (Entry ε) := fun _ => []
  /-- the entries in the order they were pushed, each with the thread that pushed it -/
  pushed : List (Caller ι × Entry ε) := []
  /-- the entries in the order the writer took them off the queue -/
  dequeued : List (Entry ε) := []
  /-- the entries the writer is done with: formatted, filtered out, or left the loop for -/
  processed : List (Entry ε) := []
  /-- the lines the writer handed to the stream -/
  written : List (Line ε) := []

/-- One step of one thread. -/
inductive Action (ι ε : Type*) where
  | ctorOpen
  | writerStart
  | writerLock
  | writerTest
  | writerSpuriousWake
  | writerPop
  /-- `cv_not_full_.notify_one()`, with the caller it wakes -/
  | writerNotify (e : Entry ε) (wakes : Option (Caller ι))
  | writerUnlock (e : Entry ε)
  | writerJudge (e : Entry ε)
  | writerFileLock (e : Entry ε)
  | writerFormat (e : Entry ε)
  | writerFileUnlock
  | writerEnd
  | log (c : ι) (level : Level) (event : ε)
  | logLock (c : Caller ι) (e : Entry ε)
  | logTest (c : Caller ι) (e : Entry ε)
  | logSpuriousWake (c : Caller ι) (e : Entry ε)
  | logPush (c : Caller ι) (e : Entry ε)
  | logNotify (c : Caller ι)
  | logUnlock (c : Caller ι)
  | reopen (c : ι)
  | reopenLock (c : Caller ι)
  | reopenClose (c : Caller ι)
  | reopenOpen (c : Caller ι)
  | reopenUnlock (c : Caller ι)
  | dtorBegin
  | dtorLogged
  | dtorJoin
  | dtorClose
  deriving DecidableEq, Repr

variable {ι ε : Type*}

/-- The caller waits on `cv_not_full_`. -/
def CallerPc.asleep : CallerPc ε → Bool
  | .sleeping _ => true
  | _ => false

/-- A waiting caller wakes up. -/
def CallerPc.wake : CallerPc ε → CallerPc ε
  | .sleeping e => .woken e
  | pc => pc

/-- `cv_not_empty_.notify_one()`: only the writer waits on it. -/
def WriterPc.wake : WriterPc ε → WriterPc ε
  | .sleeping => .woken
  | pc => pc

/-- `cv_not_full_.notify_one()` wakes a waiting caller if there is one. -/
def State.mayNotify (s : State ι ε) : Option (Caller ι) → Prop
  | some c => (s.caller c).asleep = true
  | none => ∀ c, (s.caller c).asleep = false

/-- When a step can be taken. -/
def guard (s : State ι ε) : Action ι ε → Prop
  | .ctorOpen => s.life = .opening
  | .writerStart => s.writer = .start
  | .writerLock => (s.writer = .top ∨ s.writer = .woken) ∧ s.mtx = none
  | .writerTest => s.writer = .test
  | .writerSpuriousWake => s.writer = .sleeping
  -- with an empty queue `front()` would be undefined
  | .writerPop => s.writer = .ready ∧ s.queue ≠ []
  | .writerNotify e wakes => s.writer = .popped e ∧ s.mayNotify wakes
  | .writerUnlock e => s.writer = .notified e
  | .writerJudge e => s.writer = .judging e
  | .writerFileLock e => s.writer = .filing e ∧ s.fileMtx = none
  | .writerFormat e => s.writer = .formatting e
  | .writerFileUnlock => s.writer = .formatted
  | .writerEnd => s.writer = .ending
  -- no call starts before the constructor has returned or once the destructor has started
  | .log c level _ => s.life = .alive ∧ s.caller (.producer c) = .idle ∧ level ≠ .OTHER
  | .logLock c e => (s.caller c = .entering e ∨ s.caller c = .woken e) ∧ s.mtx = none
  | .logTest c e => s.caller c = .test e
  | .logSpuriousWake c e => s.caller c = .sleeping e
  | .logPush c e => s.caller c = .room e
  | .logNotify c => s.caller c = .pushed
  | .logUnlock c => s.caller c = .notified
  | .reopen c => s.life = .alive ∧ s.caller (.producer c) = .idle
  | .reopenLock c => s.caller c = .reopening ∧ s.fileMtx = none
  | .reopenClose c => s.caller c = .reopenLocked
  | .reopenOpen c => s.caller c = .reopenClosed
  | .reopenUnlock c => s.caller c = .reopenOpened
  | .dtorBegin => s.life = .alive ∧ s.caller .destructor = .idle
  | .dtorLogged => s.life = .logging ∧ s.caller .destructor = .idle
  -- `writer_thread_.join()` returns when the thread has exited
  | .dtorJoin => s.life = .joining ∧ s.writer = .exited
  | .dtorClose => s.life = .closing

instance State.decidableMayNotify [Fintype ι] (s : State ι ε) :
    ∀ wakes, Decidable (s.mayNotify wakes)
  | some c => inferInstanceAs (Decidable ((s.caller c).asleep = true))
  | none => inferInstanceAs (Decidable (∀ c, (s.caller c).asleep = false))

/-- With finitely many threads it can be decided whether a step can be taken. -/
instance decidableGuard [Fintype ι] [DecidableEq ι] [DecidableEq ε] (s : State ι ε) :
    ∀ a, Decidable (guard s a)
  | .ctorOpen => inferInstanceAs (Decidable (s.life = _))
  | .writerStart => inferInstanceAs (Decidable (s.writer = _))
  | .writerLock => inferInstanceAs (Decidable (_ ∧ _))
  | .writerTest => inferInstanceAs (Decidable (s.writer = _))
  | .writerSpuriousWake => inferInstanceAs (Decidable (s.writer = _))
  | .writerPop => inferInstanceAs (Decidable (_ ∧ _))
  | .writerNotify _ _ => inferInstanceAs (Decidable (_ ∧ _))
  | .writerUnlock _ => inferInstanceAs (Decidable (s.writer = _))
  | .writerJudge _ => inferInstanceAs (Decidable (s.writer = _))
  | .writerFileLock _ => inferInstanceAs (Decidable (_ ∧ _))
  | .writerFormat _ => inferInstanceAs (Decidable (s.writer = _))
  | .writerFileUnlock => inferInstanceAs (Decidable (s.writer = _))
  | .writerEnd => inferInstanceAs (Decidable (s.writer = _))
  | .log _ _ _ => inferInstanceAs (Decidable (_ ∧ _ ∧ ¬ _))
  | .logLock _ _ => inferInstanceAs (Decidable (_ ∧ _))
  | .logTest c _ => inferInstanceAs (Decidable (s.caller c = _))
  | .logSpuriousWake c _ => inferInstanceAs (Decidable (s.caller c = _))
  | .logPush c _ => inferInstanceAs (Decidable (s.caller c = _))
  | .logNotify c => inferInstanceAs (Decidable (s.caller c = _))
  | .logUnlock c => inferInstanceAs (Decidable (s.caller c = _))
  | .reopen _ => inferInstanceAs (Decidable (_ ∧ _))
  | .reopenLock _ => inferInstanceAs (Decidable (_ ∧ _))
  | .reopenClose c => inferInstanceAs (Decidable (s.caller c = _))
  | .reopenOpen c => inferInstanceAs (Decidable (s.caller c = _))
  | .reopenUnlock c => inferInstanceAs (Decidable (s.caller c = _))
  | .dtorBegin => inferInstanceAs (Decidable (_ ∧ _))
  | .dtorLogged => inferInstanceAs (Decidable (_ ∧ _))
  | .dtorJoin => inferInstanceAs (Decidable (_ ∧ _))
  | .dtorClose => inferInstanceAs (Decidable (s.life = _))

open Function (update)

variable [DecidableEq ι]

/-- Caller `c` goes to `pc`. -/
def State.moveTo (s : State ι ε) (c : Caller ι) (pc : CallerPc ε) : State ι ε :=
  { s with caller := update s.caller c pc }

/-- Caller `c` starts a call of `Log`. -/
def State.call (s : State ι ε) (c : Caller ι) (e : Entry ε) : State ι ε :=
  { s with caller := update s.caller c (.entering e),
           logged := update s.logged c (s.logged c ++ [e]) }

/-- What a step does. -/
def effect (cfg : Config) (s : State ι ε) : Action ι ε → State ι ε
  | .ctorOpen => { s with life := .alive, fileStream := s.fileStream.open }
  | .writerStart =>
      { s with writer := .top, fileStream := s.fileStream.put .logStart,
               written := s.written ++ [.logStart] }
  | .writerLock => { s with writer := .test, mtx := some .writer }
  | .writerTest =>
      if s.queue.isEmpty then { s with writer := .sleeping, mtx := none }
      else { s with writer := .ready }
  | .writerSpuriousWake => { s with writer := .woken }
  | .writerPop =>
      match s.queue with
      | [] => s
      | e :: rest =>
          { s with writer := .popped e, queue := rest, dequeued := s.dequeued ++ [e] }
  | .writerNotify e wakes =>
      { s with writer := .notified e,
               caller := wakes.elim s.caller fun c => update s.caller c (s.caller c).wake }
  | .writerUnlock e => { s with writer := .judging e, mtx := none }
  | .writerJudge e =>
      if e.level = .OTHER then { s with writer := .ending, processed := s.processed ++ [e] }
      else { s with writer := .filing e }
  | .writerFileLock e => { s with writer := .formatting e, fileMtx := some .writer }
  | .writerFormat e =>
      if cfg.level ≤ e.level.value then
        { s with writer := .formatted, processed := s.processed ++ [e],
                 fileStream := s.fileStream.put (.text e), written := s.written ++ [.text e] }
      else { s with writer := .formatted, processed := s.processed ++ [e] }
  | .writerFileUnlock => { s with writer := .top, fileMtx := none }
  | .writerEnd =>
      { s with writer := .exited, fileStream := s.fileStream.put .logEnd,
               written := s.written ++ [.logEnd] }
  | .log c level event => s.call (.producer c) ⟨level, some event⟩
  | .logLock c e => { s.moveTo c (.test e) with mtx := some (.caller c) }
  | .logTest c e =>
      if cfg.maxQueueSize ≤ s.queue.length then { s.moveTo c (.sleeping e) with mtx := none }
      else s.moveTo c (.room e)
  | .logSpuriousWake c e => s.moveTo c (.woken e)
  | .logPush c e =>
      { s.moveTo c .pushed with queue := s.queue ++ [e], pushed := s.pushed ++ [(c, e)] }
  | .logNotify c => { s.moveTo c .notified with writer := s.writer.wake }
  | .logUnlock c => { s.moveTo c .idle with mtx := none }
  | .reopen c => s.moveTo (.producer c) .reopening
  | .reopenLock c => { s.moveTo c .reopenLocked with fileMtx := some (.caller c) }
  | .reopenClose c =>
      { s.moveTo c .reopenClosed with
          fileStream := if s.fileStream.fail then s.fileStream else s.fileStream.close }
  | .reopenOpen c => { s.moveTo c .reopenOpened with fileStream := s.fileStream.open }
  | .reopenUnlock c => { s.moveTo c .idle with fileMtx := none }
  | .dtorBegin => { s.call .destructor sentinel with life := .logging }
  | .dtorLogged => { s with life := .joining }
  | .dtorJoin => { s with life := .closing }
  | .dtorClose => { s with life := .destroyed, fileStream := s.fileStream.close }

/-! What the steps with a branch do, as one state: the fields that no branch writes are plainly
those of before. -/

variable {cfg : Config} {s : State ι ε}

lemma effect_writerTest : effect cfg s .writerTest =
    { s with writer := if s.queue.isEmpty then .sleeping else .ready,
             mtx := if s.queue.isEmpty then none else s.mtx } := by
  simp only [effect]
  split <;> rfl

lemma effect_writerPop : effect cfg s .writerPop =
    { s with writer := s.queue.head?.elim s.writer .popped, queue := s.queue.tail,
             dequeued := s.dequeued ++ s.queue.head?.toList } := by
  cases hq : s.queue with
  | nil =>
      simp only [effect, hq, List.head?_nil, Option.elim_none, List.tail_nil, Option.toList_none,
        List.append_nil]
      rw [← hq]
  | cons e rest => simp [effect, hq]

lemma effect_writerJudge (e : Entry ε) : effect cfg s (.writerJudge e) =
    { s with writer := if e.level = .OTHER then .ending else .filing e,
             processed := if e.level = .OTHER then s.processed ++ [e] else s.processed } := by
  simp only [effect]
  split <;> rfl

lemma effect_writerFormat (e : Entry ε) : effect cfg s (.writerFormat e) =
    { s with writer := .formatted, processed := s.processed ++ [e],
             fileStream :=
               if cfg.level ≤ e.level.value then s.fileStream.put (.text e) else s.fileStream,
             written :=
               if cfg.level ≤ e.level.value then s.written ++ [.text e] else s.written } := by
  simp only [effect]
  split <;> rfl

lemma effect_logTest (c : Caller ι) (e : Entry ε) : effect cfg s (.logTest c e) =
    { s.moveTo c (if cfg.maxQueueSize ≤ s.queue.length then .sleeping e else .room e) with
        mtx := if cfg.maxQueueSize ≤ s.queue.length then none else s.mtx } := by
  simp only [effect]
  split <;> rfl

/-- `FileAppender(file_name, max_queue_size)`, which throws if the size is zero, from the point at
which it has started the writer. -/
def machine (ι ε : Type*) [DecidableEq ι] [∀ (s : State ι ε) a, Decidable (guard s a)]
    (cfg : Config) : Machine (State ι ε) (Action ι ε) :=
  Machine.guarded (fun s => 0 < cfg.maxQueueSize ∧ s = {}) guard (effect cfg)

end CppServer.Logger
