import CppServer.Lib.Mutex
import CppServer.Logger.FileAppender

/-!
# The two mutexes of the appender

`mtx_` guards the queue, `file_mtx_` the stream.  For each, the threads in its critical section
are exactly its owner (`Excl`): `mtx_step` and `fileMtx_step` show that every step of a
thread is a lock, an unlock, or keeps the thread on its side.  A notification moves a second
thread, from its wait to the point where it takes the mutex back, which is outside of both.
-/

namespace CppServer.Logger

open Function (update update_self update_of_ne)

variable {ι ε : Type*}

/-! ## The critical sections -/

/-- The points of the writer between taking and releasing `mtx_`. -/
def WriterPc.holdsMtx : WriterPc ε → Prop
  | .test => True
  | .ready => True
  | .popped _ => True
  | .notified _ => True
  | _ => False

/-- Those of a caller. -/
def CallerPc.holdsMtx : CallerPc ε → Prop
  | .test _ => True
  | .room _ => True
  | .pushed => True
  | .notified => True
  | _ => False

/-- The points of the writer between taking and releasing `file_mtx_`. -/
def WriterPc.holdsFileMtx : WriterPc ε → Prop
  | .formatting _ => True
  | .formatted => True
  | _ => False

/-- Those of a caller. -/
def CallerPc.holdsFileMtx : CallerPc ε → Prop
  | .reopenLocked => True
  | .reopenClosed => True
  | .reopenOpened => True
  | _ => False

/-- The threads at points with one of two properties, the writer's and the callers'. -/
def State.among (P : WriterPc ε → Prop) (Q : CallerPc ε → Prop) (s : State ι ε) : Thread ι → Prop
  | .writer => P s.writer
  | .caller c => Q (s.caller c)

/-- The threads that hold `mtx_`. -/
abbrev State.holdsMtx (s : State ι ε) : Thread ι → Prop := s.among WriterPc.holdsMtx CallerPc.holdsMtx

/-- The threads that hold `file_mtx_`. -/
abbrev State.holdsFileMtx (s : State ι ε) : Thread ι → Prop := s.among WriterPc.holdsFileMtx CallerPc.holdsFileMtx

section Moves

variable {P : WriterPc ε → Prop} {Q : CallerPc ε → Prop} {s s' : State ι ε}

lemma moves_writer (hc : s'.caller = s.caller) :
    Moves (s.among P Q) (s'.among P Q) .writer (P s'.writer) where
  self := Iff.rfl
  others u hu := by
    cases u with
    | writer => exact absurd rfl hu
    | caller c => rw [State.among, State.among, hc]

lemma moves_caller [DecidableEq ι] {c : Caller ι} {p : CallerPc ε} (hw : s'.writer = s.writer)
    (hc : s'.caller = update s.caller c p) :
    Moves (s.among P Q) (s'.among P Q) (.caller c) (Q p) where
  self := by rw [State.among, hc, update_self]
  others u hu := by
    cases u with
    | writer => rw [State.among, State.among, hw]
    | caller d =>
        have hne : d ≠ c := fun h => hu (by rw [h])
        rw [State.among, State.among, hc, update_of_ne hne]

lemma among_writer {p : WriterPc ε} (h : s.writer = p) : s.among P Q .writer ↔ P p := by
  rw [State.among, h]

lemma among_caller {c : Caller ι} {p : CallerPc ε} (h : s.caller c = p) :
    s.among P Q (.caller c) ↔ Q p := by
  rw [State.among, h]

/-- The writer stays on its side of the critical section. -/
lemma stay_writer {owner : Option (Thread ι)} (h : Excl (s.among P Q) owner) {p : WriterPc ε}
    (hw : s.writer = p) (hc : s'.caller = s.caller) (hp : P s'.writer ↔ P p) :
    Excl (s'.among P Q) owner :=
  h.stay (moves_writer hc) (hp.trans (among_writer hw).symm)

/-- The writer releases the mutex. -/
lemma leave_writer {owner : Option (Thread ι)} (h : Excl (s.among P Q) owner) {p : WriterPc ε}
    (hw : s.writer = p) (hin : P p) (hc : s'.caller = s.caller) (hout : ¬ P s'.writer) :
    Excl (s'.among P Q) none :=
  h.leave (t := .writer) ((among_writer hw).mpr hin) (moves_writer hc) hout

/-- A caller stays on its side. -/
lemma stay_caller [DecidableEq ι] {owner : Option (Thread ι)} (h : Excl (s.among P Q) owner)
    {c : Caller ι} {p q : CallerPc ε} (hp : s.caller c = p) (hw : s'.writer = s.writer)
    (hc : s'.caller = update s.caller c q) (hpq : Q q ↔ Q p) : Excl (s'.among P Q) owner :=
  h.stay (moves_caller hw hc) (hpq.trans (among_caller hp).symm)

/-- A caller releases the mutex. -/
lemma leave_caller [DecidableEq ι] {owner : Option (Thread ι)} (h : Excl (s.among P Q) owner)
    {c : Caller ι} {p q : CallerPc ε} (hp : s.caller c = p) (hin : Q p)
    (hw : s'.writer = s.writer) (hc : s'.caller = update s.caller c q) (hout : ¬ Q q) :
    Excl (s'.among P Q) none :=
  h.leave (t := .caller c) ((among_caller hp).mpr hin) (moves_caller hw hc) hout

end Moves

lemma wake_holdsMtx (pc : CallerPc ε) : pc.wake.holdsMtx ↔ pc.holdsMtx := by
  cases pc <;> exact Iff.rfl

lemma wake_holdsFileMtx (pc : CallerPc ε) : pc.wake.holdsFileMtx ↔ pc.holdsFileMtx := by
  cases pc <;> exact Iff.rfl

lemma WriterPc.wake_holdsMtx (pc : WriterPc ε) : pc.wake.holdsMtx ↔ pc.holdsMtx := by
  cases pc <;> exact Iff.rfl

lemma WriterPc.wake_holdsFileMtx (pc : WriterPc ε) :
    pc.wake.holdsFileMtx ↔ pc.holdsFileMtx := by
  cases pc <;> exact Iff.rfl

/-! ## Every step keeps both -/

section Step

variable [DecidableEq ι] {cfg : Config} {s : State ι ε} {a : Action ι ε}

/-- `mtx_` is owned by the one thread in its critical section. -/
lemma mtx_step (h : Excl s.holdsMtx s.mtx) (hg : guard s a) :
    Excl (effect cfg s a).holdsMtx (effect cfg s a).mtx := by
  cases a with
  | writerStart => exact stay_writer h hg rfl Iff.rfl
  | writerLock => exact (hg.2 ▸ h).enter (moves_writer rfl) trivial
  | writerTest =>
      simp only [effect]
      split
      · exact leave_writer h hg trivial rfl id
      · exact stay_writer h hg rfl Iff.rfl
  | writerSpuriousWake => exact stay_writer h hg rfl Iff.rfl
  | writerPop =>
      cases hq : s.queue with
      | nil => exact absurd hq hg.2
      | cons e rest =>
          simp only [effect, hq]
          exact stay_writer h hg.1 rfl Iff.rfl
  | writerNotify e wakes =>
      -- the writer moves, and then the caller it wakes
      have hw : Excl { s with writer := .notified e }.holdsMtx _ := stay_writer h hg.1 rfl Iff.rfl
      cases wakes with
      | none => exact hw
      | some c => exact stay_caller hw rfl rfl rfl (wake_holdsMtx _)
  | writerUnlock e => exact leave_writer h hg trivial rfl id
  | writerJudge e =>
      simp only [effect]
      split
      · exact stay_writer h hg rfl Iff.rfl
      · exact stay_writer h hg rfl Iff.rfl
  | writerFileLock e => exact stay_writer h hg.1 rfl Iff.rfl
  | writerFormat e =>
      rw [effect_writerFormat]
      exact stay_writer h hg rfl Iff.rfl
  | writerFileUnlock => exact stay_writer h hg rfl Iff.rfl
  | writerEnd => exact stay_writer h hg rfl Iff.rfl
  | log c level event => exact stay_caller h hg.2.1 rfl rfl Iff.rfl
  | logLock c e => exact (hg.2 ▸ h).enter (moves_caller rfl rfl) trivial
  | logTest c e =>
      simp only [effect]
      split
      · exact leave_caller h hg trivial rfl rfl id
      · exact stay_caller h hg rfl rfl Iff.rfl
  | logSpuriousWake c e => exact stay_caller h hg rfl rfl Iff.rfl
  | logPush c e => exact stay_caller h hg rfl rfl Iff.rfl
  | logNotify c =>
      have hc : Excl (s.moveTo c .notified).holdsMtx _ := stay_caller h hg rfl rfl Iff.rfl
      exact stay_writer hc rfl rfl (WriterPc.wake_holdsMtx _)
  | logUnlock c => exact leave_caller h hg trivial rfl rfl id
  | reopen c => exact stay_caller h hg.2 rfl rfl Iff.rfl
  | reopenLock c => exact stay_caller h hg.1 rfl rfl Iff.rfl
  | reopenClose c => exact stay_caller h hg rfl rfl Iff.rfl
  | reopenOpen c => exact stay_caller h hg rfl rfl Iff.rfl
  | reopenUnlock c => exact stay_caller h hg rfl rfl Iff.rfl
  | dtorBegin => exact stay_caller h hg.2 rfl rfl Iff.rfl
  | _ => exact h

/-- `file_mtx_` is owned by the one thread in its critical section. -/
lemma fileMtx_step (h : Excl s.holdsFileMtx s.fileMtx) (hg : guard s a) :
    Excl (effect cfg s a).holdsFileMtx (effect cfg s a).fileMtx := by
  cases a with
  | writerStart => exact stay_writer h hg rfl Iff.rfl
  | writerLock =>
      rcases hg.1 with hw | hw
      · exact stay_writer h hw rfl Iff.rfl
      · exact stay_writer h hw rfl Iff.rfl
  | writerTest =>
      simp only [effect]
      split
      · exact stay_writer h hg rfl Iff.rfl
      · exact stay_writer h hg rfl Iff.rfl
  | writerSpuriousWake => exact stay_writer h hg rfl Iff.rfl
  | writerPop =>
      cases hq : s.queue with
      | nil => exact absurd hq hg.2
      | cons e rest =>
          simp only [effect, hq]
          exact stay_writer h hg.1 rfl Iff.rfl
  | writerNotify e wakes =>
      have hw : Excl { s with writer := .notified e }.holdsFileMtx _ := stay_writer h hg.1 rfl Iff.rfl
      cases wakes with
      | none => exact hw
      | some c => exact stay_caller hw rfl rfl rfl (wake_holdsFileMtx _)
  | writerUnlock e => exact stay_writer h hg rfl Iff.rfl
  | writerJudge e =>
      simp only [effect]
      split
      · exact stay_writer h hg rfl Iff.rfl
      · exact stay_writer h hg rfl Iff.rfl
  | writerFileLock e => exact (hg.2 ▸ h).enter (moves_writer rfl) trivial
  | writerFormat e =>
      rw [effect_writerFormat]
      exact stay_writer h hg rfl Iff.rfl
  | writerFileUnlock => exact leave_writer h hg trivial rfl id
  | writerEnd => exact stay_writer h hg rfl Iff.rfl
  | log c level event => exact stay_caller h hg.2.1 rfl rfl Iff.rfl
  | logLock c e =>
      rcases hg.1 with hc | hc
      · exact stay_caller h hc rfl rfl Iff.rfl
      · exact stay_caller h hc rfl rfl Iff.rfl
  | logTest c e =>
      simp only [effect]
      split
      · exact stay_caller h hg rfl rfl Iff.rfl
      · exact stay_caller h hg rfl rfl Iff.rfl
  | logSpuriousWake c e => exact stay_caller h hg rfl rfl Iff.rfl
  | logPush c e => exact stay_caller h hg rfl rfl Iff.rfl
  | logNotify c =>
      have hc : Excl (s.moveTo c .notified).holdsFileMtx _ := stay_caller h hg rfl rfl Iff.rfl
      exact stay_writer hc rfl rfl (WriterPc.wake_holdsFileMtx _)
  | logUnlock c => exact stay_caller h hg rfl rfl Iff.rfl
  | reopen c => exact stay_caller h hg.2 rfl rfl Iff.rfl
  | reopenLock c => exact (hg.2 ▸ h).enter (moves_caller rfl rfl) trivial
  | reopenClose c => exact stay_caller h hg rfl rfl Iff.rfl
  | reopenOpen c => exact stay_caller h hg rfl rfl Iff.rfl
  | reopenUnlock c => exact leave_caller h hg trivial rfl rfl id
  | dtorBegin => exact stay_caller h hg.2 rfl rfl Iff.rfl
  | _ => exact h

end Step

end CppServer.Logger
