import CppServer.Logger.Moves
import CppServer.Logger.Exclusion
import CppServer.Logger.Safety

/-!
# The log queue is bounded

A caller of `Log` that finds the queue full waits.  One that finds room holds `mtx_` until it has
pushed, so the room is still there then (`room`), and the queue never grows beyond
`max_queue_size_` (`bound`).  A caller that pushes notifies the writer before it releases the
mutex, so a writer that waits while something is queued is about to be notified (`fed`).
-/

namespace CppServer.Logger

open Function (update_self)

variable {ι ε : Type*}

/-- The bound on the queue, and what it rests on. -/
structure Bounded (cfg : Config) (s : State ι ε) : Prop where
  mtx : Excl s.holdsMtx s.mtx
  fileMtx : Excl s.holdsFileMtx s.fileMtx
  positive : 0 < cfg.maxQueueSize
  room : ∀ c e, s.caller c = .room e → s.queue.length < cfg.maxQueueSize
  bound : s.queue.length ≤ cfg.maxQueueSize
  fed : s.writer = .sleeping → s.queue ≠ [] → ∃ c, s.caller c = .pushed

theorem bounded_init {cfg : Config} (h : 0 < cfg.maxQueueSize) :
    Bounded cfg ({} : State ι ε) where
  mtx t := by cases t <;> simp [State.among, WriterPc.holdsMtx, CallerPc.holdsMtx]
  fileMtx t := by cases t <;> simp [State.among, WriterPc.holdsFileMtx, CallerPc.holdsFileMtx]
  positive := h
  room c e hc := by simp at hc
  bound := Nat.zero_le _
  fed _ hq := absurd rfl hq

section Step

variable [DecidableEq ι] {cfg : Config} {s : State ι ε} {a : Action ι ε}

/-- Only a push makes the queue longer. -/
lemma queue_length_step (cfg : Config) (hg : guard s a) :
    (effect cfg s a).queue.length ≤ s.queue.length ∨
      ∃ c e, a = .logPush c e ∧ (effect cfg s a).queue = s.queue ++ [e] := by
  obtain ⟨popped, pushed, hgoes, -, -⟩ := queue_step cfg hg
  generalize (effect cfg s a).queue = q' at hgoes
  generalize s.queue = q at hgoes
  cases hgoes with
  | stays => exact .inl le_rfl
  | pop => exact .inl (Nat.le_succ _)
  | push => exact .inr ⟨_, _, rfl, rfl⟩

/-- A caller that has found room keeps it: it holds the mutex, so nobody else pushes. -/
lemma room_step (hm : Excl s.holdsMtx s.mtx)
    (h : ∀ c e, s.caller c = .room e → s.queue.length < cfg.maxQueueSize) (hg : guard s a)
    (d : Caller ι) (e : Entry ε) (hd : (effect cfg s a).caller d = .room e) :
    (effect cfg s a).queue.length < cfg.maxQueueSize := by
  rcases caller_step cfg hg d with ⟨hstays, hsame⟩ | hgoes
  · have hroom : s.caller d = .room e := hsame.symm.trans hd
    rcases queue_length_step cfg hg with hle | ⟨c, x, rfl, -⟩
    · exact hle.trans_lt (h d e hroom)
    · -- who pushes holds the mutex as well, so it is `d`, which moves
      have hc : s.caller c = .room x := hg
      have hdc : Thread.caller d = Thread.caller c :=
        hm.unique ((among_caller hroom).mpr trivial) ((among_caller hc).mpr trivial)
      obtain rfl := Thread.caller.inj hdc
      exact absurd .push (hstays (.room x) .pushed)
  · rw [hd] at hgoes
    generalize s.caller d = p at hgoes
    cases hgoes
    -- the test, on the side on which the queue is not full
    rw [effect_logTest] at hd ⊢
    refine lt_of_not_ge fun hfull => ?_
    simp [State.moveTo, if_pos (show cfg.maxQueueSize ≤ s.queue.length from hfull)] at hd

lemma bound_step (hroom : ∀ c e, s.caller c = .room e → s.queue.length < cfg.maxQueueSize)
    (h : s.queue.length ≤ cfg.maxQueueSize) (hg : guard s a) :
    (effect cfg s a).queue.length ≤ cfg.maxQueueSize := by
  rcases queue_length_step cfg hg with hle | ⟨c, e, rfl, hpush⟩
  · exact hle.trans h
  · rw [hpush, List.length_append, List.length_singleton]
    exact hroom c e hg

/-- While the writer waits, whatever is pushed is still to be announced to it. -/
lemma fed_step (h : s.writer = .sleeping → s.queue ≠ [] → ∃ c, s.caller c = .pushed)
    (hg : guard s a) (hw : (effect cfg s a).writer = .sleeping)
    (hq : (effect cfg s a).queue ≠ []) : ∃ c, (effect cfg s a).caller c = .pushed := by
  -- a caller that is about to notify does nothing else
  have keep : (∀ c, a ≠ .logNotify c) → (∃ c, s.caller c = .pushed) →
      ∃ c, (effect cfg s a).caller c = .pushed := by
    rintro hnot ⟨c, hc⟩
    rcases caller_step cfg hg c with ⟨-, hsame⟩ | hgoes
    · exact ⟨c, hsame.trans hc⟩
    · rw [hc] at hgoes
      generalize (effect cfg s a).caller c = q at hgoes
      cases hgoes
      exact absurd rfl (hnot c)
  obtain ⟨taken, finished, lines, hgoes, -, -, -⟩ := writer_step cfg hg
  rw [hw] at hgoes
  generalize hp : s.writer = p at hgoes
  cases hgoes with
  | empty =>
      -- the writer goes to sleep when nothing is queued
      rw [effect_writerTest] at hw hq
      simp [show s.queue ≠ [] from hq] at hw
  | stays ha =>
      by_cases hnotify : ∃ c, a = .logNotify c
      · obtain ⟨c, rfl⟩ := hnotify
        have hwake : s.writer.wake = .sleeping := hw
        simp [hp, WriterPc.wake] at hwake
      · obtain ⟨popped, pushed, hqueue, -, -⟩ := queue_step cfg hg
        generalize (effect cfg s a).queue = q' at hqueue hq
        generalize hqs : s.queue = q at hqueue
        cases hqueue with
        | stays => exact keep (fun c hc => hnotify ⟨c, hc⟩) (h hp (hqs ▸ hq))
        | pop => simp [Action.ofWriter] at ha
        | push => exact ⟨_, update_self _ _ _⟩

theorem bounded_step (h : Bounded cfg s) (hg : guard s a) : Bounded cfg (effect cfg s a) where
  mtx := mtx_step h.mtx hg
  fileMtx := fileMtx_step h.fileMtx hg
  positive := h.positive
  room := room_step h.mtx h.room hg
  bound := bound_step h.room h.bound hg
  fed := fed_step h.fed hg

end Step

end CppServer.Logger
