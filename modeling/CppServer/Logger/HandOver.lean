import CppServer.Logger.Safety

/-!
# What becomes of a logged entry

* `HandsOver` — in every reachable state: the writer dequeues in the order of the pushes, each
  thread's entries are pushed in the order of its calls, and the lines written are one text for
  each entry that passes the filter.
* `entries_handed_over` — with it, what the destructor can promise: everything pushed before its
  own entry has been processed by the time it returns, in particular everything whose `Log` call
  had returned before the destructor started.
* `entry_lost_in_flight` — it cannot promise more.  Nothing makes the destructor wait for a call
  that is still inside `Log`; such a call may push behind the destructor's entry, and return.
-/

namespace CppServer.Logger

variable {ι ε : Type*} [DecidableEq ι]

/-- The queue hands over every entry once and in order. -/
structure HandsOver (cfg : Config) (s : State ι ε) : Prop where
  /-- what was dequeued is a prefix of what was pushed, and the rest is queued -/
  fifo : s.dequeued ++ s.queue = s.pushed.map Prod.snd
  /-- each thread's pushes are its calls in program order, up to the entry it has yet to push -/
  program : ∀ c, part c s.pushed ++ (s.caller c).pending = s.logged c
  /-- the writer processes what it dequeues, one entry at a time -/
  processed : s.processed ++ s.writer.hand = s.dequeued
  /-- it formats the entries that pass the filter once each, and no others -/
  formatted : s.written = s.writer.firstLine ++ cfg.texts s.processed ++ s.writer.lastLine

/-- What the writer has written when it has ended. -/
def FullLog (cfg : Config) (s : State ι ε) (before : List (Caller ι × Entry ε)) : Prop :=
  s.written = .logStart :: cfg.texts (before.map Prod.snd) ++ [.logEnd]

variable {cfg : Config} {s : State ι ε}

lemma Inv.handsOver (h : Inv cfg s) : HandsOver cfg s := ⟨h.fifo, h.program, h.hand, h.written⟩

/-- The destructor returns only once the writer has ended, at the destructor's entry. -/
theorem Inv.at_end (h : Inv cfg s) (hlife : s.life = .destroyed) :
    ∃ before after, UpToSentinel s before after ∧ FullLog cfg s before := by
  have hw : s.writer = .exited := h.joined (by rw [hlife]; trivial)
  obtain ⟨before, after, hup⟩ := h.upToSentinel hw
  refine ⟨before, after, hup, ?_⟩
  rw [FullLog, h.written, hw, hup.processed]
  simp [Config.texts, Config.visible, sentinel, WriterPc.firstLine, WriterPc.lastLine]

lemma pushed_effect {a : Action ι ε} (hg : guard s a) : s.pushed <+: (effect cfg s a).pushed := by
  obtain ⟨popped, pushed, -, -, hpushed⟩ := queue_step cfg hg
  rw [hpushed]
  exact List.prefix_append _ _

variable [∀ (s : State ι ε) a, Decidable (guard s a)]

theorem inv_inductive : (machine ι ε cfg).Inductive (Inv cfg) :=
  Machine.guarded_inductive (fun _ hs => hs.2 ▸ inv_init) fun _ _ => inv_step

/-- What has been pushed stays pushed. -/
lemma pushed_prefix {s' : State ι ε} {as : List (Action ι ε)}
    (hrun : (machine ι ε cfg).run s as = some s') : s.pushed <+: s'.pushed := by
  refine Machine.run_rel (R := fun s s' => s.pushed <+: s'.pushed) (fun _ => List.prefix_rfl)
    (fun s a t s' hst ht => ?_) as hrun
  obtain ⟨hg, rfl⟩ := Machine.guarded_step_eq_some.mp hst
  exact (pushed_effect hg).trans ht

/-- **Every entry is handed over once and in order, up to the destructor's.**  In every reachable
state the queue hands over in order and without repetition, and when the destructor has returned,
exactly the entries pushed before its own have been processed, before the line `log end`.  These
include all entries that had been pushed while the appender was alive, so all entries whose `Log`
call returned before the destructor started. -/
theorem entries_handed_over (hs : (machine ι ε cfg).Reachable s) :
    HandsOver cfg s ∧
    (s.life = .destroyed → ∃ before after, UpToSentinel s before after ∧ FullLog cfg s before) ∧
    (s.life = .alive → ∀ as s', (machine ι ε cfg).run s as = some s' → s'.life = .destroyed →
      s.pushed.map Prod.snd <+: s'.processed ∧
      ∀ c, s.caller c = .idle → s.logged c = part c s.pushed) := by
  have h : Inv cfg s := inv_inductive.reachable hs
  refine ⟨h.handsOver, h.at_end, fun halive as s' hrun hdead => ⟨?_, fun c hc => ?_⟩⟩
  · have h' : Inv cfg s' := inv_inductive.reachable (hs.run hrun)
    obtain ⟨before, after, hup, -⟩ := h'.at_end hdead
    have hnone : (Caller.destructor, sentinel) ∉ s.pushed := by
      intro hmem
      have hbegun := (h.eq_sentinel hmem rfl).2
      rw [halive] at hbegun
      exact absurd hbegun (by decide)
    have hpre : s.pushed <+: before :=
      prefix_before (hup.pushed ▸ pushed_prefix hrun) hnone
    rw [hup.processed]
    exact (hpre.map _).trans (List.prefix_append _ _)
  · have hprog := h.program c
    rw [hc, show (CallerPc.idle : CallerPc ε).pending = [] from rfl, List.append_nil] at hprog
    exact hprog.symm

/-- One entry, logged while the appender is alive. -/
def oneEntry : List (Action Unit ℕ) :=
  let c := Caller.producer ()
  [.ctorOpen, .log () .INFO 7, .logLock c ⟨.INFO, some 7⟩, .logTest c ⟨.INFO, some 7⟩,
    .logPush c ⟨.INFO, some 7⟩, .logNotify c, .logUnlock c]

/-- The destructor's call of `Log`. -/
def dtorLogs : List (Action Unit ℕ) :=
  [.dtorBegin, .logLock .destructor sentinel, .logTest .destructor sentinel,
    .logPush .destructor sentinel, .logNotify .destructor, .logUnlock .destructor, .dtorLogged]

/-- The writer deals with an entry that it formats. -/
def writes (e : Entry ℕ) : List (Action Unit ℕ) :=
  [.writerLock, .writerTest, .writerPop, .writerNotify e none, .writerUnlock e, .writerJudge e,
    .writerFileLock e, .writerFormat e, .writerFileUnlock]

/-- The writer finds the destructor's entry, and the destructor joins it. -/
def shutsDown : List (Action Unit ℕ) :=
  [.writerLock, .writerTest, .writerPop, .writerNotify sentinel none, .writerUnlock sentinel,
    .writerJudge sentinel, .writerEnd, .dtorJoin, .dtorClose]

theorem entries_handed_over_oneEntry :
    ∃ s : State Unit ℕ, (machine Unit ℕ ⟨2, 1⟩).Reachable s ∧ s.life = .destroyed ∧
      ∃ before after, UpToSentinel s before after ∧ FullLog ⟨2, 1⟩ s before := by
  obtain ⟨s, hs, hp⟩ := Machine.exists_reachable_of_run (m := machine Unit ℕ ⟨2, 1⟩)
    ⟨Nat.two_pos, rfl⟩
    (oneEntry ++ [.writerStart] ++ writes ⟨.INFO, some 7⟩ ++ dtorLogs ++ shutsDown)
    (fun s => decide (s.life = .destroyed)) (by decide)
  have hdead : s.life = .destroyed := of_decide_eq_true hp
  exact ⟨s, hs, hdead, (entries_handed_over hs).2.1 hdead⟩

/-- A call that is inside `Log` when the destructor starts, and pushes behind its entry. -/
def inFlight : List (Action Unit ℕ) :=
  let c := Caller.producer ()
  [.ctorOpen, .log () .INFO 7] ++ dtorLogs ++
    [.logLock c ⟨.INFO, some 7⟩, .logTest c ⟨.INFO, some 7⟩, .logPush c ⟨.INFO, some 7⟩,
      .logNotify c, .logUnlock c, .writerStart] ++ shutsDown

/-- The entry of a call that was in flight is lost, although the call returned. -/
theorem entry_lost_in_flight :
    ¬ ∀ (cfg : Config) (s : State Unit ℕ), (machine Unit ℕ cfg).Reachable s →
      s.life = .destroyed → ∀ c, s.caller c = .idle → ∀ e ∈ s.logged c, e ∈ s.processed := by
  intro h
  obtain ⟨s, hs, hp⟩ := Machine.exists_reachable_of_run (m := machine Unit ℕ ⟨2, 1⟩)
    ⟨Nat.two_pos, rfl⟩ inFlight
    (fun s => decide (s.life = .destroyed ∧ s.caller (.producer ()) = .idle ∧
      ⟨.INFO, some 7⟩ ∈ s.logged (.producer ()) ∧ s.processed = [sentinel])) (by decide)
  obtain ⟨hdead, hidle, hmem, hdone⟩ := of_decide_eq_true hp
  have hin := h ⟨2, 1⟩ s hs hdead (.producer ()) hidle _ hmem
  rw [hdone] at hin
  exact absurd hin (by decide)

end CppServer.Logger
