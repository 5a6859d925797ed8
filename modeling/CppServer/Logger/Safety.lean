import CppServer.Lib.History
import CppServer.Logger.Moves

/-!
# The invariant of the appender

`Inv` has one field for each fact, and there is one lemma for each field.

* `fifo`, `program` — the queue between the two histories: what the callers pushed, in the order
  of their calls, is what the writer took off followed by what is queued.
* `hand`, `written` — what the writer took is what it is done with and what it holds, and it has
  handed to the stream one text for each entry that passes the level filter, between its first and
  its last line.
* `stage` — the writer leaves its loop at the first entry with level `OTHER`.
* `levels`, `begun` — only the destructor logs such an entry, once.

So the writer ends at the destructor's own entry (`Inv.upToSentinel`).
-/

namespace CppServer.Logger

variable {ι ε : Type*}

/-- The entry a caller has not pushed yet. -/
def CallerPc.pending : CallerPc ε → List (Entry ε)
  | .entering e => [e]
  | .test e => [e]
  | .sleeping e => [e]
  | .woken e => [e]
  | .room e => [e]
  | _ => []

/-- The entry the writer has taken and is not done with. -/
def WriterPc.hand : WriterPc ε → List (Entry ε)
  | .popped e => [e]
  | .notified e => [e]
  | .judging e => [e]
  | .filing e => [e]
  | .formatting e => [e]
  | _ => []

/-- What the writer is done with, by where it is: entries with another level than `OTHER`, and
once it has left its loop the one entry that made it leave. -/
def WriterPc.stage (done : List (Entry ε)) : WriterPc ε → Prop
  | .start => done = []
  | .filing e => e.level ≠ .OTHER ∧ ∀ x ∈ done, x.level ≠ .OTHER
  | .formatting e => e.level ≠ .OTHER ∧ ∀ x ∈ done, x.level ≠ .OTHER
  | .ending => ∃ es e, done = es ++ [e] ∧ e.level = .OTHER ∧ ∀ x ∈ es, x.level ≠ .OTHER
  | .exited => ∃ es e, done = es ++ [e] ∧ e.level = .OTHER ∧ ∀ x ∈ es, x.level ≠ .OTHER
  | _ => ∀ x ∈ done, x.level ≠ .OTHER

def WriterPc.firstLine : WriterPc ε → List (Line ε)
  | .start => []
  | _ => [.logStart]

def WriterPc.lastLine : WriterPc ε → List (Line ε)
  | .exited => [.logEnd]
  | _ => []

/-- The destructor has called `Log`. -/
def Life.hasBegun : Life → Bool
  | .opening => false
  | .alive => false
  | _ => true

/-- The destructor has joined the writer. -/
def Life.hasJoined : Life → Prop
  | .closing => True
  | .destroyed => True
  | _ => False

/-- An entry the writer formats: it passes the filter and is not the destructor's. -/
def Config.visible (cfg : Config) (e : Entry ε) : Bool :=
  decide (e.level ≠ .OTHER) && decide (cfg.level ≤ e.level.value)

/-- The lines for a series of entries the writer is done with. -/
def Config.texts (cfg : Config) (es : List (Entry ε)) : List (Line ε) :=
  (es.filter cfg.visible).map .text

section Invariant

variable [DecidableEq ι]

/-- What holds in every reachable state of the appender. -/
structure Inv (cfg : Config) (s : State ι ε) : Prop where
  fifo : s.dequeued ++ s.queue = s.pushed.map Prod.snd
  program : ∀ c, part c s.pushed ++ (s.caller c).pending = s.logged c
  hand : s.processed ++ s.writer.hand = s.dequeued
  written : s.written = s.writer.firstLine ++ cfg.texts s.processed ++ s.writer.lastLine
  stage : s.writer.stage s.processed
  ready : s.writer = .ready → s.queue ≠ []
  levels : ∀ c, ∀ e ∈ s.logged (.producer c), e.level ≠ .OTHER
  begun : s.logged .destructor = if s.life.hasBegun then [sentinel] else []
  joined : s.life.hasJoined → s.writer = .exited

variable {cfg : Config} {s : State ι ε} {a : Action ι ε}

theorem inv_init : Inv cfg ({} : State ι ε) where
  fifo := rfl
  program _ := rfl
  hand := rfl
  written := rfl
  stage := rfl
  ready := by simp
  levels := by simp
  begun := rfl
  joined := by simp [Life.hasJoined]

/-! ## The queue -/

lemma fifo_step (h : s.dequeued ++ s.queue = s.pushed.map Prod.snd) (hg : guard s a) :
    (effect cfg s a).dequeued ++ (effect cfg s a).queue = (effect cfg s a).pushed.map Prod.snd := by
  obtain ⟨popped, pushed, hgoes, hdequeued, hpushed⟩ := queue_step cfg hg
  rw [hdequeued, hpushed, List.map_append, ← h]
  generalize (effect cfg s a).queue = q' at hgoes
  generalize s.queue = q at hgoes
  cases hgoes <;> simp

/-- A caller has pushed what it has logged, but for the entry it still has to push. -/
lemma program_step (h : ∀ c, part c s.pushed ++ (s.caller c).pending = s.logged c)
    (hg : guard s a) (d : Caller ι) :
    part d (effect cfg s a).pushed ++ ((effect cfg s a).caller d).pending
      = (effect cfg s a).logged d := by
  have hd := h d
  rcases caller_step cfg hg d with ⟨hstays, hsame⟩ | hgoes
  · have hlogged : (effect cfg s a).logged d = s.logged d := by
      rcases logged_step cfg s a d with ⟨-, hlogged⟩ | ⟨e, hlogs, -⟩
      · exact hlogged
      · exact absurd hlogs.goes (hstays _ _)
    obtain ⟨popped, pushed, hqueue, -, hpushed⟩ := queue_step cfg hg
    rw [hsame, hlogged, hpushed]
    generalize (effect cfg s a).queue = q' at hqueue
    generalize s.queue = q at hqueue
    cases hqueue with
    | push =>
        -- somebody else pushes
        rw [part_append_of_ne, hd]
        rintro rfl
        exact hstays _ _ .push
    | _ => rw [List.append_nil, hd]
  · generalize (effect cfg s a).caller d = q at hgoes
    generalize s.caller d = p at hgoes hd
    cases hgoes with
    | log => simp [effect, State.call, ← hd, CallerPc.pending]
    | dtorBegin => simp [effect, State.call, ← hd, CallerPc.pending]
    | push => simp [effect, State.moveTo, part_append_self, ← hd, CallerPc.pending]
    | full =>
        rw [effect_logTest]
        exact hd
    | room =>
        rw [effect_logTest]
        exact hd
    | _ => exact hd

/-! ## The writer -/

lemma hand_step (h : s.processed ++ s.writer.hand = s.dequeued) (hg : guard s a) :
    (effect cfg s a).processed ++ (effect cfg s a).writer.hand = (effect cfg s a).dequeued := by
  obtain ⟨taken, finished, lines, hgoes, hdequeued, hprocessed, -⟩ := writer_step cfg hg
  rw [hprocessed, hdequeued, ← h]
  generalize (effect cfg s a).writer = q at hgoes
  generalize s.writer = p at hgoes
  cases hgoes <;> simp [WriterPc.hand]

lemma written_step
    (h : s.written = s.writer.firstLine ++ cfg.texts s.processed ++ s.writer.lastLine)
    (hstage : s.writer.stage s.processed) (hg : guard s a) :
    (effect cfg s a).written = (effect cfg s a).writer.firstLine
      ++ cfg.texts (effect cfg s a).processed ++ (effect cfg s a).writer.lastLine := by
  obtain ⟨taken, finished, lines, hgoes, -, hprocessed, hwritten⟩ := writer_step cfg hg
  rw [hprocessed, hwritten, h]
  generalize (effect cfg s a).writer = q at hgoes
  generalize s.writer = p at hgoes hstage
  cases hgoes with
  | start =>
      have hnil : s.processed = [] := hstage
      simp [hnil, Config.texts, WriterPc.firstLine, WriterPc.lastLine]
  | leave hother =>
      simp [Config.texts, Config.visible, hother, WriterPc.firstLine, WriterPc.lastLine]
  | format hlevel =>
      have hne := hstage.1
      simp [Config.texts, Config.visible, hne, hlevel, WriterPc.firstLine, WriterPc.lastLine]
  | filter hlevel =>
      simp [Config.texts, Config.visible, hlevel, WriterPc.firstLine, WriterPc.lastLine]
  | _ => simp [WriterPc.firstLine, WriterPc.lastLine]

lemma stage_step (h : s.writer.stage s.processed) (hg : guard s a) :
    (effect cfg s a).writer.stage (effect cfg s a).processed := by
  obtain ⟨taken, finished, lines, hgoes, -, hprocessed, -⟩ := writer_step cfg hg
  rw [hprocessed]
  generalize (effect cfg s a).writer = q at hgoes
  generalize s.writer = p at hgoes h
  -- a formatted or filtered entry is not the destructor's
  have done : ∀ e : Entry ε, (e.level ≠ .OTHER ∧ ∀ x ∈ s.processed, x.level ≠ .OTHER) →
      ∀ x ∈ s.processed ++ [e], x.level ≠ .OTHER := by
    rintro e ⟨he, hold⟩ x hx
    rcases List.mem_append.mp hx with hx | hx
    · exact hold x hx
    · rw [List.mem_singleton.mp hx]
      exact he
  cases hgoes with
  | start =>
      have hnil : s.processed = [] := h
      simp [WriterPc.stage, hnil]
  | leave hother => exact ⟨s.processed, _, rfl, hother, h⟩
  | judge hother =>
      rw [List.append_nil]
      exact ⟨hother, h⟩
  | format hlevel => exact done _ h
  | filter hlevel => exact done _ h
  | _ =>
      rw [List.append_nil]
      exact h

/-- The writer finds the queue as it left it, or longer. -/
lemma ready_step (h : s.writer = .ready → s.queue ≠ []) (hg : guard s a)
    (hw : (effect cfg s a).writer = .ready) : (effect cfg s a).queue ≠ [] := by
  obtain ⟨taken, finished, lines, hgoes, -, -, -⟩ := writer_step cfg hg
  rw [hw] at hgoes
  generalize hp : s.writer = p at hgoes
  cases hgoes with
  | stays ha =>
      obtain ⟨popped, pushed, hqueue, -, -⟩ := queue_step cfg hg
      have hne := h hp
      generalize (effect cfg s a).queue = q' at hqueue
      generalize s.queue = q at hqueue hne
      cases hqueue with
      | stays => exact hne
      | pop => simp [Action.ofWriter] at ha
      | push => simp
  | ready =>
      rw [effect_writerTest] at hw ⊢
      intro hnil
      simp [show s.queue = [] from hnil] at hw

/-! ## The destructor's entry -/

lemma levels_step (h : ∀ c, ∀ e ∈ s.logged (.producer c), e.level ≠ .OTHER) (hg : guard s a)
    (c : ι) : ∀ e ∈ (effect cfg s a).logged (.producer c), e.level ≠ .OTHER := by
  rcases logged_step cfg s a (.producer c) with ⟨-, hsame⟩ | ⟨x, hlogs, hmore⟩
  · rw [hsame]
    exact h c
  · rw [hmore]
    intro e he
    rcases List.mem_append.mp he with he | he
    · exact h c e he
    · rw [List.mem_singleton.mp he]
      cases hlogs
      exact hg.2.2

lemma begun_step (h : s.logged .destructor = if s.life.hasBegun then [sentinel] else [])
    (hg : guard s a) : (effect cfg s a).logged .destructor
      = if (effect cfg s a).life.hasBegun then [sentinel] else [] := by
  rcases logged_step cfg s a .destructor with ⟨hnone, hsame⟩ | ⟨x, hlogs, hmore⟩
  · have hlife := life_step cfg hg
    rw [hsame, h]
    generalize (effect cfg s a).life = l' at hlife
    generalize s.life = l at hlife
    cases hlife with
    | dtorBegin => exact absurd .dtorBegin (hnone sentinel)
    | _ => rfl
  · cases hlogs
    rw [hmore, h, hg.1]
    rfl

lemma joined_step (h : s.life.hasJoined → s.writer = .exited) (hg : guard s a)
    (hj : (effect cfg s a).life.hasJoined) : (effect cfg s a).writer = .exited := by
  have hexited : s.writer = .exited := by
    have hlife := life_step cfg hg
    generalize (effect cfg s a).life = l' at hlife hj
    generalize hl : s.life = l at hlife h
    cases hlife with
    | stays => exact h hj
    | ctorOpen => exact absurd hj id
    | dtorBegin => exact absurd hj id
    | dtorLogged => exact absurd hj id
    | dtorJoin => exact hg.2
    | dtorClose => exact h trivial
  obtain ⟨taken, finished, lines, hgoes, -, -, -⟩ := writer_step cfg hg
  rw [hexited] at hgoes
  generalize (effect cfg s a).writer = q at hgoes ⊢
  cases hgoes
  rfl

/-! ## Every reachable state -/

theorem inv_step (h : Inv cfg s) (hg : guard s a) : Inv cfg (effect cfg s a) where
  fifo := fifo_step h.fifo hg
  program := program_step h.program hg
  hand := hand_step h.hand hg
  written := written_step h.written h.stage hg
  stage := stage_step h.stage hg
  ready := ready_step h.ready hg
  levels := levels_step h.levels hg
  begun := begun_step h.begun hg
  joined := joined_step h.joined hg

/-- An entry with level `OTHER` in the queue's history is the destructor's. -/
lemma Inv.eq_sentinel (h : Inv cfg s) {p : Caller ι × Entry ε} (hp : p ∈ s.pushed)
    (hlevel : p.2.level = .OTHER) : p = (.destructor, sentinel) ∧ s.life.hasBegun = true := by
  obtain ⟨c, e⟩ := p
  have hlog : e ∈ s.logged c := by
    rw [← h.program c]
    exact List.mem_append_left _ (mem_part.mpr hp)
  cases c with
  | producer c => exact absurd hlevel (h.levels c e hlog)
  | destructor =>
      rw [h.begun] at hlog
      split at hlog
      · rename_i hbegun
        rw [List.mem_singleton.mp hlog]
        exact ⟨rfl, hbegun⟩
      · simp at hlog

/-- The writer has dealt with what was pushed up to the destructor's entry, and with nothing
else. -/
structure UpToSentinel (s : State ι ε) (before after : List (Caller ι × Entry ε)) : Prop where
  pushed : s.pushed = before ++ (.destructor, sentinel) :: after
  processed : s.processed = before.map Prod.snd ++ [sentinel]
  others : ∀ p ∈ before, p.2.level ≠ .OTHER

/-- **Where the writer ends.**  What it is done with is a prefix of what was pushed that ends at
its first entry with level `OTHER`, and that is the destructor's. -/
theorem Inv.upToSentinel (h : Inv cfg s) (hw : s.writer = .exited) :
    ∃ before after, UpToSentinel s before after := by
  have hstage := h.stage
  rw [hw] at hstage
  obtain ⟨es, e, hdone, hother, hes⟩ := hstage
  have hhand := h.hand
  rw [hw, show (WriterPc.exited : WriterPc ε).hand = [] from rfl, List.append_nil] at hhand
  have hfifo := h.fifo
  rw [← hhand, hdone, List.append_assoc, List.singleton_append] at hfifo
  obtain ⟨before, rest, hpushed, hbefore, hrest⟩ := List.map_eq_append_iff.mp hfifo.symm
  obtain ⟨p, after, rfl, hpe, -⟩ := List.map_eq_cons_iff.mp hrest
  have hp : p = (.destructor, sentinel) :=
    (h.eq_sentinel (by rw [hpushed]; simp) (hpe ▸ hother)).1
  have hes' : e = sentinel := by rw [← hpe, hp]
  refine ⟨before, after, hp ▸ hpushed, by rw [hdone, hbefore, hes'], fun q hq => ?_⟩
  exact hes q.2 (hbefore ▸ List.mem_map_of_mem hq)

end Invariant

end CppServer.Logger
