import CppServer.Logger.Bounded
import CppServer.Logger.Quiescent

/-!
# Whether the log file is complete

What the writer hands to the stream is complete (`Quiescent`).  Whether the file holds it is
another matter: the stream is opened by the constructor, after the writer has been started, and
opened again by `Reopen`, and each time the file is truncated.

* `StreamInv` — what holds of the stream in every reachable state: it does not fail while it is
  open, and it is closed while `Reopen` is between its two calls.
* `lost_step` — the first line is lost, for good, by the steps that are not `InTime`, and by no
  others.
* `file_complete_iff` — so the file is complete exactly if the writer started when it was open,
  and no `Reopen` opened it after that.
-/

namespace CppServer.Logger

variable {ι ε : Type*}

/-- Between the call of `Reopen` and its return. -/
def CallerPc.reopens : CallerPc ε → Prop
  | .reopening => True
  | .reopenLocked => True
  | .reopenClosed => True
  | .reopenOpened => True
  | _ => False

/-- What a step does to the stream. -/
def Action.onStream (cfg : Config) : Action ι ε → Ofstream ε → Ofstream ε
  | .ctorOpen, f => f.open
  | .writerStart, f => f.put .logStart
  | .writerFormat e, f => if cfg.level ≤ e.level.value then f.put (.text e) else f
  | .writerEnd, f => f.put .logEnd
  | .reopenClose _, f => if f.fail then f else f.close
  | .reopenOpen _, f => f.open
  | .dtorClose, f => f.close
  | _, f => f

/-- The steps that open the stream. -/
def Action.opens : Action ι ε → Bool
  | .ctorOpen => true
  | .reopenOpen _ => true
  | _ => false

/-- The lines a step hands to the stream. -/
def Action.lines (cfg : Config) : Action ι ε → List (Line ε)
  | .writerStart => [.logStart]
  | .writerFormat e => if cfg.level ≤ e.level.value then [.text e] else []
  | .writerEnd => [.logEnd]
  | _ => []

section Steps

variable [DecidableEq ι] {cfg : Config} {s : State ι ε} {a : Action ι ε}

lemma effect_fileStream (a : Action ι ε) :
    (effect cfg s a).fileStream = a.onStream cfg s.fileStream := by
  cases a with
  | writerTest => rw [effect_writerTest]; rfl
  | writerPop => rw [effect_writerPop]; rfl
  | writerJudge e => rw [effect_writerJudge]; rfl
  | writerFormat e => rw [effect_writerFormat]; rfl
  | logTest c e => rw [effect_logTest]; rfl
  | _ => rfl

lemma effect_written (a : Action ι ε) : (effect cfg s a).written = s.written ++ a.lines cfg := by
  cases a with
  | writerStart => rfl
  | writerTest => rw [effect_writerTest]; exact (List.append_nil _).symm
  | writerPop => rw [effect_writerPop]; exact (List.append_nil _).symm
  | writerJudge e => rw [effect_writerJudge]; exact (List.append_nil _).symm
  | writerFormat e =>
      rw [effect_writerFormat]
      simp only [Action.lines]
      split
      · rfl
      · exact (List.append_nil _).symm
  | writerEnd => rfl
  | logTest c e => rw [effect_logTest]; exact (List.append_nil _).symm
  | _ => exact (List.append_nil _).symm

/-- The writer starts once. -/
lemma writer_start_iff (hg : guard s a) :
    (effect cfg s a).writer = .start ↔ s.writer = .start ∧ a ≠ .writerStart := by
  obtain ⟨taken, finished, lines, hgoes, -, -, -⟩ := writer_step cfg hg
  generalize (effect cfg s a).writer = q at hgoes ⊢
  generalize s.writer = p at hgoes ⊢
  cases hgoes with
  | stays ha =>
      refine (and_iff_left ?_).symm
      rintro rfl
      simp [Action.ofWriter] at ha
  | _ => simp

/-- Only a call of `Reopen` gets a caller there. -/
lemma reopens_step (hg : guard s a) {c : Caller ι} (h : ((effect cfg s a).caller c).reopens) :
    (s.caller c).reopens ∨ ∃ d, c = .producer d ∧ a = .reopen d := by
  rcases caller_step cfg hg c with ⟨-, hsame⟩ | hgoes
  · exact .inl (hsame ▸ h)
  · generalize (effect cfg s a).caller c = q at hgoes h
    generalize s.caller c = p at hgoes ⊢
    cases hgoes with
    | reopen => exact .inr ⟨_, rfl, rfl⟩
    | reopenLock => exact .inl trivial
    | reopenClose => exact .inl trivial
    | reopenOpen => exact .inl trivial
    | _ => exact absurd h id

/-- Who is between the two calls of `Reopen`. -/
lemma reopenClosed_iff (hg : guard s a) (c : Caller ι) :
    (effect cfg s a).caller c = .reopenClosed ↔
      a = .reopenClose c ∨ (s.caller c = .reopenClosed ∧ a ≠ .reopenOpen c) := by
  rcases caller_step cfg hg c with ⟨hnone, hsame⟩ | hgoes
  · have hclose : a ≠ .reopenClose c := by
      rintro rfl
      exact hnone _ _ .reopenClose
    have hopen : a ≠ .reopenOpen c := by
      rintro rfl
      exact hnone _ _ .reopenOpen
    rw [hsame, or_iff_right hclose, and_iff_left hopen]
  · generalize (effect cfg s a).caller c = q at hgoes
    generalize s.caller c = p at hgoes
    cases hgoes <;> simp

end Steps

/-! ## The stream -/

lemma put_isOpen (f : Ofstream ε) (l : Line ε) : (f.put l).isOpen = f.isOpen := by
  simp only [Ofstream.put]
  split <;> rfl

/-- A line reaches the file if the stream is open and has not failed. -/
lemma put_content (f : Ofstream ε) (l : Line ε) :
    (f.put l).content = if f.isOpen && !f.fail then f.content ++ [l] else f.content := by
  simp only [Ofstream.put]
  split <;> rfl

lemma put_fail {f : Ofstream ε} (hopen : f.isOpen = true) (hgood : f.fail = false) (l : Line ε) :
    (f.put l).fail = false := by
  simp [Ofstream.put, hopen, hgood]

/-- Opening what is closed. -/
lemma open_of_closed {f : Ofstream ε} (h : f.isOpen = false) :
    f.open = { isOpen := true, fail := false, content := [] } := by
  simp [Ofstream.open, h]

lemma close_isOpen (f : Ofstream ε) : f.close.isOpen = false := by
  simp only [Ofstream.close]
  split
  · rfl
  · rename_i hclosed
    simpa using hclosed

lemma close_content (f : Ofstream ε) : f.close.content = f.content := by
  simp only [Ofstream.close]
  split <;> rfl

/-- What holds of the stream in every reachable state. -/
structure StreamInv (s : State ι ε) : Prop where
  excl : Excl s.holdsFileMtx s.fileMtx
  opening : s.life = .opening → s.fileStream.isOpen = false ∧ s.fileStream.content = [] ∧
    ∀ c, ¬ (s.caller c).reopens
  destructor : ¬ (s.caller .destructor).reopens
  good : s.fileStream.isOpen = true → s.fileStream.fail = false
  closed : ∀ c, s.caller c = .reopenClosed → s.fileStream.isOpen = false
  start : s.writer = .start → s.fileStream.content = []

theorem streamInv_init : StreamInv ({} : State ι ε) where
  excl t := by cases t <;> simp [State.among, WriterPc.holdsFileMtx, CallerPc.holdsFileMtx]
  opening _ := ⟨rfl, rfl, fun _ => id⟩
  destructor := id
  good h := by simp at h
  closed _ h := by simp at h
  start _ := rfl

section StreamStep

variable [DecidableEq ι] {cfg : Config} {s : State ι ε} {a : Action ι ε}

omit [DecidableEq ι] in
/-- The constructor opens a closed stream, and so does `Reopen`. -/
lemma StreamInv.closed_of_opens (h : StreamInv s) (hg : guard s a) (ha : a.opens = true) :
    s.fileStream.isOpen = false := by
  cases a with
  | ctorOpen => exact (h.opening hg).1
  | reopenOpen c => exact h.closed c hg
  | _ => simp [Action.opens] at ha

lemma life_opening_iff (hg : guard s a) :
    (effect cfg s a).life = .opening ↔ s.life = .opening ∧ a ≠ .ctorOpen := by
  have hgoes := life_step cfg hg
  constructor
  · intro hl
    refine ⟨?_, by rintro rfl; simp [effect] at hl⟩
    rw [hl] at hgoes
    generalize s.life = l at hgoes ⊢
    cases hgoes
    rfl
  · rintro ⟨hl, hne⟩
    rw [hl] at hgoes
    generalize (effect cfg s a).life = l at hgoes ⊢
    cases hgoes with
    | stays => rfl
    | ctorOpen => exact absurd rfl hne

lemma good_step (h : StreamInv s) (hg : guard s a)
    (hopen : (effect cfg s a).fileStream.isOpen = true) :
    (effect cfg s a).fileStream.fail = false := by
  rw [effect_fileStream] at hopen ⊢
  cases a with
  | ctorOpen =>
      rw [Action.onStream, open_of_closed (h.closed_of_opens hg rfl)]
  | writerStart =>
      rw [Action.onStream, put_isOpen] at hopen
      exact put_fail hopen (h.good hopen) _
  | writerFormat e =>
      simp only [Action.onStream] at hopen ⊢
      split at hopen
      · rename_i hlevel
        rw [put_isOpen] at hopen
        rw [if_pos hlevel]
        exact put_fail hopen (h.good hopen) _
      · rename_i hlevel
        rw [if_neg hlevel]
        exact h.good hopen
  | writerEnd =>
      rw [Action.onStream, put_isOpen] at hopen
      exact put_fail hopen (h.good hopen) _
  | reopenClose c =>
      simp only [Action.onStream] at hopen ⊢
      split at hopen
      · rename_i hfail
        rw [h.good hopen] at hfail
        exact absurd hfail (by simp)
      · rw [close_isOpen] at hopen
        exact absurd hopen (by simp)
  | reopenOpen c =>
      rw [Action.onStream, open_of_closed (h.closed_of_opens hg rfl)]
  | dtorClose =>
      rw [Action.onStream, close_isOpen] at hopen
      exact absurd hopen (by simp)
  | _ => exact h.good hopen

/-- A closed stream stays closed in every other step. -/
lemma isOpen_step (hclosed : s.fileStream.isOpen = false) (ha : a.opens = false) :
    (effect cfg s a).fileStream.isOpen = false := by
  rw [effect_fileStream]
  cases a with
  | ctorOpen => simp [Action.opens] at ha
  | writerStart => rw [Action.onStream, put_isOpen, hclosed]
  | writerFormat e =>
      simp only [Action.onStream]
      split
      · rw [put_isOpen, hclosed]
      · exact hclosed
  | writerEnd => rw [Action.onStream, put_isOpen, hclosed]
  | reopenClose c =>
      simp only [Action.onStream]
      split
      · exact hclosed
      · exact close_isOpen _
  | reopenOpen c => simp [Action.opens] at ha
  | dtorClose => exact close_isOpen _
  | _ => exact hclosed

lemma closed_step (h : StreamInv s) (hg : guard s a) {c : Caller ι}
    (hc : (effect cfg s a).caller c = .reopenClosed) :
    (effect cfg s a).fileStream.isOpen = false := by
  rcases (reopenClosed_iff hg c).mp hc with rfl | ⟨hold, hne⟩
  · rw [effect_fileStream]
    simp only [Action.onStream]
    split
    · rename_i hfail
      by_contra hopen
      rw [h.good (by simpa using hopen)] at hfail
      exact absurd hfail (by simp)
    · exact close_isOpen _
  · refine isOpen_step (h.closed c hold) ?_
    -- nobody else is between the two calls
    cases a with
    | ctorOpen => exact absurd (hold ▸ trivial) ((h.opening hg).2.2 c)
    | reopenOpen d =>
        have hd : s.caller d = .reopenClosed := hg
        have hdc : Thread.caller d = Thread.caller c :=
          h.excl.unique ((among_caller hd).mpr trivial) ((among_caller hold).mpr trivial)
        exact absurd (by rw [Thread.caller.inj hdc]) hne
    | _ => rfl

/-- Opening truncates the file. -/
lemma content_of_opens (h : StreamInv s) (hg : guard s a) (ha : a.opens = true) :
    (effect cfg s a).fileStream.content = [] := by
  have hclosed := h.closed_of_opens hg ha
  rw [effect_fileStream]
  cases a with
  | ctorOpen => rw [Action.onStream, open_of_closed hclosed]
  | reopenOpen c => rw [Action.onStream, open_of_closed hclosed]
  | _ => simp [Action.opens] at ha

/-- Every other step adds its lines to the file, if the stream is open. -/
lemma content_step (h : StreamInv s) (ha : a.opens = false) :
    (effect cfg s a).fileStream.content =
      if s.fileStream.isOpen then s.fileStream.content ++ a.lines cfg
      else s.fileStream.content := by
  have hput : ∀ l : Line ε, (s.fileStream.put l).content =
      if s.fileStream.isOpen then s.fileStream.content ++ [l] else s.fileStream.content := by
    intro l
    rw [put_content]
    by_cases hopen : s.fileStream.isOpen = true
    · simp [hopen, h.good hopen]
    · simp [hopen]
  rw [effect_fileStream]
  cases a with
  | ctorOpen => simp [Action.opens] at ha
  | writerStart => exact hput _
  | writerFormat e =>
      simp only [Action.onStream, Action.lines]
      split
      · exact hput _
      · simp
  | writerEnd => exact hput _
  | reopenClose c =>
      simp only [Action.onStream, Action.lines, List.append_nil, ite_self]
      split
      · rfl
      · exact close_content _
  | reopenOpen c => simp [Action.opens] at ha
  | dtorClose =>
      simp only [Action.onStream, Action.lines, List.append_nil, ite_self]
      exact close_content _
  | _ => simp [Action.onStream, Action.lines]

omit [DecidableEq ι] in
/-- A writer at the start hands no line to the stream, unless it starts. -/
lemma lines_of_start (hg : guard s a) (hw : s.writer = .start) (ha : a ≠ .writerStart) :
    a.lines cfg = [] := by
  cases a with
  | writerStart => exact absurd rfl ha
  | writerFormat e =>
      rw [show s.writer = .formatting e from hg] at hw
      simp at hw
  | writerEnd =>
      rw [show s.writer = .ending from hg] at hw
      simp at hw
  | _ => rfl

theorem streamInv_step (h : StreamInv s) (hg : guard s a) : StreamInv (effect cfg s a) where
  excl := fileMtx_step h.excl hg
  opening hlife := by
    obtain ⟨hold, hne⟩ := (life_opening_iff hg).mp hlife
    obtain ⟨hclosed, hcontent, hidle⟩ := h.opening hold
    have ha : a.opens = false := by
      cases a with
      | ctorOpen => exact absurd rfl hne
      | reopenOpen c =>
          refine absurd ?_ (hidle c)
          rw [show s.caller c = .reopenClosed from hg]
          trivial
      | _ => rfl
    refine ⟨isOpen_step hclosed ha, ?_, fun c hc => ?_⟩
    · rw [content_step h ha, hclosed, hcontent]
      rfl
    · rcases reopens_step hg hc with hin | ⟨d, -, rfl⟩
      · exact hidle c hin
      · rw [hg.1] at hold
        simp at hold
  destructor hc := by
    rcases reopens_step hg hc with hin | ⟨d, heq, -⟩
    · exact h.destructor hin
    · simp at heq
  good := good_step h hg
  closed _ := closed_step h hg
  start hw := by
    obtain ⟨hold, hne⟩ := (writer_start_iff hg).mp hw
    cases ha : a.opens with
    | true => exact content_of_opens h hg ha
    | false =>
        rw [content_step h ha, lines_of_start hg hold hne, h.start hold]
        simp

/-! ## The first line -/

/-- The first line has been handed to the stream, and is not in the file. -/
def State.Lost (s : State ι ε) : Prop := s.writer ≠ .start ∧ .logStart ∉ s.fileStream.content

/-- The writer starts when the stream is open, and `Reopen` opens it before the writer starts. -/
def InTime (s : State ι ε) (a : Action ι ε) : Prop :=
  (a = .writerStart → s.fileStream.isOpen = true) ∧ ∀ c, a = .reopenOpen c → s.writer = .start

instance [Fintype ι] [DecidableEq ε] (s : State ι ε) (a : Action ι ε) : Decidable (InTime s a) :=
  inferInstanceAs (Decidable (_ ∧ _))

omit [DecidableEq ι] in
lemma logStart_notMem_lines (cfg : Config) (ha : a ≠ .writerStart) : .logStart ∉ a.lines cfg := by
  cases a with
  | writerStart => exact absurd rfl ha
  | writerFormat e =>
      simp only [Action.lines]
      split <;> simp
  | _ => simp [Action.lines]

/-- **What loses the first line**, for good: exactly the steps that are not in time. -/
theorem lost_step (h : StreamInv s) (hg : guard s a) :
    (effect cfg s a).Lost ↔ s.Lost ∨ ¬ InTime s a := by
  rw [State.Lost, State.Lost, ne_eq, writer_start_iff hg]
  cases ha : a.opens with
  | true =>
      rw [content_of_opens h hg ha]
      cases a with
      | ctorOpen => simp [InTime, (h.opening hg).2.1]
      | reopenOpen c =>
          have hlate : ¬ InTime s (.reopenOpen c) ↔ s.writer ≠ .start := by simp [InTime]
          rw [hlate, or_iff_right_of_imp fun hlost => hlost.1]
          simp
      | _ => simp [Action.opens] at ha
  | false =>
      rw [content_step h ha]
      have hreopen : ∀ c, a ≠ .reopenOpen c := by
        rintro c rfl
        simp [Action.opens] at ha
      by_cases hstart : a = .writerStart
      · subst hstart
        have hw : s.writer = .start := hg
        cases hopen : s.fileStream.isOpen <;>
          simp [InTime, hw, hopen, h.start hw, Action.lines]
      · have hnot := logStart_notMem_lines cfg hstart
        by_cases hopen : s.fileStream.isOpen <;> simp [InTime, hstart, hreopen, hopen, hnot]

/-! ## The whole file -/

/-- What the writer has handed to the stream is in the file; or a `Reopen` is under way that will
truncate it. -/
def State.Kept (s : State ι ε) : Prop := s.writer ≠ .start →
  (s.fileStream.content = s.written ∧ (s.fileStream.isOpen = true ∨ s.life = .destroyed)) ∨
    ∃ c, s.caller c = .reopenClosed

/-- A writer that has been joined hands nothing to the stream. -/
lemma lines_of_destroyed (hinv : Inv cfg s) (hg : guard s a) (hlife : s.life = .destroyed) :
    a.lines cfg = [] := by
  have hw : s.writer = .exited := hinv.joined (by rw [hlife]; trivial)
  cases a with
  | writerStart =>
      rw [show s.writer = .start from hg] at hw
      simp at hw
  | writerFormat e =>
      rw [show s.writer = .formatting e from hg] at hw
      simp at hw
  | writerEnd =>
      rw [show s.writer = .ending from hg] at hw
      simp at hw
  | _ => rfl

/-- A destroyed appender stays destroyed. -/
lemma destroyed_step (hg : guard s a) (hlife : s.life = .destroyed) :
    (effect cfg s a).life = .destroyed := by
  have hgoes := life_step cfg hg
  rw [hlife] at hgoes
  generalize (effect cfg s a).life = l at hgoes ⊢
  cases hgoes
  rfl

/-- What becomes of an open stream that nobody opens. -/
lemma open_step (cfg : Config) (hopen : s.fileStream.isOpen = true) (ha : a.opens = false) :
    (effect cfg s a).fileStream.isOpen = true ∨ (∃ c, a = .reopenClose c) ∨ a = .dtorClose := by
  rw [effect_fileStream]
  cases a with
  | ctorOpen => simp [Action.opens] at ha
  | writerStart => exact .inl (by rw [Action.onStream, put_isOpen, hopen])
  | writerFormat e =>
      refine .inl ?_
      simp only [Action.onStream]
      split
      · rw [put_isOpen, hopen]
      · exact hopen
  | writerEnd => exact .inl (by rw [Action.onStream, put_isOpen, hopen])
  | reopenClose c => exact .inr (.inl ⟨c, rfl⟩)
  | reopenOpen c => simp [Action.opens] at ha
  | dtorClose => exact .inr (.inr rfl)
  | _ => exact .inl hopen

/-- A step in time keeps what has been written.  A caller that is about to open the stream cannot
do so in time any more, so it stays where it is. -/
theorem kept_step (hinv : Inv cfg s) (h : StreamInv s) (hkept : s.Kept) (hin : InTime s a)
    (hg : guard s a) : (effect cfg s a).Kept := by
  intro hw
  rw [ne_eq, writer_start_iff hg, not_and, not_not] at hw
  by_cases hstart : s.writer = .start
  · -- the writer starts, with the stream open and nothing written
    obtain rfl : a = .writerStart := hw hstart
    have hopen := hin.1 rfl
    have hwritten : s.written = [] := by
      have hdone : s.processed = [] := by
        have hstage := hinv.stage
        rwa [hstart] at hstage
      rw [hinv.written, hstart, hdone]
      rfl
    refine .inl ⟨?_, .inl ?_⟩
    · rw [content_step h rfl, hopen, h.start hstart, effect_written, hwritten]
      rfl
    · rw [effect_fileStream, Action.onStream, put_isOpen, hopen]
  · have hreopen : ∀ c, a ≠ .reopenOpen c := fun c hc => hstart (hin.2 c hc)
    rcases hkept hstart with ⟨hcontent, hlive⟩ | ⟨c, hc⟩
    · have ha : a.opens = false := by
        cases a with
        | ctorOpen =>
            have hclosed := (h.opening hg).1
            rw [hclosed, show s.life = .opening from hg] at hlive
            simp at hlive
        | reopenOpen c => exact absurd rfl (hreopen c)
        | _ => rfl
      have hkeep : (effect cfg s a).fileStream.content = (effect cfg s a).written := by
        rw [content_step h ha, effect_written, hcontent]
        rcases hlive with hopen | hdead
        · rw [if_pos hopen]
        · rw [lines_of_destroyed hinv hg hdead, List.append_nil, ite_self]
      rcases hlive with hopen | hdead
      · rcases open_step cfg hopen ha with hstill | ⟨c, rfl⟩ | rfl
        · exact .inl ⟨hkeep, .inl hstill⟩
        · exact .inr ⟨c, (reopenClosed_iff hg c).mpr (.inl rfl)⟩
        · exact .inl ⟨hkeep, .inr rfl⟩
      · exact .inl ⟨hkeep, .inr (destroyed_step hg hdead)⟩
    · exact .inr ⟨c, (reopenClosed_iff hg c).mpr (.inr ⟨hc, hreopen c⟩)⟩

end StreamStep

/-! ## The levels -/

/-- A call of `Log` has a level that passes the appender's own. -/
def Passes (cfg : Config) : Action ι ε → Prop
  | .log _ level _ => cfg.level ≤ level.value
  | _ => True

section Levels

variable [DecidableEq ι] {cfg : Config} {s : State ι ε} {a : Action ι ε}

/-- A step that passes logs only what passes. -/
lemma passes_step (h : ∀ c, ∀ e ∈ s.logged (.producer c), cfg.level ≤ e.level.value)
    (hp : Passes cfg a) (c : ι) :
    ∀ e ∈ (effect cfg s a).logged (.producer c), cfg.level ≤ e.level.value := by
  rcases logged_step cfg s a (.producer c) with ⟨-, hsame⟩ | ⟨x, hlogs, hmore⟩
  · rw [hsame]
    exact h c
  · rw [hmore]
    intro e he
    rcases List.mem_append.mp he with hold | hnew
    · exact h c e hold
    · rw [List.mem_singleton.mp hnew]
      cases hlogs
      exact hp

/-- With levels that pass, every accepted entry is formatted. -/
lemma texts_accepted (hinv : Inv cfg s)
    (hpasses : ∀ c, ∀ e ∈ s.logged (.producer c), cfg.level ≤ e.level.value) :
    cfg.texts s.accepted = s.accepted.map .text := by
  rw [Config.texts, List.filter_eq_self.mpr]
  intro e he
  obtain ⟨hmem, hlevel⟩ := List.mem_filter.mp he
  obtain ⟨⟨c, x⟩, hp, rfl⟩ := List.mem_map.mp hmem
  have hlogged : x ∈ s.logged c := by
    rw [← hinv.program c]
    exact List.mem_append_left _ (mem_part.mpr hp)
  cases c with
  | producer c => simpa [Config.visible, hpasses c x hlogged] using hlevel
  | destructor =>
      rw [hinv.begun] at hlogged
      split at hlogged
      · rw [List.mem_singleton.mp hlogged] at hlevel
        exact absurd hlevel (by simp [sentinel])
      · simp at hlogged

end Levels

/-! ## The result -/

section Result

variable [DecidableEq ι] [∀ (s : State ι ε) a, Decidable (guard s a)] {cfg : Config}
  {s₀ s : State ι ε}

lemma streamInv_inductive : (machine ι ε cfg).Inductive StreamInv :=
  Machine.guarded_inductive (fun _ hs => hs.2 ▸ streamInv_init) fun _ _ => streamInv_step

/-- The first line is in the file exactly if all steps were in time. -/
lemma lost_run_iff (hs₀ : (machine ι ε cfg).Init s₀) (as : List (Action ι ε))
    (hrun : (machine ι ε cfg).run s₀ as = some s) :
    ¬ s.Lost ↔ (machine ι ε cfg).Along InTime s₀ as := by
  have hstep : ∀ s a t, StreamInv s → (machine ι ε cfg).step s a = some t →
      (¬ t.Lost ↔ ¬ s.Lost ∧ InTime s a) := fun s a t h hst => by
    obtain ⟨hg, rfl⟩ := Machine.guarded_step_eq_some.mp hst
    rw [lost_step h hg, not_or, not_not]
  obtain ⟨-, rfl⟩ := hs₀
  rw [Machine.run_iff streamInv_inductive.step hstep as streamInv_init hrun, and_iff_right]
  exact fun hlost => hlost.1 rfl

lemma kept_run (hs₀ : (machine ι ε cfg).Init s₀) (as : List (Action ι ε))
    (hrun : (machine ι ε cfg).run s₀ as = some s)
    (hin : (machine ι ε cfg).Along InTime s₀ as) : s.Kept := by
  obtain ⟨-, rfl⟩ := hs₀
  refine (Machine.run_guarded (I := fun s => Inv cfg s ∧ StreamInv s ∧ s.Kept)
    (fun s a t h hin hst => ?_) as ⟨inv_init, streamInv_init, fun hw => absurd rfl hw⟩ hin
    hrun).2.2
  obtain ⟨hg, rfl⟩ := Machine.guarded_step_eq_some.mp hst
  exact ⟨inv_step h.1 hg, streamInv_step h.2.1 hg, kept_step h.1 h.2.1 h.2.2 hin hg⟩

/-- After a quiet destruction the file of a stream that was opened in time has all that was
written. -/
lemma content_of_destroyed (hs₀ : (machine ι ε cfg).Init s₀) (as : List (Action ι ε))
    (hrun : (machine ι ε cfg).run s₀ as = some s) (hlife : s.life = .destroyed)
    (hquiet : (machine ι ε cfg).Along Quiet s₀ as) (hin : (machine ι ε cfg).Along InTime s₀ as) :
    s.fileStream.content = s.written := by
  obtain ⟨hinv, hsettled⟩ := settled_run hs₀ as hquiet hrun
  have hstream : StreamInv s :=
    streamInv_inductive.reachable ((Machine.Reachable.init hs₀).run hrun)
  have hexited : s.writer = .exited := hinv.joined (by rw [hlife]; trivial)
  rcases kept_run hs₀ as hrun hin (by rw [hexited]; simp) with ⟨hcontent, -⟩ | ⟨c, hc⟩
  · exact hcontent
  · -- no `Reopen` is under way any more
    exfalso
    cases c with
    | producer c =>
        rw [hsettled.idle (by rw [hlife]; rfl) c] at hc
        simp at hc
    | destructor => exact hstream.destructor (by rw [hc]; trivial)

/-- **When the log file is complete.**  For every interleaving at whose end the appender is
destroyed, with no other call under way: the file holds the two lines of the writer and between
them the text of every accepted entry, in the order of the queue, if and only if the writer
started when the file was open and no `Reopen` opened it after that. -/
theorem file_complete_iff (hs₀ : (machine ι ε cfg).Init s₀) (as : List (Action ι ε))
    (hrun : (machine ι ε cfg).run s₀ as = some s) (hlife : s.life = .destroyed)
    (hquiet : (machine ι ε cfg).Along Quiet s₀ as) (hpasses : ∀ a ∈ as, Passes cfg a) :
    (∀ c, part (.producer c) s.pushed = s.logged (.producer c)) ∧
    (s.fileStream.content = .logStart :: s.accepted.map .text ++ [.logEnd] ↔
      (machine ι ε cfg).Along InTime s₀ as) := by
  obtain ⟨hinv, hsettled⟩ := settled_run hs₀ as hquiet hrun
  have hhanded := hsettled.handedOver hinv hlife
  have hstream : StreamInv s :=
    streamInv_inductive.reachable ((Machine.Reachable.init hs₀).run hrun)
  have hlevels : ∀ c, ∀ e ∈ s.logged (.producer c), cfg.level ≤ e.level.value := by
    refine Machine.run_guarded (P := fun _ a => Passes cfg a)
      (I := fun s : State ι ε => ∀ c, ∀ e ∈ s.logged (.producer c), cfg.level ≤ e.level.value)
      (fun s a t h hp hst => ?_) as ?_ (Machine.along_of_forall as hpasses) hrun
    · obtain ⟨-, rfl⟩ := Machine.guarded_step_eq_some.mp hst
      exact passes_step h hp
    · rw [hs₀.2]
      simp
  have hwritten : s.written = .logStart :: s.accepted.map .text ++ [.logEnd] := by
    rw [hhanded.written, texts_accepted hinv hlevels]
  have hexited : s.writer = .exited := hinv.joined (by rw [hlife]; trivial)
  refine ⟨hhanded.complete, ?_⟩
  constructor
  · intro hcontent
    rw [← lost_run_iff hs₀ as hrun]
    rintro ⟨-, hlost⟩
    rw [hcontent] at hlost
    exact hlost (by simp)
  · intro hin
    rcases kept_run hs₀ as hrun hin (by rw [hexited]; simp) with ⟨hcontent, -⟩ | ⟨c, hc⟩
    · rw [hcontent, hwritten]
    · -- no `Reopen` is under way any more
      exfalso
      cases c with
      | producer c =>
          rw [hsettled.idle (by rw [hlife]; rfl) c] at hc
          simp at hc
      | destructor => exact hstream.destructor (by rw [hc]; trivial)

end Result

/-- A writer that starts once the file is open, and one entry. -/
def afterOpening : List (Action Unit ℕ) :=
  oneEntry ++ [.writerStart] ++ writes ⟨.INFO, some 7⟩ ++ dtorLogs ++ shutsDown

theorem file_complete_iff_afterOpening :
    ∃ s, (machine Unit ℕ ⟨2, 1⟩).run {} afterOpening = some s ∧
      s.fileStream.content = .logStart :: s.accepted.map .text ++ [.logEnd] := by
  obtain ⟨s, hrun, hp⟩ := (Option.any_eq_true (fun s : State Unit ℕ => decide (s.life = .destroyed))
    ((machine Unit ℕ ⟨2, 1⟩).run {} afterOpening)).mp (by decide)
  refine ⟨s, hrun, (file_complete_iff ⟨Nat.two_pos, rfl⟩ afterOpening hrun (of_decide_eq_true hp)
    (by decide) ?_).2.mpr (by decide)⟩
  simp [afterOpening, oneEntry, writes, dtorLogs, shutsDown, Passes, Level.value]

/-- The writer may start before the constructor opens the file: then the first line is lost. -/
theorem first_line_lost :
    ¬ ∀ (cfg : Config) (s₀ s : State Unit ℕ) (as : List (Action Unit ℕ)),
      (machine Unit ℕ cfg).Init s₀ → (machine Unit ℕ cfg).run s₀ as = some s →
      s.life = .destroyed → (machine Unit ℕ cfg).Along Quiet s₀ as → (∀ a ∈ as, Passes cfg a) →
      s.fileStream.content = .logStart :: s.accepted.map .text ++ [.logEnd] := by
  intro h
  obtain ⟨s, hrun, hp⟩ := (Option.any_eq_true (fun s : State Unit ℕ =>
      decide (s.life = .destroyed ∧ s.fileStream.content = [.logEnd]))
    ((machine Unit ℕ ⟨2, 1⟩).run {} ([.writerStart, .ctorOpen] ++ dtorLogs ++ shutsDown))).mp
    (by decide)
  obtain ⟨hlife, hcontent⟩ := of_decide_eq_true hp
  have hcomplete := h ⟨2, 1⟩ {} s _ ⟨Nat.two_pos, rfl⟩ hrun hlife (by decide)
    (by simp [dtorLogs, shutsDown, Passes])
  rw [hcontent] at hcomplete
  simp at hcomplete

end CppServer.Logger
