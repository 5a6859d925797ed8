import CppServer.Lib.Component
import CppServer.Logger.FileComplete
import CppServer.Logger.Termination

/-!
# A logger that many threads use

`Logger::Log` takes no mutex of its own: it goes through `appenders_` and calls `Log` of each
appender.  Here any number of threads do so at the same time, and the appenders are
`FileAppender`s, each with its queue, its mutexes and its writer.  A thread that waits for room in
one queue has not reached the appenders behind it.

The level and the appenders have been set before the threads start, and the appenders are destroyed
when no thread is inside `Log` any more.

* `component` — inside the logger each appender is the machine of `FileAppender.lean`.
* `files_complete` — each file gets, for each thread, all that the thread has logged, in the order
  of its calls; how the threads take turns may differ from file to file.
* `calls_return` — no call of `Log` is stuck, whatever the sizes of the queues: the threads and the
  writers come to rest, and by then all that was logged has been written, to every file.
-/

namespace CppServer.SharedLogger

open Logger (Level Entry Caller Config)
open Function (update update_self update_of_ne)

variable {ι α ε : Type*}

/-- What `Log` is called with. -/
abbrev Logged (ε : Type*) := Level × ε

/-- What an appender queues of it. -/
def Logged.entry (x : Logged ε) : Entry ε := ⟨x.1, some x.2⟩

/-- The members of a `Logger`, with the appenders' own. -/
structure Setup (α : Type*) where
  level : Level := .INFO
  appenders : List α
  cfg : α → Config

/-- The appenders, and the threads. -/
structure State (ι α ε : Type*) where
  appender : α → Logger.State ι ε := fun _ => {}
  /-- for a thread inside `Log`, its arguments and the appenders it has not come to -/
  call : ι → Option (Logged ε × List α) := fun _ => none
  /-- history: what each thread has logged that passes `level_` -/
  calls : ι → List (Entry ε) := fun _ => []

/-- One step of one thread. -/
inductive Action (ι α ε : Type*) where
  | log (c : ι) (x : Logged ε)
  /-- `appender->Log(level, event)` -/
  | callAppender (c : ι) (x : Logged ε) (a : α) (rest : List α)
  | logReturn (c : ι) (x : Logged ε)
  /-- a step of appender `a`, by whichever thread -/
  | appender (a : α) (b : Logger.Action ι ε)
  deriving DecidableEq

variable {setup : Setup α} {s : State ι α ε} {act : Action ι α ε}

/-- Thread `c` is inside no member function of an appender. -/
def State.Free (setup : Setup α) (s : State ι α ε) (c : ι) : Prop :=
  ∀ a ∈ setup.appenders, (s.appender a).caller (.producer c) = .idle

/-- Nor is it inside `Log` of the logger. -/
def State.Outside (setup : Setup α) (s : State ι α ε) (c : ι) : Prop :=
  s.call c = none ∧ s.Free setup c

/-- The steps of an appender that the threads of the logger bring about: `Log` is called by
`Logger::Log` only, a thread reopens the file when it does nothing else, and the appender is
destroyed when all of them are outside. -/
def May (setup : Setup α) (s : State ι α ε) : Logger.Action ι ε → Prop
  | .log _ _ _ => False
  | .reopen c => s.Outside setup c
  | .dtorBegin => ∀ c, s.Outside setup c
  | _ => True

/-- When a step can be taken. -/
def guard (setup : Setup α) (s : State ι α ε) : Action ι α ε → Prop
  | .log c x =>
      x.1 ≠ .OTHER ∧ s.Outside setup c ∧ ∀ a ∈ setup.appenders, (s.appender a).life = .alive
  | .callAppender c x a rest => s.call c = some (x, a :: rest) ∧ s.Free setup c
  | .logReturn c x => s.call c = some (x, []) ∧ s.Free setup c
  | .appender a b => a ∈ setup.appenders ∧ May setup s b ∧ Logger.guard (s.appender a) b

variable [DecidableEq ι] [DecidableEq α]

/-- Appender `a` takes a step. -/
def State.stepAppender (s : State ι α ε) (setup : Setup α) (a : α) (b : Logger.Action ι ε) :
    State ι α ε :=
  { s with appender := update s.appender a (Logger.effect (setup.cfg a) (s.appender a) b) }

/-- What a step does. -/
def effect (setup : Setup α) (s : State ι α ε) : Action ι α ε → State ι α ε
  | .log c x =>
      if setup.level.value ≤ x.1.value then
        { s with call := update s.call c (some (x, setup.appenders)),
                 calls := update s.calls c (s.calls c ++ [x.entry]) }
      else s
  | .callAppender c x a rest =>
      { s.stepAppender setup a (.log c x.1 x.2) with
          call := update s.call c (some (x, rest)) }
  | .logReturn c _ => { s with call := update s.call c none }
  | .appender a b => s.stepAppender setup a b

section Decidable

variable [Fintype ι] [DecidableEq ε]

instance (s : State ι α ε) (c : ι) : Decidable (s.Free setup c) :=
  inferInstanceAs (Decidable (∀ a ∈ setup.appenders, _))

instance (s : State ι α ε) (c : ι) : Decidable (s.Outside setup c) :=
  haveI : Decidable (s.call c = none) := decidable_of_iff _ Option.isNone_iff_eq_none
  inferInstanceAs (Decidable (_ ∧ _))

instance decidableMay (s : State ι α ε) : ∀ b : Logger.Action ι ε, Decidable (May setup s b)
  | .log _ _ _ => isFalse id
  | .reopen c => inferInstanceAs (Decidable (s.Outside setup c))
  | .dtorBegin => inferInstanceAs (Decidable (∀ c, s.Outside setup c))
  | .ctorOpen | .writerStart | .writerLock | .writerTest | .writerSpuriousWake | .writerPop
  | .writerNotify _ _ | .writerUnlock _ | .writerJudge _ | .writerFileLock _ | .writerFormat _
  | .writerFileUnlock | .writerEnd | .logLock _ _ | .logTest _ _ | .logSpuriousWake _ _
  | .logPush _ _ | .logNotify _ | .logUnlock _ | .reopenLock _ | .reopenClose _ | .reopenOpen _
  | .reopenUnlock _ | .dtorLogged | .dtorJoin | .dtorClose => isTrue trivial

/-- With finitely many threads it can be decided whether a step can be taken. -/
instance decidableGuard (s : State ι α ε) : ∀ act, Decidable (guard setup s act)
  | .log c _ =>
      inferInstanceAs (Decidable (¬ _ ∧ s.Outside setup c ∧ ∀ a ∈ setup.appenders, _))
  | .callAppender c _ _ _ => inferInstanceAs (Decidable (_ ∧ s.Free setup c))
  | .logReturn c _ => inferInstanceAs (Decidable (_ ∧ s.Free setup c))
  | .appender _ b => inferInstanceAs (Decidable (_ ∧ May setup s b ∧ _))

end Decidable

/-- A logger whose appenders have started their writers, and have not opened their files yet. -/
def machine (ι ε : Type*) {α : Type*} [DecidableEq ι] [DecidableEq α] (setup : Setup α)
    [∀ (s : State ι α ε) act, Decidable (guard setup s act)] :
    Machine (State ι α ε) (Action ι α ε) :=
  Machine.guarded
    (fun s => (∀ a ∈ setup.appenders, 0 < (setup.cfg a).maxQueueSize) ∧ s = {})
    (guard setup) (effect setup)

/-! ## What the threads have logged -/

/-- What the call under way still owes to appender `a`. -/
def State.owed (s : State ι α ε) (c : ι) (a : α) : List (Entry ε) :=
  (s.call c).elim [] fun p => List.replicate (p.2.count a) p.1.entry

/-- What appender `a` should get from thread `c`: each entry as often as it is attached. -/
def State.due (setup : Setup α) (s : State ι α ε) (c : ι) (a : α) : List (Entry ε) :=
  (s.calls c).flatMap fun e => List.replicate (setup.appenders.count a) e

/-- A call of `Log` that is under way. -/
structure UnderWay (setup : Setup α) (p : Logged ε × List α) : Prop where
  level : p.1.1 ≠ .OTHER
  rest : p.2 ⊆ setup.appenders

/-- What holds in every reachable state of the logger. -/
structure Inv (setup : Setup α) (s : State ι α ε) : Prop where
  underWay : ∀ c p, s.call c = some p → UnderWay setup p
  alive : ∀ c p, s.call c = some p → ∀ a ∈ setup.appenders, (s.appender a).life = .alive
  logged : ∀ c a, a ∈ setup.appenders →
    (s.appender a).logged (.producer c) ++ s.owed c a = s.due setup c a

omit [DecidableEq ι] in
lemma inv_init : Inv setup ({} : State ι α ε) where
  underWay := by simp
  alive := by simp
  logged := by simp [State.owed, State.due]

omit [DecidableEq α] in
/-- An appender that nobody destroys stays alive. -/
lemma alive_step {cfg : Config} {t : Logger.State ι ε} {b : Logger.Action ι ε}
    (h : t.life = .alive) (hg : Logger.guard t b) (hb : b ≠ .dtorBegin) :
    (Logger.effect cfg t b).life = .alive := by
  have hgoes := Logger.life_step cfg hg
  rw [h] at hgoes
  generalize (Logger.effect cfg t b).life = l at hgoes
  cases hgoes with
  | stays => rfl
  | dtorBegin => exact absurd rfl hb

omit [DecidableEq α] in
/-- The step of an appender that `May` allows logs nothing for a thread. -/
lemma logged_of_may (cfg : Config) (t : Logger.State ι ε) {b : Logger.Action ι ε}
    (hmay : May setup s b) (c : ι) :
    (Logger.effect cfg t b).logged (.producer c) = t.logged (.producer c) := by
  rcases Logger.logged_step cfg t b (.producer c) with ⟨-, hsame⟩ | ⟨e, hlogs, -⟩
  · exact hsame
  · cases hlogs with
    | log => exact absurd hmay id

@[simp] lemma stepAppender_self (s : State ι α ε) (a : α) (b : Logger.Action ι ε) :
    (s.stepAppender setup a b).appender a
      = Logger.effect (setup.cfg a) (s.appender a) b := update_self _ _ _

@[simp] lemma stepAppender_call (s : State ι α ε) (a : α) (b : Logger.Action ι ε) :
    (s.stepAppender setup a b).call = s.call := rfl

@[simp] lemma stepAppender_calls (s : State ι α ε) (a : α) (b : Logger.Action ι ε) :
    (s.stepAppender setup a b).calls = s.calls := rfl

lemma stepAppender_of_ne {a d : α} (hda : d ≠ a) (b : Logger.Action ι ε) :
    (s.stepAppender setup a b).appender d = s.appender d := update_of_ne hda _ _

omit [DecidableEq ι] in
/-- The step of an appender that the threads' calls bring about is one it can take. -/
lemma guard_of_callAppender (h : Inv setup s) {c : ι} {x : Logged ε} {a : α} {rest : List α}
    (hg : guard setup s (.callAppender c x a rest)) :
    a ∈ setup.appenders ∧ Logger.guard (s.appender a) (.log c x.1 x.2) := by
  obtain ⟨hcall, hfree⟩ := hg
  have hunder := h.underWay c _ hcall
  have ha : a ∈ setup.appenders := hunder.rest List.mem_cons_self
  exact ⟨ha, h.alive c _ hcall a ha, hfree a ha, hunder.level⟩

omit [DecidableEq α] in
/-- One call changes, and the others are as before. -/
lemma underWay_update (h : ∀ c p, s.call c = some p → UnderWay setup p) {c : ι}
    {q : Logged ε × List α} (hq : UnderWay setup q) (d : ι) (p : Logged ε × List α)
    (hp : update s.call c (some q) d = some p) : UnderWay setup p := by
  by_cases hd : d = c
  · rw [hd, update_self, Option.some.injEq] at hp
    exact hp ▸ hq
  · rw [update_of_ne hd] at hp
    exact h d p hp

lemma inv_log (h : Inv setup s) {c : ι} {x : Logged ε} (hg : guard setup s (.log c x)) :
    Inv setup (effect setup s (.log c x)) := by
  obtain ⟨hlevel, ⟨hcall, -⟩, halive⟩ := hg
  simp only [effect]
  split
  · refine ⟨underWay_update h.underWay ⟨hlevel, List.Subset.refl _⟩, fun _ _ _ => halive,
      fun d a ha => ?_⟩
    have hlogged := h.logged d a ha
    by_cases hd : d = c
    · subst hd
      rw [State.owed, hcall, Option.elim_none, List.append_nil] at hlogged
      simp only [State.owed, State.due, update_self, Option.elim_some, List.flatMap_append,
        List.flatMap_singleton]
      rw [hlogged]
      rfl
    · simpa only [State.owed, State.due, update_of_ne hd] using hlogged
  · exact h

/-- What the appender gets is what the call owed to it. -/
lemma logged_callAppender (h : Inv setup s) {c : ι} {x : Logged ε} {a : α} {rest : List α}
    (hcall : s.call c = some (x, a :: rest)) {d : ι} {b : α} (hb : b ∈ setup.appenders) :
    ((effect setup s (.callAppender c x a rest)).appender b).logged (.producer d) ++
        (effect setup s (.callAppender c x a rest)).owed d b = s.due setup d b := by
  have hlogged := h.logged d b hb
  by_cases hba : b = a
  · subst hba
    by_cases hd : d = c
    · subst hd
      rw [State.owed, hcall, Option.elim_some, List.count_cons_self, List.replicate_succ]
        at hlogged
      simpa [effect, State.owed, Logger.effect, Logger.State.call, Logged.entry] using hlogged
    · have hne : Caller.producer d ≠ Caller.producer c := by simpa using hd
      simpa [effect, State.owed, Logger.effect, Logger.State.call, update_of_ne hne,
        update_of_ne hd] using hlogged
  · have hsame : (effect setup s (.callAppender c x a rest)).appender b = s.appender b :=
      stepAppender_of_ne hba _
    have howed : (effect setup s (.callAppender c x a rest)).owed d b = s.owed d b := by
      by_cases hd : d = c
      · subst hd
        simp [effect, State.owed, hcall, List.count_cons_of_ne (Ne.symm hba)]
      · simp [effect, State.owed, update_of_ne hd]
    rw [hsame, howed]
    exact hlogged

lemma inv_callAppender (h : Inv setup s) {c : ι} {x : Logged ε} {a : α} {rest : List α}
    (hg : guard setup s (.callAppender c x a rest)) :
    Inv setup (effect setup s (.callAppender c x a rest)) := by
  obtain ⟨ha, hlog⟩ := guard_of_callAppender h hg
  have hcall := hg.1
  have hunder := h.underWay c _ hcall
  have hlife : ∀ d ∈ setup.appenders,
      ((s.stepAppender setup a (.log c x.1 x.2)).appender d).life = .alive := by
    intro d hd
    by_cases hda : d = a
    · subst hda
      rw [stepAppender_self]
      exact alive_step (h.alive c _ hcall d hd) hlog (by simp)
    · rw [stepAppender_of_ne hda]
      exact h.alive c _ hcall d hd
  refine ⟨underWay_update h.underWay ⟨hunder.level, fun b hb => ?_⟩, fun _ _ _ => hlife,
    fun d b hb => logged_callAppender h hcall hb⟩
  exact hunder.rest (List.mem_cons_of_mem a hb)

lemma inv_logReturn (h : Inv setup s) {c : ι} {x : Logged ε}
    (hg : guard setup s (.logReturn c x)) : Inv setup (effect setup s (.logReturn c x)) := by
  have others : ∀ d p, (effect setup s (.logReturn c x)).call d = some p → s.call d = some p := by
    intro d p hp
    by_cases hd : d = c
    · subst hd
      simp [effect] at hp
    · simpa only [effect, update_of_ne hd] using hp
  refine ⟨fun d p hp => h.underWay d p (others d p hp), fun d p hp => h.alive d p (others d p hp),
    fun d a ha => ?_⟩
  have hlogged := h.logged d a ha
  by_cases hd : d = c
  · subst hd
    simpa [effect, State.owed, State.due, hg.1] using hlogged
  · simpa only [effect, State.owed, State.due, update_of_ne hd] using hlogged

lemma inv_appender (h : Inv setup s) {a : α} {b : Logger.Action ι ε}
    (hg : guard setup s (.appender a b)) : Inv setup (effect setup s (.appender a b)) := by
  obtain ⟨-, hmay, hstep⟩ := hg
  refine ⟨h.underWay, fun c p hp d hd => ?_, fun c d hd => ?_⟩
  · by_cases hda : d = a
    · subst hda
      rw [show (effect setup s (.appender d b)).appender d
        = Logger.effect (setup.cfg d) (s.appender d) b from stepAppender_self s d b]
      refine alive_step (h.alive c p hp d hd) hstep ?_
      -- a call is under way
      rintro rfl
      have hnone := (hmay c).1
      rw [show s.call c = some p from hp] at hnone
      simp at hnone
    · rw [show (effect setup s (.appender a b)).appender d = s.appender d from
        stepAppender_of_ne hda b]
      exact h.alive c p hp d hd
  · have hlogged := h.logged c d hd
    by_cases hda : d = a
    · subst hda
      rw [← logged_of_may (setup.cfg d) _ hmay c] at hlogged
      simpa [effect, State.owed, State.due] using hlogged
    · rw [show (effect setup s (.appender a b)).appender d = s.appender d from
        stepAppender_of_ne hda b]
      exact hlogged

lemma inv_step (h : Inv setup s) (hg : guard setup s act) : Inv setup (effect setup s act) := by
  cases act with
  | log c x => exact inv_log h hg
  | callAppender c x a rest => exact inv_callAppender h hg
  | logReturn c x => exact inv_logReturn h hg
  | appender a b => exact inv_appender h hg

omit [DecidableEq ι] in
/-- An appender whose destructor has been called gets nothing any more. -/
lemma Inv.owed_eq (h : Inv setup s) {a : α} (ha : a ∈ setup.appenders)
    (hlife : (s.appender a).life ≠ .alive) (c : ι) : s.owed c a = [] := by
  cases hc : s.call c with
  | none => rw [State.owed, hc, Option.elim_none]
  | some p => exact absurd (h.alive c p hc a ha) hlife

/-! ## The appenders inside the logger -/

/-- Appender `a` is opened in time. -/
def InTime (a : α) (s : State ι α ε) : Action ι α ε → Prop
  | .appender d b => d = a → Logger.InTime (s.appender a) b
  | _ => True

instance decidableInTime [Fintype ι] [DecidableEq ε] (a : α) (s : State ι α ε) :
    ∀ act, Decidable (InTime a s act)
  | .appender d b => inferInstanceAs (Decidable (d = a → Logger.InTime (s.appender a) b))
  | .log _ _ => isTrue trivial
  | .callAppender _ _ _ _ => isTrue trivial
  | .logReturn _ _ => isTrue trivial

/-- What a step of the logger is for one of its appenders. -/
lemma appender_step (h : Inv setup s) (hg : guard setup s act) {a : α}
    (ha : a ∈ setup.appenders) :
    (effect setup s act).appender a = s.appender a ∨
      ∃ b, Logger.guard (s.appender a) b ∧
        (effect setup s act).appender a = Logger.effect (setup.cfg a) (s.appender a) b ∧
        Logger.Quiet (s.appender a) b ∧ (InTime a s act → Logger.InTime (s.appender a) b) := by
  cases act with
  | log c x =>
      refine .inl ?_
      simp only [effect]
      split <;> rfl
  | callAppender c x d rest =>
      by_cases had : a = d
      · subst had
        exact .inr ⟨.log c x.1 x.2, (guard_of_callAppender h hg).2, stepAppender_self s a _,
          by simp [Logger.Quiet], fun _ => by simp [Logger.InTime]⟩
      · exact .inl (stepAppender_of_ne had _)
  | logReturn c x => exact .inl rfl
  | appender d b =>
      by_cases had : a = d
      · subst had
        refine .inr ⟨b, hg.2.2, stepAppender_self s a b, ?_, fun hin => hin rfl⟩
        rintro rfl c
        exact (hg.2.1 c).2 a ha
      · exact .inl (stepAppender_of_ne had b)

section Runs

variable [∀ (s : State ι α ε) act, Decidable (guard setup s act)]

theorem inv_inductive : (machine ι ε setup).Inductive (Inv setup) :=
  Machine.guarded_inductive (fun _ hs => hs.2 ▸ inv_init) fun _ _ => inv_step

/-- The appenders' own invariants. -/
theorem settled_inductive : (machine ι ε setup).Inductive fun s => Inv setup s ∧
    ∀ a ∈ setup.appenders, Logger.Inv (setup.cfg a) (s.appender a) ∧
      Logger.Settled (s.appender a) := by
  refine Machine.guarded_inductive (fun s hs => ?_) fun s act h hg => ?_
  · rw [hs.2]
    exact ⟨inv_init, fun a _ => ⟨Logger.inv_init, Logger.settled_init⟩⟩
  · refine ⟨inv_step h.1 hg, fun a ha => ?_⟩
    obtain ⟨hinv, hsettled⟩ := h.2 a ha
    rcases appender_step h.1 hg ha with hsame | ⟨b, hb, heq, hquiet, -⟩
    · rw [hsame]
      exact ⟨hinv, hsettled⟩
    · rw [heq]
      exact ⟨Logger.inv_step hinv hb, Logger.settled_step hinv hsettled hquiet hb⟩

variable [∀ (s : Logger.State ι ε) b, Decidable (Logger.guard s b)]

/-- **Inside the logger an appender is on its own**, and is destroyed when nobody uses it. -/
theorem component {a : α} (ha : a ∈ setup.appenders) (P : State ι α ε → Action ι α ε → Prop)
    {Q : Logger.State ι ε → Logger.Action ι ε → Prop}
    (hQ : ∀ s act b, P s act → Logger.Quiet (s.appender a) b →
      (InTime a s act → Logger.InTime (s.appender a) b) → Q (s.appender a) b) :
    (machine ι ε setup).Component (Logger.machine ι ε (setup.cfg a)) (fun s => s.appender a) P
      Q where
  init s hs := ⟨hs.1 a ha, by rw [hs.2]⟩
  step s act s' hs hP hst := by
    obtain ⟨hg, rfl⟩ := Machine.guarded_step_eq_some.mp hst
    rcases appender_step (inv_inductive.reachable hs) hg ha with hsame | ⟨b, hb, heq, hquiet, hin⟩
    · exact .inl hsame
    · refine .inr ⟨b, ?_, hQ s act b hP hquiet hin⟩
      rw [heq]
      exact Machine.guarded_step_eq_some.mpr ⟨hb, rfl⟩

variable {s₀ : State ι α ε}

/-- **Every file is complete.**  For every run at whose end an appender is destroyed: it has queued,
for each thread, what the thread has logged at or above `level_`, in the order of its calls and as
often as the appender was attached; and its file, if it was opened in time, holds all entries it
has queued that pass its own level. -/
theorem files_complete (hs₀ : (machine ι ε setup).Init s₀) (as : List (Action ι α ε))
    (hrun : (machine ι ε setup).run s₀ as = some s) {a : α} (ha : a ∈ setup.appenders)
    (hlife : (s.appender a).life = .destroyed) :
    (∀ c, part (.producer c) (s.appender a).pushed = s.due setup c a) ∧
    ((machine ι ε setup).Along (InTime a) s₀ as →
      (s.appender a).fileStream.content
        = .logStart :: (setup.cfg a).texts (s.appender a).accepted ++ [.logEnd]) := by
  obtain ⟨h, happenders⟩ :=
    settled_inductive.reachable ((Machine.Reachable.init hs₀).run hrun)
  obtain ⟨hinv, hsettled⟩ := happenders a ha
  have hhanded := hsettled.handedOver hinv hlife
  refine ⟨fun c => ?_, fun hin => ?_⟩
  · have hlogged := h.logged c a ha
    rw [h.owed_eq ha (by rw [hlife]; simp), List.append_nil] at hlogged
    rw [hhanded.complete, hlogged]
  · have hcomponent := component (ι := ι) (ε := ε) ha (InTime a)
      (Q := fun t b => Logger.Quiet t b ∧ Logger.InTime t b)
      (fun _ _ _ hP hquiet hin => ⟨hquiet, hin hP⟩)
    obtain ⟨bs, hbs, hboth⟩ := hcomponent.run as (.init hs₀) hin hrun
    have along {Q : Logger.State ι ε → Logger.Action ι ε → Prop}
        (hQ : ∀ t b, Logger.Quiet t b ∧ Logger.InTime t b → Q t b) :
        (Logger.machine ι ε (setup.cfg a)).Along Q (s₀.appender a) bs :=
      Machine.along_guarded (I := fun _ => True) (fun _ _ _ _ _ _ => trivial)
        (fun t b _ => hQ t b) bs trivial hboth
    rw [Logger.content_of_destroyed (hcomponent.init s₀ hs₀) bs hbs hlife
      (along fun _ _ hb => hb.1) (along fun _ _ hb => hb.2), hhanded.written]

end Runs

/-! Two threads and two appenders: the thread that comes to the first appender first comes to the
second one last. -/

def twoAppenders : Setup Bool where
  appenders := [false, true]
  cfg _ := ⟨2, 1⟩

/-- Appender `a` starts its writer and has its file open. -/
def opens (a : Bool) : List (Action Bool Bool ℕ) :=
  [.appender a .ctorOpen, .appender a .writerStart]

/-- A thread that has come to appender `a` queues its entry. -/
def queues (a : Bool) (c : Caller Bool) (e : Entry ℕ) : List (Action Bool Bool ℕ) :=
  [.appender a (.logLock c e), .appender a (.logTest c e), .appender a (.logPush c e),
    .appender a (.logNotify c), .appender a (.logUnlock c)]

/-- The writer takes an entry. -/
def takes (a : Bool) (e : Entry ℕ) : List (Action Bool Bool ℕ) :=
  [.appender a .writerLock, .appender a .writerTest, .appender a .writerPop,
    .appender a (.writerNotify e none), .appender a (.writerUnlock e), .appender a (.writerJudge e)]

def writes (a : Bool) (e : Entry ℕ) : List (Action Bool Bool ℕ) :=
  [takes a e, [.appender a (.writerFileLock e), .appender a (.writerFormat e),
    .appender a .writerFileUnlock]].flatten

def destroys (a : Bool) : List (Action Bool Bool ℕ) :=
  [[.appender a .dtorBegin], queues a .destructor Logger.sentinel, [.appender a .dtorLogged],
    takes a Logger.sentinel,
    [.appender a .writerEnd, .appender a .dtorJoin, .appender a .dtorClose]].flatten

def crossing : List (Action Bool Bool ℕ) :=
  [opens false, opens true,
    [.log false (.INFO, 1), .callAppender false (.INFO, 1) false [true]],
    queues false (.producer false) ⟨.INFO, some 1⟩,
    [.log true (.WARN, 2), .callAppender true (.WARN, 2) false [true]],
    queues false (.producer true) ⟨.WARN, some 2⟩,
    [.callAppender true (.WARN, 2) true []],
    queues true (.producer true) ⟨.WARN, some 2⟩,
    [.logReturn true (.WARN, 2), .callAppender false (.INFO, 1) true []],
    queues true (.producer false) ⟨.INFO, some 1⟩,
    [.logReturn false (.INFO, 1)],
    writes false ⟨.INFO, some 1⟩, writes false ⟨.WARN, some 2⟩,
    writes true ⟨.WARN, some 2⟩, writes true ⟨.INFO, some 1⟩,
    destroys false, destroys true].flatten

theorem files_complete_crossing :
    ∃ s, (machine Bool ℕ twoAppenders).run {} crossing = some s ∧
      (∀ a c, part (.producer c) (s.appender a).pushed = s.due twoAppenders c a) ∧
      (s.appender false).fileStream.content
        = [.logStart, .text ⟨.INFO, some 1⟩, .text ⟨.WARN, some 2⟩, .logEnd] ∧
      (s.appender true).fileStream.content
        = [.logStart, .text ⟨.WARN, some 2⟩, .text ⟨.INFO, some 1⟩, .logEnd] := by
  obtain ⟨s, hrun, hp⟩ := (Option.any_eq_true (fun s : State Bool Bool ℕ => decide
      ((∀ a, (s.appender a).life = .destroyed) ∧
        (s.appender false).accepted = [⟨.INFO, some 1⟩, ⟨.WARN, some 2⟩] ∧
        (s.appender true).accepted = [⟨.WARN, some 2⟩, ⟨.INFO, some 1⟩]))
    ((machine Bool ℕ twoAppenders).run {} crossing)).mp (by decide +kernel)
  obtain ⟨hlife, hfirst, hsecond⟩ := of_decide_eq_true hp
  have hinit : (machine Bool ℕ twoAppenders).Init {} := ⟨by decide, rfl⟩
  have hmem : ∀ a, a ∈ twoAppenders.appenders := by decide
  have hfile := fun a => files_complete hinit crossing hrun (hmem a) (hlife a)
  refine ⟨s, hrun, fun a => (hfile a).1, ?_, ?_⟩
  · rw [(hfile false).2 (by decide +kernel), hfirst]
    rfl
  · rw [(hfile true).2 (by decide +kernel), hsecond]
    rfl

/-! ## The threads come to rest -/

/-- The steps a thread takes by itself once it has begun. -/
def Action.Owed : Action ι α ε → Prop
  | .log _ _ => False
  | .appender _ b => b.Owed
  | _ => True

/-- The appenders a call has not come to, and its return. -/
def callPotential : Option (Logged ε × List α) → ℕ
  | none => 0
  | some p => 20 * p.2.length + 1

/-- The steps the threads and the writers have before them. -/
def State.potential [Fintype ι] (setup : Setup α) (s : State ι α ε) : ℕ :=
  ∑ a ∈ setup.appenders.toFinset, (s.appender a).potential + ∑ c, callPotential (s.call c)

/-- What a step of the environment brings in. -/
def Action.credit (setup : Setup α) : Action ι α ε → ℕ
  | .log _ _ => 20 * setup.appenders.length + 2
  | .appender _ b => b.credit
  | _ => 0

omit [DecidableEq ι] [DecidableEq α] in
lemma Action.Owed.credit_eq (h : act.Owed) : act.credit setup = 0 := by
  cases act with
  | log c x => exact absurd h id
  | appender a b => exact Logger.Action.Owed.credit_eq h
  | _ => rfl

section Potential

variable [Fintype ι]

/-- An appender takes a step, and the threads' calls stay. -/
lemma stepAppender_potential {a : α} (ha : a ∈ setup.appenders) {b : Logger.Action ι ε}
    (hb : Logger.guard (s.appender a) b) :
    ∑ d ∈ setup.appenders.toFinset, ((s.stepAppender setup a b).appender d).potential + 1
      ≤ ∑ d ∈ setup.appenders.toFinset, (s.appender d).potential + b.credit := by
  have hsum := sum_moved (List.mem_toFinset.mpr ha) s.appender Logger.State.potential
    (Logger.effect (setup.cfg a) (s.appender a) b)
  have hstep : (Logger.effect (setup.cfg a) (s.appender a) b).potential + 1
      ≤ (s.appender a).potential + b.credit := Logger.potential_step hb
  simp only [State.stepAppender]
  omega

omit [DecidableEq α] in
lemma call_potential (c : ι) (q : Option (Logged ε × List α)) :
    ∑ d, callPotential (update s.call c q d) + callPotential (s.call c)
      = ∑ d, callPotential (s.call d) + callPotential q :=
  sum_moved (Finset.mem_univ c) s.call callPotential q

/-- **Each step is paid for.** -/
lemma potential_step (h : Inv setup s) (hg : guard setup s act) :
    (effect setup s act).potential setup + 1 ≤ s.potential setup + act.credit setup := by
  cases act with
  | log c x =>
      have hcall := call_potential (s := s) c (some (x, setup.appenders))
      rw [hg.2.1.1] at hcall
      simp only [effect, Action.credit]
      split
      · simp only [State.potential, callPotential] at hcall ⊢
        omega
      · omega
  | callAppender c x a rest =>
      obtain ⟨ha, hlog⟩ := guard_of_callAppender h hg
      have hstep := stepAppender_potential ha hlog
      have hcall := call_potential (s := s) c (some (x, rest))
      rw [hg.1] at hcall
      simp only [effect, State.potential, Action.credit, Logger.Action.credit, callPotential,
        List.length_cons] at hstep hcall ⊢
      omega
  | logReturn c x =>
      have hcall := call_potential (s := s) c none
      rw [hg.1] at hcall
      simp only [effect, State.potential, Action.credit, callPotential] at hcall ⊢
      omega
  | appender a b =>
      have hstep := stepAppender_potential hg.1 hg.2.2
      simp only [effect, State.potential, Action.credit, stepAppender_call] at hstep ⊢
      omega

theorem potential [∀ (s : State ι α ε) act, Decidable (guard setup s act)] :
    (machine ι ε setup).Potential (Inv setup) (Action.credit setup) (State.potential setup) where
  invariant s act s' h hst := inv_inductive.step s act s' h hst
  pays s act s' h hst := by
    obtain ⟨hg, rfl⟩ := Machine.guarded_step_eq_some.mp hst
    exact potential_step h hg

end Potential

/-! ## Where nobody has a step left -/

omit [DecidableEq ι] [DecidableEq α] in
/-- The destructor's entry makes no line. -/
lemma texts_accepted (cfg : Config) (t : Logger.State ι ε) :
    cfg.texts t.accepted = cfg.texts (t.pushed.map Prod.snd) := by
  rw [Config.texts, Config.texts, Logger.State.accepted, List.filter_filter]
  refine congrArg _ (List.filter_congr fun e _ => ?_)
  simp only [Config.visible]
  cases decide (e.level ≠ .OTHER) <;> simp

omit [DecidableEq α] in
/-- An appender that waits for work has written all it was given. -/
lemma written_of_idle {cfg : Config} {t : Logger.State ι ε} (h : Logger.Inv cfg t)
    (hidle : t.Idle) : t.written = .logStart :: cfg.texts t.accepted := by
  have hhand := h.hand
  have hfifo := h.fifo
  have hwritten := h.written
  rw [hidle.writer] at hhand hwritten
  rw [show (Logger.WriterPc.sleeping : Logger.WriterPc ε).hand = [] from rfl, List.append_nil]
    at hhand
  rw [hidle.queue, List.append_nil, ← hhand] at hfifo
  rw [hwritten, texts_accepted, hfifo]
  simp [Logger.WriterPc.firstLine, Logger.WriterPc.lastLine]

/-- Nobody logs, and all that was logged has been queued and written by every appender, in the
order of each thread's calls. -/
structure AtRest (setup : Setup α) (s : State ι α ε) : Prop where
  outside : ∀ c, s.Outside setup c
  pushed : ∀ a ∈ setup.appenders, ∀ c,
    part (.producer c) (s.appender a).pushed = s.due setup c a
  written : ∀ a ∈ setup.appenders, (s.appender a).written
    = .logStart :: (setup.cfg a).texts (s.appender a).accepted ++
        if (s.appender a).life = .destroyed then [.logEnd] else []

section Result

variable [∀ (s : State ι α ε) act, Decidable (guard setup s act)]

/-- What an appender owes, the logger owes. -/
lemma canStep_of_appender {a : α} (ha : a ∈ setup.appenders)
    (howed : ∃ b : Logger.Action ι ε, b.Owed ∧ Logger.guard (s.appender a) b) :
    (machine ι ε setup).CanStep Action.Owed s := by
  obtain ⟨b, hb, hg⟩ := howed
  refine Machine.guarded_canStep.mpr ⟨.appender a b, hb, ha, ?_, hg⟩
  cases b with
  | log c level event => exact absurd hb id
  | reopen c => exact absurd hb id
  | dtorBegin => exact absurd hb id
  | _ => trivial

variable [∀ (s : Logger.State ι ε) b, Decidable (Logger.guard s b)]

/-- Where an appender owes no step, it waits for work or is destroyed. -/
lemma idle_or_destroyed (hs : (machine ι ε setup).Reachable s)
    (hstuck : ¬ (machine ι ε setup).CanStep Action.Owed s) {a : α} (ha : a ∈ setup.appenders) :
    (s.appender a).Idle ∨
      ((s.appender a).life = .destroyed ∧ ∀ c, (s.appender a).caller (.producer c) = .idle) := by
  have hreachable := (component ha (fun _ _ => True) (fun _ _ _ _ hquiet _ => hquiet)).reachable hs
  obtain ⟨hinv, hbounded⟩ := Logger.bounded_inductive.reachable hreachable
  obtain ⟨notified, hnotified⟩ := Machine.exists_recorded hreachable
  by_cases hsent : Logger.sentinel ∈ (s.appender a).dequeued
  · rcases Logger.owed_or_destroyed hinv hbounded hsent with howed | ⟨hlife, -⟩
    · exact absurd (canStep_of_appender ha howed) hstuck
    · refine .inr ⟨hlife, ((settled_inductive.reachable hs).2 a ha).2.idle ?_⟩
      rw [hlife]
      rfl
  · rcases Logger.owed_or_idle hinv hbounded (Logger.slots_of_watched hnotified) hsent with
      howed | hidle
    · exact absurd (canStep_of_appender ha howed) hstuck
    · exact .inl hidle

/-- **Where nobody has a step left, everything is done.** -/
lemma atRest_of_stuck (hs : (machine ι ε setup).Reachable s)
    (hstuck : ¬ (machine ι ε setup).CanStep Action.Owed s) : AtRest setup s := by
  obtain ⟨h, happenders⟩ := settled_inductive.reachable hs
  have hends := fun a ha => idle_or_destroyed hs hstuck (a := a) ha
  have hfree : ∀ c, s.Free setup c := by
    intro c a ha
    rcases hends a ha with hidle | ⟨-, hcallers⟩
    · exact hidle.callers (.producer c)
    · exact hcallers c
  have hnone : ∀ c, s.call c = none := by
    intro c
    by_contra hne
    obtain ⟨⟨x, rest⟩, hcall⟩ := Option.ne_none_iff_exists'.mp hne
    cases rest with
    | nil =>
        exact hstuck (Machine.guarded_canStep.mpr ⟨.logReturn c x, trivial, hcall, hfree c⟩)
    | cons a rest =>
        exact hstuck (Machine.guarded_canStep.mpr
          ⟨.callAppender c x a rest, trivial, hcall, hfree c⟩)
  refine ⟨fun c => ⟨hnone c, hfree c⟩, fun a ha c => ?_, fun a ha => ?_⟩
  · have hlogged := h.logged c a ha
    rw [State.owed, hnone c, Option.elim_none, List.append_nil] at hlogged
    have hprogram := (happenders a ha).1.program (.producer c)
    rw [hfree c a ha, show (Logger.CallerPc.idle : Logger.CallerPc ε).pending = [] from rfl,
      List.append_nil] at hprogram
    rw [hprogram, hlogged]
  · obtain ⟨hinv, hsettled⟩ := happenders a ha
    rcases hends a ha with hidle | ⟨hlife, -⟩
    · rw [written_of_idle hinv hidle, hidle.alive, if_neg (by simp), List.append_nil]
    · rw [(hsettled.handedOver hinv hlife).written, if_pos hlife]

variable [Fintype ι]

/-- **Each call of `Log` returns.**  From every reachable state of the logger, with any number of
threads and appenders and whatever the sizes of the queues: a run is at most as long as what is
still to be done and what the environment adds to it; after a run that leaves no thread a step,
nobody is inside `Log` and every appender has written all that was logged; and some run of the
steps that are owed comes to that. -/
theorem calls_return (hs : (machine ι ε setup).Reachable s) :
    (∀ as s', (machine ι ε setup).run s as = some s' →
      as.length ≤ s.potential setup + (as.map (Action.credit setup)).sum) ∧
    (∀ as s', (machine ι ε setup).run s as = some s' →
      ¬ (machine ι ε setup).CanStep Action.Owed s' → AtRest setup s') ∧
    ∃ as s', (∀ act ∈ as, act.Owed) ∧ (machine ι ε setup).run s as = some s' ∧
      AtRest setup s' := by
  have h : Inv setup s := inv_inductive.reachable hs
  refine ⟨fun as s' hrun => ?_, fun as s' hrun hstuck => atRest_of_stuck (hs.run hrun) hstuck, ?_⟩
  · exact le_trans (Nat.le_add_right _ _) (potential.length_le as h hrun)
  · obtain ⟨as, s', howed, hrun, hstuck⟩ :=
      potential.exists_settled (fun _ => Action.Owed.credit_eq) (s.potential setup) le_rfl h
    exact ⟨as, s', howed, hrun, atRest_of_stuck (hs.run hrun) hstuck⟩

end Result

/-- Queues of one slot. -/
def oneSlot : Setup Bool where
  appenders := [false, true]
  cfg _ := ⟨1, 1⟩

/-- The second thread finds the first queue full; the entry that fills it is the first thread's,
which has yet to come to the second appender. -/
def waitsBehind : List (Action Bool Bool ℕ) :=
  [opens false, opens true,
    [.log false (.INFO, 1), .callAppender false (.INFO, 1) false [true]],
    queues false (.producer false) ⟨.INFO, some 1⟩,
    [.log true (.WARN, 2), .callAppender true (.WARN, 2) false [true],
      .appender false (.logLock (.producer true) ⟨.WARN, some 2⟩),
      .appender false (.logTest (.producer true) ⟨.WARN, some 2⟩)]].flatten

theorem calls_return_waitsBehind :
    ∃ s : State Bool Bool ℕ, (machine Bool ℕ oneSlot).Reachable s ∧
      (s.appender false).caller (.producer true) = .sleeping ⟨.WARN, some 2⟩ ∧
      ∃ as s', (machine Bool ℕ oneSlot).run s as = some s' ∧ AtRest oneSlot s' := by
  obtain ⟨s, hs, hp⟩ := Machine.exists_reachable_of_run (m := machine Bool ℕ oneSlot)
    ⟨by decide, rfl⟩ waitsBehind (fun s => decide
      ((s.appender false).caller (.producer true) = .sleeping ⟨.WARN, some 2⟩)) (by decide +kernel)
  obtain ⟨-, -, as, s', -, hrun, hrest⟩ := calls_return hs
  exact ⟨s, hs, of_decide_eq_true hp, as, s', hrun, hrest⟩

end CppServer.SharedLogger
