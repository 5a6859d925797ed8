import CppServer.Logger.Logger

/-!
# The three filters of the logger

`Logger::Log` compares the level of an event with the logger's own, and after that each appender
compares it with its `level_`, which nobody has set: `StdoutAppender` at once and `FileAppender` in
its writer thread.  The events that should come out are those that pass the first comparison
(`wanted`).

* `emitted_eq` — what a destroyed `FileAppender` has written is what passes its `level_`.
* `complete_step` — a call keeps everything exactly if it is `Unfiltered`.
* `level_filter_iff` — so nothing is lost exactly if no event meets a higher `level_`, and then
  runs that differ in nothing but the values of `level_` emit the same.
-/

namespace CppServer.Logger

open Function (update update_self update_of_ne)

/-! ## The emitted texts -/

/-- The text of a queued entry. -/
def Appender.render (p : Appender) (e : Entry LogEvent) : List UInt8 :=
  e.event.elim [] (p.text e.level)

/-- The formatted event in a line. -/
def Appender.ofLine (p : Appender) : Line LogEvent → Option (List UInt8)
  | .text e => some (p.render e)
  | _ => none

/-- The formatted events that the writer thread of a `FileAppender` has handed to its stream. -/
def Appender.emitted (p : Appender) (t : State Unit LogEvent) : List (List UInt8) :=
  t.written.filterMap p.ofLine

/-- What the callers got accepted is what the one caller logged. -/
lemma accepted_eq {cfg : Config} {t : State Unit LogEvent} (hinv : Inv cfg t) :
    t.accepted = part (.producer ()) t.pushed := by
  rw [State.accepted, part, List.filter_map]
  refine congrArg (List.map Prod.snd) (List.filter_congr fun p hp => ?_)
  obtain ⟨c, e⟩ := p
  simp only [Function.comp_apply, decide_eq_decide]
  cases c with
  | producer c =>
      refine iff_of_true (fun hother => ?_) rfl
      have hd := (hinv.eq_sentinel hp hother).1
      simp at hd
  | destructor =>
      have hlogged : e ∈ t.logged .destructor := by
        rw [← hinv.program .destructor]
        exact List.mem_append_left _ (mem_part.mpr hp)
      rw [hinv.begun] at hlogged
      split at hlogged
      · rw [List.mem_singleton.mp hlogged]
        simp [sentinel]
      · simp at hlogged

/-- **What a `FileAppender` emits**: the events that pass its own level. -/
theorem emitted_eq {q : ℕ} {p : Appender} {calls : List (Entry LogEvent)}
    {t : State Unit LogEvent} (h : Finished q p calls t) (hlevels : ∀ e ∈ calls, e.level ≠ .OTHER) :
    p.emitted t = (calls.filter fun e => p.level ≤ e.level.value).map p.render := by
  obtain ⟨as, hrun, hquiet⟩ := h.run
  obtain ⟨hinv, hsettled⟩ := settled_run ⟨h.positive, rfl⟩ as hquiet hrun
  have hhanded := hsettled.handedOver hinv h.destroyed
  have haccepted : t.accepted = calls := by
    rw [accepted_eq hinv, hhanded.complete, h.logged]
  have hvisible : calls.filter (Config.visible ⟨q, p.level⟩)
      = calls.filter fun e => p.level ≤ e.level.value :=
    List.filter_congr fun e he => by simp [Config.visible, hlevels e he]
  have htexts : ∀ es : List (Entry LogEvent), (es.map Line.text).filterMap p.ofLine
      = es.map p.render := fun es => by
    rw [List.filterMap_map]
    exact congrFun List.filterMap_eq_map es
  rw [Appender.emitted, hhanded.written, haccepted, Config.texts, hvisible, List.filterMap_append,
    List.filterMap_cons_none rfl, htexts, List.filterMap_cons_none rfl, List.filterMap_nil,
    List.append_nil]

/-! ## One call -/

variable {α : Type*} [DecidableEq α]

/-- `StdoutAppender::Log` prints. -/
def Appender.prints (p : Appender) (level : Level) : Bool :=
  p.kind = .stdout && p.level ≤ level.value

/-- What the calls of `Log` of all appenders in a list come to. -/
lemma foldl_appenderLog (level : Level) (event : LogEvent) (l : List α) :
    ∀ s : LoggerState α, l.foldl (LoggerState.appenderLog level event) s =
      { s with
          cout := s.cout ++ (l.filter fun a => (s.appender a).prints level).map
            fun a => (a, (s.appender a).text level event),
          calls := fun a => s.calls a ++ List.replicate (l.count a) ⟨level, some event⟩ } := by
  induction l with
  | nil => simp
  | cons b l ih =>
      intro s
      have hcalls : ∀ a, update s.calls b (s.calls b ++ [⟨level, some event⟩]) a
          ++ List.replicate (l.count a) ⟨level, some event⟩
          = s.calls a ++ List.replicate ((b :: l).count a) ⟨level, some event⟩ := by
        intro a
        by_cases hab : a = b
        · subst hab
          rw [update_self, List.count_cons_self, List.replicate_succ, List.append_assoc,
            List.singleton_append]
        · rw [update_of_ne hab, List.count_cons_of_ne (Ne.symm hab)]
      rw [List.foldl_cons, ih]
      cases hkind : (s.appender b).kind with
      | file => simp [LoggerState.appenderLog, Appender.prints, hkind, hcalls]
      | stdout =>
          by_cases hlevel : (s.appender b).level ≤ level.value
          · simp [LoggerState.appenderLog, Appender.prints, hkind, hlevel, hcalls]
          · simp [LoggerState.appenderLog, Appender.prints, hkind, hlevel, hcalls]

/-- `AddAppender` changes nothing of an appender but a formatter that was not set. -/
lemma addAppender_appender (s : LoggerState α) (a b : α) :
    ∃ f, (s.addAppender a).appender b = { s.appender b with formatter := f } ∧
      ((s.appender b).formatter.isSome → f = (s.appender b).formatter) ∧
      (b = a → f.isSome) := by
  by_cases hb : b = a
  · subst hb
    cases hf : (s.appender b).formatter with
    | none => exact ⟨some s.formatter, by simp [LoggerState.addAppender, hf], by simp, by simp⟩
    | some f =>
        refine ⟨some f, ?_, fun _ => rfl, by simp⟩
        simp only [LoggerState.addAppender, update_self, hf, Option.isNone_some,
          Bool.false_eq_true, if_false]
        rw [← hf]
  · refine ⟨(s.appender b).formatter, ?_, fun _ => rfl, fun h => absurd h hb⟩
    simp [LoggerState.addAppender, update_of_ne hb]

/-- The events an appender has been given in the history, one for each time it stands in the
list. -/
lemma part_attachments {β : Type*} (f : α → β) (a : α) (l : List α) :
    part a (l.map fun b => (b, f b)) = List.replicate (l.count a) (f a) := by
  induction l with
  | nil => rfl
  | cons b l ih =>
      have hcons : part a ((b :: l).map fun b => (b, f b))
          = (if b = a then [f b] else []) ++ part a (l.map fun b => (b, f b)) := by
        by_cases hb : b = a <;> simp [part, hb]
      rw [hcons, ih]
      by_cases hb : b = a
      · subst hb
        rw [if_pos rfl, List.count_cons_self, List.replicate_succ, List.singleton_append]
      · rw [if_neg hb, List.count_cons_of_ne hb, List.nil_append]

/-- What `std::cout` should have got. -/
def LoggerState.wantedOnStdout (s : LoggerState α) : List (α × List UInt8) :=
  s.wanted.filter fun p => (s.appender p.1).kind = .stdout

/-- What holds after every series of calls. -/
structure FilterInv (s : LoggerState α) : Prop where
  attached : ∀ a ∈ s.appenders, (s.appender a).formatter.isSome
  called : ∀ a, s.calls a ≠ [] → (s.appender a).formatter.isSome
  levels : ∀ a, ∀ e ∈ s.calls a, e.level ≠ .OTHER
  wanted : ∀ a, part a s.wanted = (s.calls a).map (s.appender a).render
  cout : s.cout.Sublist s.wantedOnStdout

/-- Nothing has been filtered out that passed the logger. -/
structure Complete (s : LoggerState α) : Prop where
  stdout : s.cout = s.wantedOnStdout
  file : ∀ a, (s.appender a).kind = .file →
    ∀ e ∈ s.calls a, (s.appender a).level ≤ e.level.value

/-- No event that passes the logger meets an attached appender with a higher level. -/
def Unfiltered (s : LoggerState α) : Call α → Prop
  | .log level _ => s.level.value ≤ level.value →
      ∀ a ∈ s.appenders, (s.appender a).level ≤ level.value
  | _ => True

instance (s : LoggerState α) : ∀ a : Call α, Decidable (Unfiltered s a)
  | .addAppender _ => inferInstanceAs (Decidable True)
  | .delAppender _ => inferInstanceAs (Decidable True)
  | .setLevel _ => inferInstanceAs (Decidable True)
  | .log _ _ => inferInstanceAs (Decidable (_ → ∀ a ∈ s.appenders, _))

variable {s : LoggerState α}

/-- A call of `Log` that passes the level of the logger. -/
lemma callEffect_log {level : Level} (event : LogEvent) (h : s.level.value ≤ level.value) :
    callEffect s (.log level event) =
      { s with
          cout := s.cout ++ (s.appenders.filter fun a => (s.appender a).prints level).map
            fun a => (a, (s.appender a).text level event),
          calls := fun a => s.calls a ++ List.replicate (s.appenders.count a) ⟨level, some event⟩,
          wanted := s.wanted ++ s.appenders.map fun a => (a, (s.appender a).text level event) } := by
  rw [callEffect, LoggerState.log, if_pos h, if_pos h, foldl_appenderLog]

/-- One that does not. -/
lemma callEffect_log_of_lt {level : Level} (event : LogEvent) (h : ¬ s.level.value ≤ level.value) :
    callEffect s (.log level event) = s := by
  rw [callEffect, LoggerState.log, if_neg h, if_neg h, List.append_nil]

omit [DecidableEq α] in
/-- What is wanted on `std::cout` for the appenders in a list. -/
lemma filter_attachments (f : α → List UInt8) (l : List α) :
    (l.map fun a => (a, f a)).filter (fun p => (s.appender p.1).kind = .stdout)
      = (l.filter fun a => (s.appender a).kind = .stdout).map fun a => (a, f a) := by
  rw [List.filter_map]
  rfl

/-- What is wanted on `std::cout` after a call of `Log` that passes the logger. -/
lemma wantedOnStdout_log {level : Level} (event : LogEvent) (hpass : s.level.value ≤ level.value) :
    (callEffect s (.log level event)).wantedOnStdout = s.wantedOnStdout
      ++ (s.appenders.filter fun a => (s.appender a).kind = .stdout).map
        fun a => (a, (s.appender a).text level event) := by
  rw [callEffect_log event hpass, ← filter_attachments]
  exact List.filter_append ..

omit [DecidableEq α] in
lemma sublist_prints (level : Level) (l : List α) :
    (l.filter fun a => (s.appender a).prints level).Sublist
      (l.filter fun a => (s.appender a).kind = .stdout) := by
  refine List.monotone_filter_right l fun a ha => ?_
  rw [Appender.prints, Bool.and_eq_true] at ha
  exact ha.1

lemma filterInv_addAppender (h : FilterInv s) (a : α) : FilterInv (s.addAppender a) := by
  have hspec := addAppender_appender s a
  have hrender : ∀ b, (s.calls b).map ((s.addAppender a).appender b).render
      = (s.calls b).map (s.appender b).render := by
    intro b
    obtain ⟨f, hb, hf, -⟩ := hspec b
    by_cases hnil : s.calls b = []
    · rw [hnil]
      rfl
    · rw [hb, hf (h.called b hnil)]
  have hkind : ∀ b, ((s.addAppender a).appender b).kind = (s.appender b).kind := fun b => by
    obtain ⟨f, hb, -⟩ := hspec b
    rw [hb]
  have hsome : ∀ b, b = a ∨ (s.appender b).formatter.isSome →
      ((s.addAppender a).appender b).formatter.isSome := by
    intro b hor
    obtain ⟨f, hb, hf, hself⟩ := hspec b
    rw [hb]
    rcases hor with heq | hold
    · exact hself heq
    · exact (hf hold).symm ▸ hold
  refine ⟨fun b hb => hsome b ?_, fun b hb => hsome b (.inr (h.called b hb)), h.levels,
    fun b => (h.wanted b).trans (hrender b).symm, ?_⟩
  · rcases List.mem_append.mp hb with hold | hnew
    · exact .inr (h.attached b hold)
    · exact .inl (List.mem_singleton.mp hnew)
  · simp only [LoggerState.wantedOnStdout, hkind]
    exact h.cout

lemma filterInv_log (h : FilterInv s) {level : Level} (event : LogEvent) (hmay : level ≠ .OTHER) :
    FilterInv (callEffect s (.log level event)) := by
  by_cases hpass : s.level.value ≤ level.value
  · have hwanted := wantedOnStdout_log event hpass
    rw [callEffect_log event hpass] at hwanted ⊢
    refine ⟨h.attached, fun a ha => ?_, fun a e he => ?_, fun a => ?_, ?_⟩
    · by_cases hin : a ∈ s.appenders
      · exact h.attached a hin
      · refine h.called a fun hnil => ha ?_
        simp [hnil, List.count_eq_zero.mpr hin]
    · rcases List.mem_append.mp he with hold | hnew
      · exact h.levels a e hold
      · rw [List.eq_of_mem_replicate hnew]
        exact hmay
    · rw [part_append, h.wanted a, part_attachments, List.map_append, List.map_replicate]
      rfl
    · rw [hwanted]
      exact h.cout.append ((sublist_prints level _).map _)
  · rw [callEffect_log_of_lt event hpass]
    exact h

theorem filterInv_step {a : Call α} (h : FilterInv s) (hmay : mayCall a) :
    FilterInv (callEffect s a) := by
  cases a with
  | addAppender a => exact filterInv_addAppender h a
  | delAppender a =>
      exact ⟨fun b hb => h.attached b (List.mem_of_mem_erase hb), h.called, h.levels, h.wanted,
        h.cout⟩
  | setLevel level => exact ⟨h.attached, h.called, h.levels, h.wanted, h.cout⟩
  | log level event => exact filterInv_log h event hmay

/-- Two pieces that are put behind two lists, each shorter or equal, come to the same only if they
are the same. -/
lemma append_eq_append_iff_of_sublist {β : Type*} {l₁ l₂ r₁ r₂ : List β} (hl : l₁.Sublist l₂)
    (hr : r₁.Sublist r₂) : l₁ ++ r₁ = l₂ ++ r₂ ↔ l₁ = l₂ ∧ r₁ = r₂ := by
  constructor
  · intro h
    have hlen := congrArg List.length h
    have h₁ := hl.length_le
    have h₂ := hr.length_le
    simp only [List.length_append] at hlen
    exact List.append_inj h (by omega)
  · rintro ⟨rfl, rfl⟩
    rfl

omit [DecidableEq α] in
/-- The appenders that print are all that should, if none of them has a higher level. -/
lemma prints_eq_iff (level : Level) (f : α → List UInt8) (l : List α) :
    (l.filter fun a => (s.appender a).prints level).map (fun a => (a, f a))
        = (l.filter fun a => (s.appender a).kind = .stdout).map (fun a => (a, f a)) ↔
      ∀ a ∈ l, (s.appender a).kind = .stdout → (s.appender a).level ≤ level.value := by
  have hinj : Function.Injective fun a => (a, f a) := fun a b hab => (Prod.mk.inj hab).1
  rw [hinj.list_map.eq_iff]
  constructor
  · intro h a ha hkind
    have hmem : a ∈ l.filter fun a => (s.appender a).kind = .stdout :=
      List.mem_filter.mpr ⟨ha, by simpa using hkind⟩
    rw [← h] at hmem
    have hprints := (List.mem_filter.mp hmem).2
    rw [Appender.prints, Bool.and_eq_true] at hprints
    exact of_decide_eq_true hprints.2
  · intro h
    refine List.filter_congr fun a ha => ?_
    by_cases hkind : (s.appender a).kind = .stdout
    · simp [Appender.prints, hkind, h a ha hkind]
    · simp [Appender.prints, hkind]

omit [DecidableEq α] in
/-- Calls other than `Log` emit nothing and lose nothing. -/
lemma complete_congr {s' : LoggerState α} (hcout : s'.cout = s.cout) (hwanted : s'.wanted = s.wanted)
    (hcalls : s'.calls = s.calls) (hkind : ∀ a, (s'.appender a).kind = (s.appender a).kind)
    (hlevel : ∀ a, (s'.appender a).level = (s.appender a).level) :
    Complete s' ↔ Complete s := by
  have hstdout : s'.wantedOnStdout = s.wantedOnStdout := by
    simp only [LoggerState.wantedOnStdout, hwanted, hkind]
  constructor
  · intro h
    refine ⟨by rw [← hcout, ← hstdout, h.stdout], fun a ha e he => ?_⟩
    rw [← hlevel]
    exact h.file a (by rw [hkind, ha]) e (by rw [hcalls]; exact he)
  · intro h
    refine ⟨by rw [hcout, hstdout, h.stdout], fun a ha e he => ?_⟩
    rw [hlevel]
    exact h.file a (by rw [← hkind, ha]) e (by rw [← hcalls]; exact he)

/-- Which events a call of `Log` that passes the logger loses. -/
lemma complete_log {level : Level} (event : LogEvent) (h : FilterInv s)
    (hpass : s.level.value ≤ level.value) : Complete (callEffect s (.log level event)) ↔
      Complete s ∧ ∀ a ∈ s.appenders, (s.appender a).level ≤ level.value := by
  have hstdout : (callEffect s (.log level event)).cout
      = (callEffect s (.log level event)).wantedOnStdout ↔
      s.cout = s.wantedOnStdout ∧
        ∀ a ∈ s.appenders, (s.appender a).kind = .stdout → (s.appender a).level ≤ level.value := by
    rw [wantedOnStdout_log event hpass, callEffect_log event hpass,
      append_eq_append_iff_of_sublist h.cout ((sublist_prints level _).map _), prints_eq_iff]
  have hcalls : ∀ a e, e ∈ (callEffect s (.log level event)).calls a ↔
      e ∈ s.calls a ∨ (a ∈ s.appenders ∧ e = ⟨level, some event⟩) := by
    intro a e
    rw [callEffect_log event hpass, List.mem_append, List.mem_replicate, Nat.ne_zero_iff_zero_lt,
      List.count_pos_iff]
  have happender : (callEffect s (.log level event)).appender = s.appender := by
    rw [callEffect_log event hpass]
  constructor
  · rintro ⟨hout, hfile⟩
    obtain ⟨hold, hprints⟩ := hstdout.mp hout
    rw [happender] at hfile
    refine ⟨⟨hold, fun a ha e he => hfile a ha e ((hcalls a e).mpr (.inl he))⟩, fun a ha => ?_⟩
    cases hkind : (s.appender a).kind with
    | stdout => exact hprints a ha hkind
    | file => exact hfile a hkind _ ((hcalls a _).mpr (.inr ⟨ha, rfl⟩))
  · rintro ⟨⟨hold, hfile⟩, hlevels⟩
    refine ⟨hstdout.mpr ⟨hold, fun a ha _ => hlevels a ha⟩, fun a ha e he => ?_⟩
    rw [happender] at ha ⊢
    rcases (hcalls a e).mp he with hbefore | ⟨hin, rfl⟩
    · exact hfile a ha e hbefore
    · exact hlevels a hin

/-- **What one call keeps.**  It loses an event exactly if it logs one that passes the logger and
is below the level of an attached appender. -/
theorem complete_step {a : Call α} (h : FilterInv s) :
    Complete (callEffect s a) ↔ Complete s ∧ Unfiltered s a := by
  cases a with
  | addAppender a =>
      have hspec := addAppender_appender s a
      rw [and_iff_left (show Unfiltered s (.addAppender a) from trivial)]
      refine complete_congr rfl rfl rfl (fun b => ?_) fun b => ?_
      · obtain ⟨f, hb, -⟩ := hspec b
        rw [callEffect, hb]
      · obtain ⟨f, hb, -⟩ := hspec b
        rw [callEffect, hb]
  | delAppender a =>
      rw [and_iff_left (show Unfiltered s (.delAppender a) from trivial)]
      exact complete_congr rfl rfl rfl (fun _ => rfl) fun _ => rfl
  | setLevel level =>
      rw [and_iff_left (show Unfiltered s (.setLevel level) from trivial)]
      exact complete_congr rfl rfl rfl (fun _ => rfl) fun _ => rfl
  | log level event =>
      by_cases hpass : s.level.value ≤ level.value
      · rw [complete_log event h hpass, Unfiltered, forall_prop_of_true hpass]
      · rw [callEffect_log_of_lt event hpass]
        exact (and_iff_left fun hle => absurd hle hpass).symm

/-! ## A history of calls -/

lemma filterInv_init (appender : α → Appender) :
    FilterInv ({ appender := appender } : LoggerState α) where
  attached := by simp
  called := by simp
  levels := by simp
  wanted _ := rfl
  cout := .slnil

lemma filterInv_inductive : (loggerMachine α).Inductive FilterInv :=
  Machine.guarded_inductive (fun _ ⟨_, hs⟩ => hs ▸ filterInv_init _) fun _ _ => filterInv_step

/-- Nothing is lost exactly if nothing is filtered on the way. -/
lemma complete_run_iff {s₀ : LoggerState α} (hs₀ : (loggerMachine α).Init s₀)
    (calls : List (Call α)) (hrun : (loggerMachine α).run s₀ calls = some s) :
    Complete s ↔ (loggerMachine α).Along Unfiltered s₀ calls := by
  have hstep : ∀ s a t, FilterInv s → (loggerMachine α).step s a = some t →
      (Complete t ↔ Complete s ∧ Unfiltered s a) := fun s a t h hst => by
    obtain ⟨-, rfl⟩ := Machine.guarded_step_eq_some.mp hst
    exact complete_step h
  have hstart : Complete s₀ := by
    obtain ⟨appender, rfl⟩ := hs₀
    exact ⟨rfl, by simp⟩
  rw [Machine.run_iff filterInv_inductive.step hstep calls (filterInv_inductive.init s₀ hs₀) hrun,
    and_iff_right hstart]

/-- Each attached appender has emitted each event that passed the logger, once for each
attachment, and no other event: on `std::cout` and, with the machines of the `FileAppender`s in
the states `t`, through their streams. -/
structure Emits (s : LoggerState α) (t : α → State Unit LogEvent) : Prop where
  stdout : s.cout = s.wantedOnStdout
  file : ∀ a, (s.appender a).kind = .file → (s.appender a).emitted (t a) = part a s.wanted

/-- Every `FileAppender` has been destroyed. -/
def AllFinished (q : α → ℕ) (s : LoggerState α) (t : α → State Unit LogEvent) : Prop :=
  ∀ a, (s.appender a).kind = .file → Finished (q a) (s.appender a) (s.calls a) (t a)

lemma emits_iff_complete (h : FilterInv s) {q : α → ℕ} {t : α → State Unit LogEvent}
    (hfiles : AllFinished q s t) : Emits s t ↔ Complete s := by
  have hfile : ∀ a, (s.appender a).kind = .file →
      ((s.appender a).emitted (t a) = part a s.wanted ↔
        ∀ e ∈ s.calls a, (s.appender a).level ≤ e.level.value) := by
    intro a ha
    rw [emitted_eq (hfiles a ha) (h.levels a), h.wanted a]
    constructor
    · intro heq
      have hlen := congrArg List.length heq
      rw [List.length_map, List.length_map, List.length_filter_eq_length_iff] at hlen
      exact fun e he => of_decide_eq_true (hlen e he)
    · intro hall
      rw [List.filter_eq_self.mpr fun e he => decide_eq_true (hall e he)]
  exact ⟨fun hem => ⟨hem.stdout, fun a ha => (hfile a ha).mp (hem.file a ha)⟩,
    fun hc => ⟨hc.stdout, fun a ha => (hfile a ha).mpr (hc.file a ha)⟩⟩

/-- The same, but for the values of `level_` and what depends on them. -/
structure Alike (s s' : LoggerState α) : Prop where
  level : s'.level = s.level
  formatter : s'.formatter = s.formatter
  appenders : s'.appenders = s.appenders
  kind : ∀ a, (s'.appender a).kind = (s.appender a).kind
  own : ∀ a, (s'.appender a).formatter = (s.appender a).formatter
  wanted : s'.wanted = s.wanted

lemma addAppender_alike {s s' : LoggerState α} (h : Alike s s') (a b : α) :
    ((s'.addAppender a).appender b).kind = ((s.addAppender a).appender b).kind ∧
      ((s'.addAppender a).appender b).formatter = ((s.addAppender a).appender b).formatter := by
  by_cases hb : b = a
  · subst hb
    simp only [LoggerState.addAppender, update_self, h.own b, h.formatter]
    split
    · exact ⟨h.kind b, rfl⟩
    · exact ⟨h.kind b, h.own b⟩
  · simp only [LoggerState.addAppender, update_of_ne hb]
    exact ⟨h.kind b, h.own b⟩

/-- The same call keeps two loggers alike. -/
lemma alike_step {s s' : LoggerState α} (h : Alike s s') (a : Call α) :
    Alike (callEffect s a) (callEffect s' a) := by
  cases a with
  | addAppender a =>
      refine ⟨h.level, h.formatter, ?_, fun b => (addAppender_alike h a b).1,
        fun b => (addAppender_alike h a b).2, h.wanted⟩
      simp only [callEffect, LoggerState.addAppender, h.appenders]
  | delAppender a =>
      refine ⟨h.level, h.formatter, ?_, h.kind, h.own, h.wanted⟩
      simp only [callEffect, LoggerState.delAppender, h.appenders]
  | setLevel level => exact ⟨rfl, h.formatter, h.appenders, h.kind, h.own, h.wanted⟩
  | log level event =>
      by_cases hpass : s.level.value ≤ level.value
      · have hpass' : s'.level.value ≤ level.value := h.level ▸ hpass
        have htext : ∀ a, (s'.appender a).text level event = (s.appender a).text level event :=
          fun a => by rw [Appender.text, Appender.text, h.own a]
        rw [callEffect_log event hpass, callEffect_log event hpass']
        refine ⟨h.level, h.formatter, h.appenders, h.kind, h.own, ?_⟩
        simp only [h.wanted, h.appenders, htext]
      · have hpass' : ¬ s'.level.value ≤ level.value := h.level ▸ hpass
        rw [callEffect_log_of_lt event hpass, callEffect_log_of_lt event hpass']
        exact h

/-- And so do the same calls.  By induction on them. -/
lemma alike_run : ∀ {s₀ s₀' s s' : LoggerState α} (calls : List (Call α)), Alike s₀ s₀' →
    (loggerMachine α).run s₀ calls = some s → (loggerMachine α).run s₀' calls = some s' →
    Alike s s'
  | s₀, s₀', s, s', [], h, hrun, hrun' => by
      rw [Machine.run_nil, Option.some.injEq] at hrun hrun'
      exact hrun ▸ hrun' ▸ h
  | s₀, s₀', s, s', a :: calls, h, hrun, hrun' => by
      obtain ⟨u, hst, hrest⟩ := Machine.run_cons_eq_some.mp hrun
      obtain ⟨u', hst', hrest'⟩ := Machine.run_cons_eq_some.mp hrun'
      obtain ⟨-, rfl⟩ := Machine.guarded_step_eq_some.mp hst
      obtain ⟨-, rfl⟩ := Machine.guarded_step_eq_some.mp hst'
      exact alike_run calls (alike_step h a) hrest hrest'

/-- What comes out is the same in two histories. -/
def SameEmissions (s s' : LoggerState α) (t t' : α → State Unit LogEvent) : Prop :=
  s'.cout = s.cout ∧ ∀ a, (s.appender a).kind = .file →
    (s'.appender a).emitted (t' a) = (s.appender a).emitted (t a)

/-- **When the level filter depends on the configured level only.**  For every history of calls,
and whatever the values of `level_`: each event is emitted once for each attachment if it passes
the level of the logger, and otherwise not, if and only if no event that passes the logger is
below the `level_` of an appender attached at that moment.  Two histories with the same calls for
which this is so emit the same. -/
theorem level_filter_iff {s₀ s : LoggerState α} (hs₀ : (loggerMachine α).Init s₀)
    (calls : List (Call α)) (hrun : (loggerMachine α).run s₀ calls = some s) {q : α → ℕ}
    {t : α → State Unit LogEvent} (hfiles : AllFinished q s t) :
    (Emits s t ↔ (loggerMachine α).Along Unfiltered s₀ calls) ∧
    ∀ (s₀' s' : LoggerState α) (q' : α → ℕ) (t' : α → State Unit LogEvent),
      (loggerMachine α).Init s₀' → Alike s₀ s₀' → (loggerMachine α).run s₀' calls = some s' →
      AllFinished q' s' t' → (loggerMachine α).Along Unfiltered s₀ calls →
      (loggerMachine α).Along Unfiltered s₀' calls → SameEmissions s s' t t' := by
  have hemits : ∀ {s₀ s : LoggerState α} (_ : (loggerMachine α).Init s₀)
      (_ : (loggerMachine α).run s₀ calls = some s) {q : α → ℕ} {t : α → State Unit LogEvent}
      (_ : AllFinished q s t), Emits s t ↔ (loggerMachine α).Along Unfiltered s₀ calls := by
    intro s₀ s hs₀ hrun q t hfiles
    have hinv := filterInv_inductive.reachable ((Machine.Reachable.init hs₀).run hrun)
    rw [emits_iff_complete hinv hfiles, complete_run_iff hs₀ calls hrun]
  refine ⟨hemits hs₀ hrun hfiles, fun s₀' s' q' t' hs₀' halike hrun' hfiles' hall hall' => ?_⟩
  have h := (hemits hs₀ hrun hfiles).mpr hall
  have h' := (hemits hs₀' hrun' hfiles').mpr hall'
  have hend := alike_run calls halike hrun hrun'
  refine ⟨?_, fun a ha => ?_⟩
  · rw [h'.stdout, h.stdout, LoggerState.wantedOnStdout, LoggerState.wantedOnStdout, hend.wanted]
    simp only [hend.kind]
  · rw [h'.file a (by rw [hend.kind, ha]), h.file a ha, hend.wanted]

/-- An event with no text of its own. -/
def blank : LogEvent := ⟨[], 1, 0, 0, 0, []⟩

/-- What the machine of a `FileAppender` does for one event, up to the end of the destructor. -/
def oneEvent (e : Entry LogEvent) (event : LogEvent) : List (Action Unit LogEvent) :=
  let c := Caller.producer ()
  [.ctorOpen, .writerStart, .log () e.level event, .logLock c e, .logTest c e, .logPush c e,
    .logNotify c, .logUnlock c, .writerLock, .writerTest, .writerPop, .writerNotify e none,
    .writerUnlock e, .writerJudge e, .writerFileLock e, .writerFormat e, .writerFileUnlock,
    .dtorBegin, .logLock .destructor sentinel, .logTest .destructor sentinel,
    .logPush .destructor sentinel, .logNotify .destructor, .logUnlock .destructor, .dtorLogged,
    .writerLock, .writerTest, .writerPop, .writerNotify sentinel none, .writerUnlock sentinel,
    .writerJudge sentinel, .writerEnd, .dtorJoin, .dtorClose]

/-- Two appenders, one of each class, both with the lowest level. -/
def bothLow (a : Bool) : Appender := ⟨if a then .stdout else .file, 1, none⟩

/-- Both are attached, and one event is logged. -/
def attachBoth : List (Call Bool) := [.addAppender true, .addAppender false, .log .INFO blank]

theorem level_filter_iff_attachBoth :
    ∃ (s : LoggerState Bool) (t : Bool → State Unit LogEvent),
      (loggerMachine Bool).run { appender := bothLow } attachBoth = some s ∧ Emits s t := by
  obtain ⟨t, hrun, hp⟩ := (Option.any_eq_true (fun t : State Unit LogEvent =>
      decide (t.life = .destroyed ∧ t.logged (.producer ()) = [⟨.INFO, some blank⟩]))
    ((machine Unit LogEvent ⟨2, 1⟩).run {} (oneEvent ⟨.INFO, some blank⟩ blank))).mp (by decide)
  obtain ⟨hlife, hlogged⟩ := of_decide_eq_true hp
  refine ⟨_, fun _ => t, rfl, (level_filter_iff ⟨_, rfl⟩ attachBoth rfl (q := fun _ => 2)
    fun a ha => ?_).1.mpr (by decide)⟩
  cases a with
  | true => exact absurd ha (by decide)
  | false => exact ⟨Nat.two_pos, ⟨_, hrun, by decide⟩, hlogged, hlife⟩

/-- A value of `level_` that is higher than the level of the logger filters events out. -/
theorem dropped_by_unset_level :
    ¬ ∀ (s₀ s : LoggerState Unit) (calls : List (Call Unit)) (q : Unit → ℕ)
      (t : Unit → State Unit LogEvent), (loggerMachine Unit).Init s₀ →
      (loggerMachine Unit).run s₀ calls = some s → AllFinished q s t → Emits s t := by
  intro h
  have hemits := h { appender := fun _ => ⟨.stdout, 6, none⟩ } _
    [.addAppender (), .log .INFO blank] (fun _ => 2) (fun _ => {}) ⟨_, rfl⟩ rfl
    fun a ha => absurd ha (by cases a; decide)
  have hlen := congrArg List.length hemits.stdout
  exact absurd hlen (by decide)

end CppServer.Logger
