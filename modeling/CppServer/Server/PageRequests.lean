import CppServer.Server.PageServer

/-!
# A request may be answered several times

A request to the page server that is cut into segments is answered once for each event its
segments make.  They make one event if they all arrive before the loop takes up the first edge, and
one each if the loop is faster than the network.

* `idle_of_settled` — where no loop has a step left, everything has been read and answered.
* `Rests.answer` — segments that arrive together are answered once.
* `pages_iff` — a request is answered once at least and at most once for each segment, and every
  number in between can come about, where the kernel has room for each page.
-/

namespace CppServer.PageServer

open EdgeTriggered
open Connection (page)
open Function (update_self)

variable {n : ℕ} {html : List UInt8} {s s' : State} {a : Action} {log log' : Log} {c : ℕ}
  {p : Peer}

/-! ## One connection along a run -/

/-- A run seen from one connection. -/
lemma turn_run {as : List Action} (h : Confined n s) (hp : s.peer c = some p)
    (hall : ∀ a ∈ as, Keeps a ∧ Spares c a)
    (hrun : (paged n html).run (s, log) as = some (s', log')) :
    ∃ p', s'.peer c = some p' ∧
      Relation.ReflTransGen (Turn.Step True) (turn s log c p) (turn s' log' c p') := by
  refine (Machine.run_guarded (P := fun _ a => Keeps a ∧ Spares c a)
    (I := fun x : State × Log => Confined n x.1 ∧ ∃ p', x.1.peer c = some p' ∧
      Relation.ReflTransGen (Turn.Step True) (turn s log c p) (turn x.1 x.2 c p'))
    (fun x a x' hx ha hst => ?_) as ⟨h, p, hp, .refl⟩ (Machine.along_of_forall as hall) hrun).2
  obtain ⟨hconfined, q, hq, hsteps⟩ := hx
  obtain ⟨hstep, hlog⟩ := Machine.recorded_step_eq_some.mp hst
  obtain ⟨hg, heffect⟩ := Machine.guarded_step_eq_some.mp hstep
  obtain ⟨q', hq', -⟩ := peer_step hg hq
  rw [← heffect, ← hlog]
  refine ⟨confined_step hconfined hg, q', hq', ?_⟩
  rcases turn_step True html x.2 hconfined hg ha.1.own (fun _ => ha) hq' with
    ⟨fd, queue, fin, rfl, -⟩ | ⟨q₀, hq₀, hmore⟩
  · rw [hg.1] at hq
    simp at hq
  · rw [hq, Option.some.injEq] at hq₀
    subst hq₀
    exact hsteps.trans hmore

/-- A run in which the kernel has room for each page and nobody gives up connection `c`. -/
def SparedRun (n : ℕ) (html : List UInt8) (c : ℕ) (as : List Action) (s : State) (log : Log) :
    Prop :=
  (∀ a ∈ as, Keeps a ∧ Spares c a) ∧ (paged n html).run ({}, {}) as = some (s, log)

namespace SparedRun

variable {as : List Action}

lemma sent (h : SparedRun n html c as s log) (hfit : (page html).length < 2 ^ 31) :
    Sent (· = page html) n (s, log) := by
  obtain ⟨ms, htakes, hms⟩ := exists_serving hfit (fun a ha => (h.1 a ha).1) h.2
  exact sent_whole hfit htakes hms

lemma reachable (h : SparedRun n html c as s log) : (machine n).Reachable s :=
  (Machine.Reachable.init rfl).run (Machine.recorded_run h.2)

lemma append (h : SparedRun n html c as s log) {bs : List Action}
    (hall : ∀ a ∈ bs, Keeps a ∧ Spares c a)
    (hrun : (paged n html).run (s, log) bs = some (s', log')) :
    SparedRun n html c (as ++ bs) s' log' := by
  refine ⟨fun a ha => (List.mem_append.mp ha).elim (h.1 a) (hall a), ?_⟩
  rw [Machine.run_append, h.2, Option.bind_some, hrun]

/-- Nobody has given up a connection that has been spared. -/
lemma isOpen (h : SparedRun n html c as s log) (hp : s.peer c = some p) :
    (turn s log c p).Open := by
  refine (Machine.run_guarded (P := fun _ a => Keeps a ∧ Spares c a)
    (I := fun x : State × Log => Confined n x.1 ∧ ∀ p, x.1.peer c = some p →
      (turn x.1 x.2 c p).Open)
    (fun x a x' hx ha hst => ?_) as ⟨confined_init, by simp⟩
    (Machine.along_of_forall as h.1) h.2).2 p hp
  obtain ⟨hconfined, hopen⟩ := hx
  obtain ⟨hstep, hlog⟩ := Machine.recorded_step_eq_some.mp hst
  obtain ⟨hg, heffect⟩ := Machine.guarded_step_eq_some.mp hstep
  rw [← heffect, ← hlog]
  refine ⟨confined_step hconfined hg, fun q hq => ?_⟩
  rcases turn_step True html x.2 hconfined hg ha.1.own (fun _ => ha) hq with
    ⟨fd, queue, fin, rfl, rfl⟩ | ⟨p, hp, hsteps⟩
  · exact ⟨rfl, ha.2 rfl⟩
  · exact ((hopen p hp).steps hsteps).1

/-- Where no loop has a step left, nothing is left to read and nothing in hand. -/
lemma idle_of_settled (h : SparedRun n html c as s log) (hfit : (page html).length < 2 ^ 31)
    (hp : s.peer c = some p) (hstuck : ¬ (machine n).CanStep Action.Plain s) :
    (turn s log c p).stage = .idle ∧ (turn s log c p).queue = [] := by
  have hsent := h.sent hfit
  have hdrained : Drained s := by
    refine drained_of_settled hsent.confined (notStranded_inductive.reachable h.reachable) ?_
    rintro ⟨a, ha, hg⟩
    exact hstuck (Machine.guarded_canStep.mpr ⟨a, ha, hg⟩)
  have hpolling : s.sub p.loop = .polling := by
    rcases hdrained.loops p.loop with hpolling | ⟨d, q, -, hq, hdeleted⟩
    · exact hpolling
    · have hkept := (hsent.sound d q hq).kept
      rw [show (turn s log d q).deleted = q.deleted from rfl, hdeleted] at hkept
      simp at hkept
  have hread := hdrained.empty c p hp hpolling (hsent.sound c p hp).kept (h.isOpen hp).1
  simp only [Peer.readable, Bool.or_eq_false_iff, Bool.not_eq_false', List.isEmpty_iff] at hread
  exact ⟨by rw [turn, hpolling]; rfl, hread.1⟩

end SparedRun

/-- A run after which the server rests: the connection is there, nobody has given it up, and it
has been answered `k` times. -/
structure Rests (n : ℕ) (html : List UInt8) (c k : ℕ) (segs : List (List UInt8)) (s : State)
    (log : Log) : Prop where
  reached : ∃ as, SparedRun n html c as s log
  accepted : (s.peer c).isSome
  settled : ¬ (machine n).CanStep Action.Plain s
  segments : log.segments c = segs
  answered : log.answered c = k

/-- Plain steps bring no data. -/
lemma segments_of_plain (ha : a.Plain) (s : State) (log : Log) :
    (record html s a log).segments = log.segments := by
  cases a with
  | newConnection c fd queue fin => exact absurd ha.1 id
  | send c data => exact absurd ha.1 id
  | message r c rest closes deletes =>
      simp only [record]
      cases s.peer c with
      | none => rfl
      | some p =>
          simp only [Option.elim_some, Log.answer]
          split <;> rfl
  | _ => rfl

/-- Plain steps keep and spare all connections. -/
lemma spares_of_plain (ha : a.Plain) (c : ℕ) : Keeps a ∧ Spares c a := by
  obtain ⟨howed, hharmless⟩ := ha
  cases a with
  | newConnection | send | shutdown => exact absurd howed id
  | read r d rest answer => exact ⟨trivial, fun _ => hharmless⟩
  | message r d rest closes deletes => exact ⟨hharmless, trivial⟩
  | _ => exact ⟨trivial, trivial⟩

/-- The server comes to rest.  On the way it sends at most the pages that are due, and one if
there is something to answer. -/
lemma SparedRun.exists_rest {as : List Action} (h : SparedRun n html c as s log) (hn : 0 < n)
    (hfit : (page html).length < 2 ^ 31) (hp : s.peer c = some p) :
    ∃ k s' log', Rests n html c k (log.segments c) s' log' ∧
      k ≤ log.answered c + (turn s log c p).due ∧
      ∀ j, (turn s log c p).Owes j → j < k := by
  obtain ⟨bs, s', hplain, hmachine, hstuck⟩ := exists_settled hn h.reachable
  obtain ⟨log', hmore⟩ : ∃ log', (paged n html).run (s, log) bs = some (s', log') :=
    Machine.exists_recorded_run log hmachine
  have hbs : ∀ a ∈ bs, Keeps a ∧ Spares c a := fun a ha => spares_of_plain (hplain a ha) c
  have hsegments : log'.segments = log.segments :=
    Machine.run_guarded (m := paged n html) (P := fun _ a => a.Plain)
      (I := fun x => x.2.segments = log.segments)
      (fun x a x' hx ha hst => by
        obtain ⟨-, hlog⟩ := Machine.recorded_step_eq_some.mp hst
        rw [← hlog, segments_of_plain ha, hx]) bs rfl (Machine.along_of_forall bs hplain) hmore
  have h' : SparedRun n html c (as ++ bs) s' log' := h.append hbs hmore
  have hsettled : ¬ (machine n).CanStep Action.Plain s' := by
    rw [machine, Machine.guarded_canStep]
    exact hstuck
  obtain ⟨p', hp', hsteps⟩ := turn_run (h.sent hfit).confined hp hbs hmore
  obtain ⟨hopen', hpaid, howes⟩ := (h.isOpen hp).steps hsteps
  obtain ⟨hidle, hqueue⟩ := h'.idle_of_settled hfit hp' hsettled
  refine ⟨log'.answered c, s', log', ⟨⟨_, h'⟩, by rw [hp']; rfl, hsettled, by rw [hsegments], rfl⟩,
    ?_, fun j hj => hopen'.answered (howes j hj) hidle hqueue⟩
  have hsame : (turn s' log' c p').segments = (turn s log c p).segments := by
    simp only [turn, hsegments]
  simp only [turn] at hpaid hsame ⊢
  omega

/-- The peer sends all of it before the loop takes up anything. -/
lemma send_all (log : Log) (hp : s.peer c = some p) (hfin : p.fin = false) (hdel : p.deleted = false)
    {group : List (List UInt8)} (hne : ∀ data ∈ group, data ≠ []) :
    ∃ s' log', (paged n html).run (s, log) (group.map (.send c)) = some (s', log') ∧
      s'.peer c = some { p with queue := p.queue ++ group.flatten,
                                edge := p.edge || !group.isEmpty } ∧
      s'.sub = s.sub ∧ log'.segments c = log.segments c ++ group ∧
      log'.answered = log.answered := by
  induction group generalizing s log p with
  | nil => exact ⟨s, log, rfl, by simpa using hp, rfl, by simp, rfl⟩
  | cons data group ih =>
      rw [List.forall_mem_cons] at hne
      have hg : guard n s (.send c data) := ⟨hne.1, live_of hp hdel (by rw [hfin]; rfl)⟩
      have hst : (paged n html).step (s, log) (.send c data)
          = some (effect n s (.send c data), record html s (.send c data) log) :=
        Machine.recorded_step_eq_some.mpr ⟨Machine.guarded_step_eq_some.mpr ⟨hg, rfl⟩, rfl⟩
      have hp' : (effect n s (.send c data)).peer c = some (p.arrive data false) := by
        simp only [effect, State.modify]
        rw [update_self, hp, Option.map_some]
      obtain ⟨s', log', hrun, hpeer, hsub, hsegments, hanswered⟩ := ih
        (record html s (.send c data) log) hp' (by simp [Peer.arrive, hfin]) hdel hne.2
      refine ⟨s', log', Machine.run_cons_eq_some.mpr ⟨_, hst, hrun⟩, ?_, hsub, ?_, hanswered⟩
      · rw [hpeer]
        simp [Peer.arrive, hfin]
      · rw [hsegments]
        simp [record]

/-- **Segments that arrive together are answered once.** -/
lemma Rests.answer (hn : 0 < n) (hfit : (page html).length < 2 ^ 31) {k : ℕ}
    {segs : List (List UInt8)} (h : Rests n html c k segs s log) {group : List (List UInt8)}
    (hgroup : group ≠ []) (hne : ∀ data ∈ group, data ≠ []) :
    ∃ s' log', Rests n html c (k + 1) (segs ++ group) s' log' := by
  obtain ⟨as, hrun⟩ := h.reached
  obtain ⟨p, hp⟩ := Option.isSome_iff_exists.mp h.accepted
  obtain ⟨hidle, -⟩ := hrun.idle_of_settled hfit hp h.settled
  obtain ⟨s₁, log₁, hsends, hp₁, hsub, hsegments, hanswered⟩ :=
    send_all (n := n) log hp (hrun.isOpen hp).2 ((hrun.sent hfit).sound c p hp).kept hne
  have hspared : ∀ a ∈ group.map (Action.send c), Keeps a ∧ Spares c a := by
    intro a ha
    obtain ⟨data, -, rfl⟩ := List.mem_map.mp ha
    exact ⟨trivial, trivial⟩
  obtain ⟨j, s', log', hrests, hle, howes⟩ :=
    (hrun.append hspared hsends).exists_rest hn hfit hp₁
  -- the loop polls, so all that is due is what the edge brings
  have hdue : (turn s₁ log₁ c { p with queue := p.queue ++ group.flatten,
                                       edge := p.edge || !group.isEmpty }).due ≤ 1 := by
    have hidle₁ : stage c (s₁.sub p.loop) = .idle := by rw [hsub]; exact hidle
    simp only [turn, Turn.due, Turn.ahead, Turn.inHand, hidle₁]
    split <;> omega
  have hk := howes k ⟨by simp [turn, hanswered, h.answered], fun _ => .inr (.inl ?_)⟩
  · have hj : j = k + 1 := by
      rw [hanswered, h.answered] at hle
      omega
    rw [hsegments, h.segments, hj] at hrests
    exact ⟨s', log', hrests⟩
  · obtain ⟨data, hdata⟩ := List.exists_mem_of_ne_nil group hgroup
    intro hnil
    refine hne data hdata ?_
    have hflat := (List.append_eq_nil_iff.mp hnil).2
    exact List.flatten_eq_nil_iff.mp hflat data hdata

/-- A connection on which nothing has arrived yet. -/
lemma rests_new (hn : 0 < n) (html : List UInt8) (hfit : (page html).length < 2 ^ 31) (c : ℕ) :
    ∃ s log, Rests n html c 0 [] s log := by
  have hrun : (paged n html).run ({}, {}) [.newConnection c 0 [] false]
      = some (effect n {} (.newConnection c 0 [] false), {}) := by
    refine Machine.run_cons_eq_some.mpr ⟨_, Machine.recorded_step_eq_some.mpr
      ⟨Machine.guarded_step_eq_some.mpr ⟨⟨rfl, hn⟩, rfl⟩, rfl⟩, rfl⟩
  have hall : ∀ a ∈ [Action.newConnection c 0 [] false], Keeps a ∧ Spares c a := by
    rintro a ha
    rw [List.mem_singleton] at ha
    subst ha
    exact ⟨trivial, fun _ => rfl⟩
  have hspared : SparedRun n html c [.newConnection c 0 [] false]
      (effect n {} (.newConnection c 0 [] false)) {} := ⟨hall, hrun⟩
  obtain ⟨k, s', log', hrests, hle, -⟩ := hspared.exists_rest hn hfit (update_self _ _ _)
  have hdue : (turn (effect n {} (.newConnection c 0 [] false)) {} c (.new n 0 [] false)).due = 0 :=
    rfl
  rw [hdue, Nat.le_zero] at hle
  exact ⟨s', log', hle ▸ hrests⟩

/-- However the segments of a request are grouped, it is answered once for each group. -/
lemma exists_answered (hn : 0 < n) (hfit : (page html).length < 2 ^ 31)
    {groups : List (List (List UInt8))} (hgroups : ∀ group ∈ groups, group ≠ [])
    (hne : ∀ group ∈ groups, ∀ data ∈ group, data ≠ []) {k : ℕ} {segs : List (List UInt8)}
    (h : Rests n html c k segs s log) :
    ∃ s' log', Rests n html c (k + groups.length) (segs ++ groups.flatten) s' log' := by
  induction groups generalizing k segs s log with
  | nil => exact ⟨s, log, by simpa using h⟩
  | cons group groups ih =>
      rw [List.forall_mem_cons] at hgroups hne
      obtain ⟨s₁, log₁, h₁⟩ := h.answer hn hfit hgroups.1 hne.1
      obtain ⟨s', log', h'⟩ := ih hgroups.2 hne.2 h₁
      refine ⟨s', log', ?_⟩
      rw [List.length_cons, List.flatten_cons, ← List.append_assoc,
        show k + (groups.length + 1) = k + 1 + groups.length by omega]
      exact h'

/-- A list cut into `k` groups, the last of which takes what is left. -/
lemma exists_groups {α : Type*} {k : ℕ} {xs : List α} (hle : min 1 xs.length ≤ k)
    (hk : k ≤ xs.length) :
    ∃ groups : List (List α), groups.length = k ∧ groups.flatten = xs ∧
      ∀ group ∈ groups, group ≠ [] := by
  induction k generalizing xs with
  | zero =>
      have hnil : xs = [] := List.length_eq_zero_iff.mp (by omega)
      exact ⟨[], rfl, hnil.symm, by simp⟩
  | succ k ih =>
      cases xs with
      | nil => simp at hk
      | cons x xs =>
          rw [List.length_cons] at hk
          by_cases hlast : k = 0
          · exact ⟨[x :: xs], by simp [hlast], by simp, by simp⟩
          · obtain ⟨groups, hlen, hflat, hne⟩ := @ih xs (by omega) (by omega)
            exact ⟨[x] :: groups, by simp [hlen], by simp [hflat], by simpa using hne⟩

/-- **A request may be answered once for each segment.**  The pages a connection has been sent,
when the server comes to rest after the segments `segs` have arrived on it, the kernel had room for
each page and nobody has given it up, can be any number from one to the number of segments, and no
other. -/
theorem pages_iff (hn : 0 < n) (hfit : (page html).length < 2 ^ 31) (c : ℕ)
    {segs : List (List UInt8)} (hne : ∀ data ∈ segs, data ≠ []) (k : ℕ) :
    (∃ as s log, SparedRun n html c as s log ∧ (s.peer c).isSome ∧ log.segments c = segs ∧
      ¬ (machine n).CanStep Action.Plain s ∧
      log.received c = (List.replicate k (page html)).flatten) ↔
    min 1 segs.length ≤ k ∧ k ≤ segs.length := by
  constructor
  · rintro ⟨as, s, log, hrun, hsome, rfl, hstuck, hreceived⟩
    obtain ⟨p, hp⟩ := Option.isSome_iff_exists.mp hsome
    have hsent := hrun.sent hfit
    have hk : log.answered c = k := by
      have hsame := congrArg List.length ((hsent.pages c).symm.trans hreceived)
      have hpos : 0 < (page html).length := List.length_pos_of_ne_nil Connection.page_ne_nil
      simpa [List.length_flatten, hpos.ne'] using hsame
    have hsound := hsent.sound c p hp
    obtain ⟨hidle, hqueue⟩ := hrun.idle_of_settled hfit hp hstuck
    refine ⟨?_, hk ▸ (Nat.le_add_right _ _).trans hsound.paid⟩
    rcases hsound.owed with hnone | howes
    · rw [show (log.segments c).length = 0 from hnone]
      exact Nat.zero_le _
    · have hpos : 0 < k := hk ▸ (hrun.isOpen hp).answered howes hidle hqueue
      omega
  · rintro ⟨hle, hk⟩
    obtain ⟨groups, hlen, hflat, hgroups⟩ := exists_groups hle hk
    obtain ⟨s₀, log₀, h₀⟩ := rests_new hn html hfit c
    have hdata : ∀ group ∈ groups, ∀ data ∈ group, data ≠ [] := by
      intro group hgroup data hmem
      refine hne data ?_
      rw [← hflat]
      exact List.mem_flatten_of_mem hgroup hmem
    obtain ⟨s, log, h⟩ := exists_answered hn hfit hgroups hdata h₀
    obtain ⟨as, hrun⟩ := h.reached
    refine ⟨as, s, log, hrun, h.accepted, ?_, h.settled, ?_⟩
    · rw [h.segments, List.nil_append, hflat]
    · rw [(hrun.sent hfit).pages c, h.answered, hlen, Nat.zero_add]

/-- Three segments are answered twice. -/
theorem pages_iff_threeSegments :
    ∃ as s log, SparedRun 4 [60, 62] 0 as s log ∧ (s.peer 0).isSome ∧
      log.segments 0 = [[71], [69], [84]] ∧ ¬ (machine 4).CanStep Action.Plain s ∧
      log.received 0 = (List.replicate 2 (page [60, 62])).flatten :=
  (pages_iff (by decide) (by decide +kernel) 0 (by decide) 2).mpr (by decide)

end CppServer.PageServer
