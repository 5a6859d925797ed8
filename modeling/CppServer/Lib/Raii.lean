import Mathlib

/-!
# Constructors that fail half-way

A constructor acquires resources by calls that may fail.  A failure is an exception, and unwinding
destroys what is owned by an object that has been constructed: a member, but not what a raw pointer
points to.

`Makes env c k size owns lost` is what is known of such code without looking into it: it makes `k`
calls; if none fails, it returns an object that owns what was acquired, `size` resources; and if
call `i` is the first to fail, then as many resources are lost as `lost i` says, or if it says
`none`, what unwinding does is undefined.

* `Makes.member` — the rule for an object that is destroyed in unwinding.
* `Makes.both` — the rule for one that is not: what it owns is lost if the rest fails.
* `Makes.pushBack` — so a loop that collects such objects loses all there are when it fails.
-/

namespace CppServer.Raii

/-- The resources that are held, and how many calls there have been. -/
structure World where
  held : Finset ℕ := ∅
  calls : ℕ := 0

/-- What the environment answers: which resource is acquired, and which calls fail. -/
structure Env where
  pick : Finset ℕ → ℕ
  pick_notMem : ∀ held, pick held ∉ held
  fails : ℕ → Bool

/-- How code ends that does not return. -/
inductive Exit (ε : Type) where
  | thrown (e : ε)
  /-- an exception was thrown where unwinding has undefined behaviour -/
  | undefined
  deriving DecidableEq, Repr

/-- Code that may throw. -/
def Code (ε β : Type) : Type := World → Except (Exit ε) β × World

variable {ε β γ : Type}

instance : Monad (Code ε) where
  pure b := fun w => (.ok b, w)
  bind c f := fun w =>
    match c w with
    | (.ok b, w') => f b w'
    | (.error e, w') => (.error e, w')

/-- A call that acquires nothing. -/
def call (env : Env) (e : ε) : Code ε Unit := fun w =>
  if env.fails w.calls then (.error (.thrown e), { w with calls := w.calls + 1 })
  else (.ok (), { w with calls := w.calls + 1 })

/-- A call that acquires a resource. -/
def acquire (env : Env) (e : ε) : Code ε ℕ := fun w =>
  if env.fails w.calls then (.error (.thrown e), { w with calls := w.calls + 1 })
  else
    (.ok (env.pick w.held),
      { held := insert (env.pick w.held) w.held, calls := w.calls + 1 })

def release (r : ℕ) (w : World) : World := { w with held := w.held.erase r }

/-- `dtor` is run if an exception leaves the code. -/
def holding (dtor : World → World) (c : Code ε β) : Code ε β := fun w =>
  match c w with
  | (.error (.thrown e), w') => (.error (.thrown e), dtor w')
  | r => r

/-- An exception that leaves the code cannot be unwound. -/
def notUnwound (c : Code ε β) : Code ε β := fun w =>
  match c w with
  | (.error _, w') => (.error .undefined, w')
  | r => r

/-- An object, and the rest; the object is destroyed if the rest fails. -/
def member (dtor : β → World → World) (c : Code ε β) (rest : β → Code ε γ) : Code ε (β × γ) := do
  let b ← c
  let g ← holding (dtor b) (rest b)
  return (b, g)

/-- An object, and the rest; nobody destroys the object if the rest fails. -/
def both (c : Code ε β) (rest : β → Code ε γ) : Code ε (β × γ) := do
  let b ← c
  let g ← rest b
  return (b, g)

/-- `n` objects, none of which is destroyed if a later one cannot be made. -/
def pushBack (c : Code ε β) : ℕ → Code ε (List β)
  | 0 => pure []
  | n + 1 => (fun p => p.1 :: p.2) <$> both c fun _ => pushBack c n

/-! ## What is known of code -/

/-- So many resources have been acquired, and these are they. -/
structure Acquired (size : ℕ) (owned : Finset ℕ) (w w' : World) : Prop where
  held : w'.held = w.held ∪ owned
  fresh : Disjoint w.held owned
  card : owned.card = size

/-- The code has returned, after `k` calls, and its result owns what was acquired. -/
def Returned (k size : ℕ) (owns : β → Finset ℕ) (w : World) (r : Except (Exit ε) β × World) :
    Prop :=
  ∃ b w', r = (.ok b, w') ∧ w'.calls = w.calls + k ∧ Acquired size (owns b) w w'

/-- The code has failed, and has lost so many resources. -/
def Failed (lost : Option ℕ) (w : World) (r : Except (Exit ε) β × World) : Prop :=
  match lost with
  | none => ∃ w', r = (.error .undefined, w')
  | some m => ∃ e w', r = (.error (.thrown e), w') ∧ w.held ⊆ w'.held ∧ (w'.held \ w.held).card = m

/-- Call `i` from here is the first to fail. -/
def FirstFails (env : Env) (w : World) (i : ℕ) : Prop :=
  (∀ j < i, env.fails (w.calls + j) = false) ∧ env.fails (w.calls + i) = true

/-- No call of the next `k` fails. -/
def NoneFails (env : Env) (w : World) (k : ℕ) : Prop := ∀ j < k, env.fails (w.calls + j) = false

structure Makes (env : Env) (c : Code ε β) (k size : ℕ) (owns : β → Finset ℕ)
    (lost : ℕ → Option ℕ) : Prop where
  returns : ∀ w, NoneFails env w k → Returned k size owns w (c w)
  fails : ∀ w, ∀ i < k, FirstFails env w i → Failed (lost i) w (c w)

/-- Destroying an object releases what it owns, and nothing else. -/
def Frees (dtor : World → World) (owned : Finset ℕ) : Prop :=
  ∀ w, (dtor w).held = w.held \ owned

variable {env : Env}

lemma frees_release (r : ℕ) : Frees (release r) {r} := by
  intro w
  rw [release, Finset.sdiff_singleton_eq_erase]

lemma release_release (r : ℕ) (w : World) : release r (release r w) = release r w := by
  rw [release, release, Finset.erase_idem]

lemma Frees.comp {d d' : World → World} {a b : Finset ℕ} (h : Frees d a) (h' : Frees d' b) :
    Frees (d' ∘ d) (a ∪ b) := by
  intro w
  rw [Function.comp_apply, h', h]
  exact sdiff_sdiff_left

/-! ## How code is put together -/

section Run

variable {c : Code ε β} {rest : β → Code ε γ} {dtor : β → World → World} {w w' w'' : World} {b : β}
  {g : γ} {e : Exit ε}

lemma bind_ok (h : c w = (.ok b, w')) : (c >>= rest) w = rest b w' := by
  change (match c w with | (.ok b, w') => rest b w' | (.error e, w') => (.error e, w')) = _
  rw [h]

lemma bind_error (h : c w = (.error e, w')) : (c >>= rest) w = (.error e, w') := by
  change (match c w with | (.ok b, w') => rest b w' | (.error e, w') => (.error e, w')) = _
  rw [h]

lemma map_ok (f : β → γ) (h : c w = (.ok b, w')) : (f <$> c) w = (.ok (f b), w') := bind_ok h

lemma map_error (f : β → γ) (h : c w = (.error e, w')) : (f <$> c) w = (.error e, w') :=
  bind_error h

lemma holding_ok {d : World → World} (h : c w = (.ok b, w')) :
    holding d c w = (.ok b, w') := by
  rw [holding, h]

lemma holding_thrown {d : World → World} {x : ε} (h : c w = (.error (.thrown x), w')) :
    holding d c w = (.error (.thrown x), d w') := by
  rw [holding, h]

lemma holding_undefined {d : World → World} (h : c w = (.error .undefined, w')) :
    holding d c w = (.error .undefined, w') := by
  rw [holding, h]

lemma notUnwound_ok (h : c w = (.ok b, w')) : notUnwound c w = (.ok b, w') := by
  rw [notUnwound, h]

lemma notUnwound_error (h : c w = (.error e, w')) :
    notUnwound c w = (.error .undefined, w') := by
  rw [notUnwound, h]

/-- The rest is run with the object, and its result is returned beside the object. -/
lemma both_ok (h : c w = (.ok b, w')) (hrest : rest b w' = (.ok g, w'')) :
    both c rest w = (.ok (b, g), w'') := by
  rw [both, bind_ok h, bind_ok hrest]
  rfl

lemma both_error (h : c w = (.error e, w')) : both c rest w = (.error e, w') := bind_error h

lemma both_rest_error (h : c w = (.ok b, w')) (hrest : rest b w' = (.error e, w'')) :
    both c rest w = (.error e, w'') := by
  rw [both, bind_ok h, bind_error hrest]

/-- What owns nothing need not be kept. -/
lemma snd_both : Prod.snd <$> both c rest = c >>= rest := by
  funext w
  cases hc : c w with
  | mk r w' =>
      cases r with
      | error e => rw [bind_error hc, map_error _ (both_error hc)]
      | ok b =>
          cases hrest : rest b w' with
          | mk r' w'' =>
              cases r' with
              | error e => rw [bind_ok hc, hrest, map_error _ (both_rest_error hc hrest)]
              | ok g => rw [bind_ok hc, hrest, map_ok _ (both_ok hc hrest)]

/-- **Two owners of one resource** do no harm, if releasing it again changes nothing: what the
inner one does, the outer one would do. -/
lemma holding_twice {d : World → World} (hd : ∀ w, d (d w) = d w) :
    holding d (c >>= fun b => holding d (rest b)) = holding d (c >>= rest) := by
  funext w
  cases hc : c w with
  | mk r w' =>
      cases r with
      | error e =>
          cases e with
          | thrown x => rw [holding_thrown (bind_error hc), holding_thrown (bind_error hc)]
          | undefined =>
              rw [holding_undefined (bind_error hc), holding_undefined (bind_error hc)]
      | ok b =>
          cases hrest : rest b w' with
          | mk r' w'' =>
              cases r' with
              | ok g =>
                  rw [holding_ok ((bind_ok hc).trans (holding_ok hrest)),
                    holding_ok ((bind_ok hc).trans hrest)]
              | error e =>
                  cases e with
                  | thrown x =>
                      rw [holding_thrown ((bind_ok hc).trans (holding_thrown hrest)),
                        holding_thrown ((bind_ok hc).trans hrest), hd]
                  | undefined =>
                      rw [holding_undefined ((bind_ok hc).trans (holding_undefined hrest)),
                        holding_undefined ((bind_ok hc).trans hrest)]

end Run

/-! ## The rules -/

theorem makes_pure (b : β) {owns : β → Finset ℕ} (h : owns b = ∅) (lost : ℕ → Option ℕ) :
    Makes env (pure b : Code ε β) 0 0 owns lost where
  returns w _ := by
    refine ⟨b, w, rfl, rfl, ?_⟩
    rw [h]
    exact ⟨(Finset.union_empty _).symm, Finset.disjoint_empty_right _, Finset.card_empty⟩
  fails w i hi := absurd hi (Nat.not_lt_zero i)

theorem makes_call (env : Env) (e : ε) : Makes env (call env e) 1 0 (fun _ => ∅) (fun _ => some 0) where
  returns w h := by
    have hnone : env.fails w.calls = false := h 0 Nat.one_pos
    rw [call, hnone]
    exact ⟨(), _, rfl, rfl, (Finset.union_empty _).symm, Finset.disjoint_empty_right _,
      Finset.card_empty⟩
  fails w i hi h := by
    obtain rfl : i = 0 := Nat.lt_one_iff.mp hi
    have hfails : env.fails w.calls = true := h.2
    rw [call, hfails]
    exact ⟨e, _, rfl, Finset.Subset.refl _, by simp⟩

theorem makes_acquire (env : Env) (e : ε) :
    Makes env (acquire env e) 1 1 (fun r => {r}) (fun _ => some 0) where
  returns w h := by
    have hnone : env.fails w.calls = false := h 0 Nat.one_pos
    rw [acquire, hnone]
    refine ⟨env.pick w.held, _, rfl, rfl, ?_, ?_, Finset.card_singleton _⟩
    · rw [Finset.union_comm]
      rfl
    · rw [Finset.disjoint_singleton_right]
      exact env.pick_notMem w.held
  fails w i hi h := by
    obtain rfl : i = 0 := Nat.lt_one_iff.mp hi
    have hfails : env.fails w.calls = true := h.2
    rw [acquire, hfails]
    exact ⟨e, _, rfl, Finset.Subset.refl _, by simp⟩

section Rules

variable {c : Code ε β} {rest : β → Code ε γ} {k m size size' : ℕ} {owns : β → Finset ℕ}
  {owns' : γ → Finset ℕ} {lost lost' : ℕ → Option ℕ} {w w' : World} {i : ℕ}

lemma NoneFails.left (h : NoneFails env w (k + m)) : NoneFails env w k :=
  fun j hj => h j (by omega)

lemma NoneFails.right (h : NoneFails env w (k + m)) (hw' : w'.calls = w.calls + k) :
    NoneFails env w' m := by
  intro j hj
  rw [hw', Nat.add_assoc]
  exact h (k + j) (by omega)

/-- A call that fails behind the first `k` leaves these alone. -/
lemma FirstFails.before (h : FirstFails env w i) (hi : k ≤ i) : NoneFails env w k :=
  fun j hj => h.1 j (by omega)

lemma FirstFails.behind (h : FirstFails env w i) (hi : k ≤ i) (hw' : w'.calls = w.calls + k) :
    FirstFails env w' (i - k) := by
  constructor
  · intro j hj
    rw [hw', Nat.add_assoc]
    exact h.1 (k + j) (by omega)
  · rw [hw', Nat.add_assoc, Nat.add_sub_cancel' hi]
    exact h.2

/-- What is returned in a structure is owned by it. -/
theorem Makes.map (h : Makes env c k size owns lost) {f : β → γ}
    (hf : ∀ b, owns' (f b) = owns b) : Makes env (f <$> c) k size owns' lost where
  returns w hw := by
    obtain ⟨b, w', hrun, hcalls, hacquired⟩ := h.returns w hw
    exact ⟨f b, w', map_ok f hrun, hcalls, by rw [hf]; exact hacquired⟩
  fails w i hi hw := by
    have hfail := h.fails w i hi hw
    cases hlost : lost i with
    | none =>
        rw [hlost] at hfail
        obtain ⟨w', hrun⟩ := hfail
        exact ⟨w', map_error f hrun⟩
    | some m =>
        rw [hlost] at hfail
        obtain ⟨e, w', hrun, hheld⟩ := hfail
        exact ⟨e, w', map_error f hrun, hheld⟩

/-- Where a failure cannot be unwound, nothing is said of what is lost. -/
theorem Makes.notUnwound (h : Makes env c k size owns lost) :
    Makes env (notUnwound c) k size owns fun _ => none where
  returns w hw := by
    obtain ⟨b, w', hrun, hrest⟩ := h.returns w hw
    exact ⟨b, w', notUnwound_ok hrun, hrest⟩
  fails w i hi hw := by
    have hfail := h.fails w i hi hw
    cases hlost : lost i with
    | none =>
        rw [hlost] at hfail
        obtain ⟨w', hrun⟩ := hfail
        exact ⟨w', notUnwound_error hrun⟩
    | some m =>
        rw [hlost] at hfail
        obtain ⟨e, w', hrun, -⟩ := hfail
        exact ⟨w', notUnwound_error hrun⟩

/-- A failure before the rest is one of the whole. -/
lemma Failed.before {l : Option ℕ} (h : Failed l w (c w)) : Failed l w (both c rest w) := by
  cases l with
  | none =>
      obtain ⟨w', hrun⟩ := h
      exact ⟨w', both_error hrun⟩
  | some m =>
      obtain ⟨e, w', hrun, hheld⟩ := h
      exact ⟨e, w', both_error hrun, hheld⟩

/-- What is acquired first and what is acquired then. -/
lemma Acquired.trans {a b : Finset ℕ} {w'' : World} (h : Acquired size a w w')
    (h' : Acquired size' b w' w'') : Acquired (size + size') (a ∪ b) w w'' where
  held := by rw [h'.held, h.held, Finset.union_assoc]
  fresh := by
    have hfresh := h'.fresh
    rw [h.held, Finset.disjoint_union_left] at hfresh
    exact Finset.disjoint_union_right.mpr ⟨h.fresh, hfresh.1⟩
  card := by
    have hfresh := h'.fresh
    rw [h.held, Finset.disjoint_union_left] at hfresh
    rw [Finset.card_union_of_disjoint hfresh.2, h.card, h'.card]

lemma Acquired.subset {a : Finset ℕ} (h : Acquired size a w w') : w.held ⊆ w'.held := by
  rw [h.held]
  exact Finset.subset_union_left

lemma Acquired.sdiff {a : Finset ℕ} (h : Acquired size a w w') : w'.held \ w.held = a := by
  rw [h.held, Finset.union_sdiff_cancel_left h.fresh]

/-- An object and the rest own what either owns. -/
lemma Makes.both_returns (hc : Makes env c k size owns lost)
    (hrest : ∀ b w, NoneFails env w m → Returned m size' owns' w (rest b w))
    (hw : NoneFails env w (k + m)) :
    Returned (k + m) (size + size') (fun p => owns p.1 ∪ owns' p.2) w (both c rest w) := by
  obtain ⟨b, w', hrun, hcalls, hacquired⟩ := hc.returns w hw.left
  obtain ⟨g, w'', hrun', hcalls', hacquired'⟩ := hrest b w' (hw.right hcalls)
  refine ⟨(b, g), w'', both_ok hrun hrun', ?_, hacquired.trans hacquired'⟩
  rw [hcalls', hcalls, Nat.add_assoc]

/-- How much more there is than a while ago. -/
lemma card_gained {a b d : Finset ℕ} (hab : a ⊆ b) (hbd : b ⊆ d) :
    (d \ a).card = (d \ b).card + (b \ a).card := by
  have hd := Finset.card_sdiff_add_card_eq_card (hab.trans hbd)
  have hb := Finset.card_sdiff_add_card_eq_card hab
  have hdb := Finset.card_sdiff_add_card_eq_card hbd
  omega

/-- **An object that nobody destroys**: if the rest fails, what the object owns is lost too. -/
theorem Makes.both (hc : Makes env c k size owns lost)
    (hrest : ∀ b, Makes env (rest b) m size' owns' lost') :
    Makes env (both c rest) (k + m) (size + size') (fun p => owns p.1 ∪ owns' p.2)
      fun i => if i < k then lost i else (lost' (i - k)).map (· + size) where
  returns w hw := hc.both_returns (fun b => (hrest b).returns) hw
  fails w i hi hw := by
    by_cases hik : i < k
    · rw [if_pos hik]
      exact (hc.fails w i hik hw).before
    · rw [if_neg hik]
      have hki := Nat.not_lt.mp hik
      obtain ⟨b, w', hrun, hcalls, hacquired⟩ := hc.returns w (hw.before hki)
      have hfail := (hrest b).fails w' (i - k) (by omega) (hw.behind hki hcalls)
      cases hlost : lost' (i - k) with
      | none =>
          rw [hlost] at hfail
          obtain ⟨w'', hrun'⟩ := hfail
          exact ⟨w'', both_rest_error hrun hrun'⟩
      | some l =>
          rw [hlost] at hfail
          obtain ⟨e, w'', hrun', hsub', hcard⟩ := hfail
          refine ⟨e, w'', both_rest_error hrun hrun', hacquired.subset.trans hsub', ?_⟩
          rw [card_gained hacquired.subset hsub', hcard, hacquired.sdiff, hacquired.card]

/-- **An object that is destroyed in unwinding**: if the rest fails, only what the rest has lost is
lost. -/
theorem Makes.member {dtor : β → World → World} (hc : Makes env c k size owns lost)
    (hdtor : ∀ b, Frees (dtor b) (owns b))
    (hrest : ∀ b, Makes env (rest b) m size' owns' lost') :
    Makes env (member dtor c rest) (k + m) (size + size') (fun p => owns p.1 ∪ owns' p.2)
      fun i => if i < k then lost i else lost' (i - k) where
  returns w hw := by
    refine hc.both_returns (fun b w hw => ?_) hw
    obtain ⟨g, w', hrun, hheld⟩ := (hrest b).returns w hw
    exact ⟨g, w', holding_ok hrun, hheld⟩
  fails w i hi hw := by
    by_cases hik : i < k
    · rw [if_pos hik]
      exact (hc.fails w i hik hw).before
    · rw [if_neg hik]
      have hki := Nat.not_lt.mp hik
      obtain ⟨b, w', hrun, hcalls, hacquired⟩ := hc.returns w (hw.before hki)
      have hfail := (hrest b).fails w' (i - k) (by omega) (hw.behind hki hcalls)
      cases hlost : lost' (i - k) with
      | none =>
          rw [hlost] at hfail
          obtain ⟨w'', hrun'⟩ := hfail
          exact ⟨w'', both_rest_error hrun (holding_undefined hrun')⟩
      | some l =>
          rw [hlost] at hfail
          obtain ⟨e, w'', hrun', hsub', hcard⟩ := hfail
          have hleft : (dtor b w'').held \ w.held = w''.held \ w'.held := by
            rw [hdtor b w'', sdiff_right_comm, sdiff_sdiff_left, hacquired.held]
            rfl
          refine ⟨e, dtor b w'', both_rest_error hrun (holding_thrown hrun'), ?_, ?_⟩
          · rw [hdtor b w'']
            exact Finset.subset_sdiff.mpr ⟨hacquired.subset.trans hsub', hacquired.fresh⟩
          · rw [hleft, hcard]

/-- Code after other code that owns nothing. -/
theorem Makes.bind (hc : Makes env c k 0 (fun _ => ∅) lost)
    (hrest : ∀ b, Makes env (rest b) m size' owns' lost') :
    Makes env (c >>= rest) (k + m) size' owns'
      fun i => if i < k then lost i else lost' (i - k) := by
  have hboth : Makes env (Prod.snd <$> Raii.both c rest) (k + m) (0 + size') owns' _ :=
    (hc.both hrest).map fun _ => (Finset.empty_union _).symm
  rw [snd_both] at hboth
  simpa using hboth

/-- What the objects in a list own. -/
def ownsAll (owns : β → Finset ℕ) : List β → Finset ℕ
  | [] => ∅
  | b :: bs => owns b ∪ ownsAll owns bs

/-- **A loop that collects objects nobody destroys** loses all it has when it fails.  By induction
on the iterations. -/
theorem Makes.pushBack (hc : Makes env c 1 1 owns fun _ => some 0) :
    ∀ n, Makes env (pushBack c n) n n (ownsAll owns) some := by
  intro n
  induction n with
  | zero => exact makes_pure [] rfl _
  | succ n ih =>
      have hboth : Makes env (Raii.pushBack c (n + 1)) (1 + n) (1 + n) (ownsAll owns) _ :=
        (hc.both fun _ => ih).map fun _ => rfl
      rw [Nat.add_comm 1 n] at hboth
      refine ⟨hboth.returns, fun w i hi hw => ?_⟩
      have hfail := hboth.fails w i hi hw
      cases i with
      | zero => exact hfail
      | succ i => exact hfail

/-- The members of a list are destroyed one after the other. -/
def destroyAll (dtor : β → World → World) : List β → World → World
  | [], w => w
  | b :: bs, w => destroyAll dtor bs (dtor b w)

lemma Frees.destroyAll {dtor : β → World → World} (h : ∀ b, Frees (dtor b) (owns b)) :
    ∀ bs, Frees (destroyAll dtor bs) (ownsAll owns bs) := by
  intro bs
  induction bs with
  | nil =>
      intro w
      rw [Raii.destroyAll, ownsAll, Finset.sdiff_empty]
  | cons b bs ih =>
      intro w
      rw [Raii.destroyAll, ih, h b, ownsAll]
      exact sdiff_sdiff_left

end Rules

end CppServer.Raii
