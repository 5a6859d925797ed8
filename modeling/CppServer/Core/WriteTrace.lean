import CppServer.Core.WritePath

/-!
# What `WriteNonBlocking` sends

* `AtWrite` — what holds whenever the loop is about to call `::write`: the range it passes starts
  right behind the bytes accepted so far and ends with the copied buffer.
* `deliver_used` — how the abstract sender ends, told from the answers it has used.
* `writeNonBlocking_waits_iff` — the loop that is followed here is that of `WriteNonBlocking`.
* `sends_in_order` — the two for `WriteNonBlocking`: what the kernel accepts is a prefix of the
  write buffer, all of it unless an error other than EINTR came between, and only an error that is
  neither EINTR nor EAGAIN closes the connection.
-/

namespace CppServer

/-- How the sender ends, by the answers it has used. -/
theorem deliver_used {left : ℕ} {rs : List WriteResult} {e : WriteEnding} {left' : ℕ}
    {rest : List WriteResult} (h : deliver left rs = some (e, left', rest)) :
    ∃ used, rs = used ++ rest ∧ (e = .wouldBlock ↔ .error .EAGAIN ∈ used) ∧
      (e = .failed ↔ ∃ code, .error (.other code) ∈ used) := by
  fun_induction deliver left rs with
  | case1 rs =>
      cases h
      exact ⟨[], by simp⟩
  | case2 left => cases h
  | case3 left k rs ih =>
      obtain ⟨used, rfl, hblock, hfail⟩ := ih h
      exact ⟨.ok k :: used, rfl, by simpa using hblock, by simpa using hfail⟩
  | case4 left rs ih =>
      obtain ⟨used, rfl, hblock, hfail⟩ := ih h
      exact ⟨.error .EINTR :: used, rfl, by simpa using hblock, by simpa using hfail⟩
  | case5 left rs =>
      cases h
      exact ⟨[.error .EAGAIN], rfl, by simp, by simp⟩
  | case6 left code rs =>
      cases h
      exact ⟨[.error (.other code)], rfl, by simp, by simp⟩

/-- How many bytes the answers accept. -/
def acceptedIn : List WriteResult → ℕ
  | [] => 0
  | .ok k :: rs => k + acceptedIn rs
  | .error _ :: rs => acceptedIn rs

/-- The sender ends if the answers accept all bytes, or one of them ends it. -/
lemma deliver_isSome {left : ℕ} {rs : List WriteResult}
    (h : .error .EAGAIN ∈ rs ∨ (∃ code, .error (.other code) ∈ rs) ∨ left ≤ acceptedIn rs) :
    (deliver left rs).isSome := by
  fun_induction deliver left rs with
  | case1 rs => rfl
  | case2 left => simp [acceptedIn] at h
  | case3 left k rs ih =>
      refine ih ?_
      simp only [List.mem_cons, reduceCtorEq, false_or, acceptedIn] at h
      rcases h with hblock | hfail | hall
      · exact .inl hblock
      · exact .inr (.inl hfail)
      · exact .inr (.inr (by omega))
  | case4 left rs ih =>
      refine ih ?_
      simpa [acceptedIn] using h
  | case5 left rs => rfl
  | case6 left code rs => rfl

namespace Connection

/-- The copy `WriteNonBlocking` makes of the write buffer. -/
def copied (c : Connection) : List UInt8 := c.writeBuffer.buf.take (toInt c.writeBuffer.size).toNat

/-- The loop of `WriteNonBlocking` comes to a call of `::write`. -/
def ComesToWrite (c : Connection) (script : List WriteResult) (l : WriteLoop)
    (rs : List WriteResult) : Prop :=
  Comes (fun l : WriteLoop => decide (0 < l.bytesLeft))
    (writeBody c.copied (toInt c.writeBuffer.size))
    { state := c.state, bytesLeft := toInt c.writeBuffer.size } script l rs

/-- What holds at a call of `::write` for a buffer of `total` bytes copied to `buf`. -/
structure AtWrite (buf : List UInt8) (total : ℤ) (l : WriteLoop) : Prop where
  positive : 0 < l.bytesLeft
  bounded : l.bytesLeft ≤ total
  accepted : l.accepted <+: buf
  /-- the range starts where the accepted bytes end -/
  offset : total - l.bytesLeft = l.accepted.length
  /-- and it ends where the buffer ends -/
  inside : total - l.bytesLeft + l.bytesLeft = buf.length
  range : l.range buf total = buf.drop l.accepted.length

lemma atWrite_loopAt {buf : List UInt8} {left : ℕ} (st : ConnState) (hle : left ≤ buf.length)
    (hpos : 0 < left) : AtWrite buf buf.length (loopAt buf st left) := by
  have hlen : (loopAt buf st left).accepted.length = buf.length - left := by
    simp [loopAt]
  refine ⟨?_, ?_, List.take_prefix _ _, ?_, ?_, ?_⟩
  · simpa [loopAt] using hpos
  · simpa [loopAt] using hle
  · rw [hlen]
    simp only [loopAt]
    omega
  · simp only [loopAt]
    omega
  · rw [hlen, range_loopAt st hle]

/-- The loop is where the count of the bytes left puts it, and the kernel keeps to that count. -/
def OnTrack (buf : List UInt8) (st : ConnState) (l : WriteLoop) (rs : List WriteResult) : Prop :=
  ∃ left ≤ buf.length, l = loopAt buf st left ∧ Admissible left rs

/-- One iteration: an answer that does not end the loop moves it on by what was accepted. -/
lemma onTrack_step {buf : List UInt8} {st : ConnState} {r : WriteResult} {rs : List WriteResult}
    {l l' : WriteLoop} (hg : decide (0 < l.bytesLeft) = true) (h : OnTrack buf st l (r :: rs))
    (hb : writeBody buf buf.length l r = (l', .again)) : OnTrack buf st l' rs := by
  obtain ⟨left, hle, rfl, hadm⟩ := h
  cases left with
  | zero => simp [loopAt] at hg
  | succ left =>
      cases r with
      | ok k =>
          have hadm' : k ≤ left + 1 ∧ Admissible (left + 1 - k) rs := hadm
          rw [writeBody_ok st hle hadm'.1, Prod.mk.injEq] at hb
          exact ⟨left + 1 - k, by omega, hb.1.symm, hadm'.2⟩
      | error e =>
          have hadm' : Admissible (left + 1) rs := hadm
          cases e with
          | EINTR =>
              rw [writeBody, Prod.mk.injEq] at hb
              exact ⟨left + 1, hle, hb.1.symm, hadm'⟩
          | EAGAIN => simp [writeBody] at hb
          | other code => simp [writeBody] at hb

/-- **Every call of `::write` asks for what is left.** -/
theorem atWrite_of_comes {buf : List UInt8} {st : ConnState} {script rs : List WriteResult}
    {l : WriteLoop} (hadm : Admissible buf.length script)
    (h : Comes (fun l : WriteLoop => decide (0 < l.bytesLeft)) (writeBody buf buf.length)
      (loopAt buf st buf.length) script l rs) : AtWrite buf buf.length l := by
  have hstart : OnTrack buf st (loopAt buf st buf.length) script :=
    ⟨buf.length, le_rfl, rfl, hadm⟩
  obtain ⟨hg, left, hle, rfl, -⟩ :=
    h.invariant (I := OnTrack buf st) (fun _ _ _ _ => onTrack_step) hstart
  exact atWrite_loopAt st hle (by simpa [loopAt] using hg)

/-- Without the answers that end it otherwise the sender sends everything. -/
lemma whole_of_quiet {e : WriteEnding} {used : List WriteResult}
    (hblock : e = .wouldBlock ↔ .error .EAGAIN ∈ used)
    (hfail : e = .failed ↔ ∃ code, .error (.other code) ∈ used)
    (hnoblock : .error .EAGAIN ∉ used) (hnofail : ∀ code, .error (.other code) ∉ used) :
    e = .whole := by
  cases e with
  | whole => rfl
  | wouldBlock => exact absurd (hblock.mp rfl) hnoblock
  | failed =>
      obtain ⟨code, hcode⟩ := hfail.mp rfl
      exact absurd hcode (hnofail code)

/-- Only a failure changes the state. -/
lemma leaves_of_unfailed {e : WriteEnding} {used : List WriteResult}
    (hfail : e = .failed ↔ ∃ code, .error (.other code) ∈ used)
    (hnofail : ∀ code, .error (.other code) ∉ used) (st : ConnState) : e.leaves st = st := by
  cases e with
  | whole => rfl
  | wouldBlock => rfl
  | failed =>
      obtain ⟨code, hcode⟩ := hfail.mp rfl
      exact absurd hcode (hnofail code)

/-- `WriteNonBlocking` on a content whose size fits an `int`. -/
lemma writeNonBlocking_of_fits (c : Connection) (script : List WriteResult)
    (hint : toInt c.writeBuffer.size = c.writeBuffer.size)
    (hadm : Admissible c.writeBuffer.size script) :
    c.writeNonBlocking script
      = match deliver c.writeBuffer.size script with
        | none => .error .waiting
        | some (e, left, rest) =>
            .ok ⟨{ c with state := e.leaves c.state },
              c.writeBuffer.buf.take (c.writeBuffer.size - left), rest⟩ := by
  have hbtw : c.bytesToWrite = c.writeBuffer.size := by
    rw [bytesToWrite, hint, Int.toNat_natCast]
  have heq := writeNonBlocking_eq c script (by rw [hint]; exact Int.natCast_nonneg _)
    (by rw [hbtw]; exact hadm)
  rwa [hbtw] at heq

/-- **The call waits for the kernel exactly where its loop comes to a `::write` that there is no
answer for.** -/
theorem writeNonBlocking_waits_iff (c : Connection) (script : List WriteResult)
    (h0 : 0 ≤ toInt c.writeBuffer.size) :
    c.writeNonBlocking script = .error .waiting ↔ ∃ l, c.ComesToWrite script l [] := by
  simp only [ComesToWrite, ← whileLoop_eq_none_iff, writeNonBlocking, copied]
  rw [if_neg (Int.not_lt.mpr h0)]
  cases whileLoop _ _ _ script with
  | none => simp
  | some d => simp

/-- It comes back when the answers suffice: they accept all bytes, or one of them ends the loop. -/
theorem writeNonBlocking_returns (c : Connection) (script : List WriteResult)
    (hfit : c.writeBuffer.size < 2 ^ 31) (hadm : Admissible c.writeBuffer.size script)
    (henough : .error .EAGAIN ∈ script ∨ (∃ code, .error (.other code) ∈ script) ∨
      c.writeBuffer.size ≤ acceptedIn script) :
    ∃ o, c.writeNonBlocking script = .ok o := by
  rw [writeNonBlocking_of_fits c script ((toInt_eq_iff _).mpr hfit) hadm]
  obtain ⟨⟨e, left, rest⟩, hd⟩ := Option.isSome_iff_exists.mp (deliver_isSome henough)
  rw [hd]
  exact ⟨_, rfl⟩

/-- **`WriteNonBlocking` sends a prefix.**  For every content whose size fits an `int` and every
series of answers: each call of `::write` asks for the bytes behind those accepted so far, up to
the end.  When the loop ends, the bytes accepted are a prefix of the write buffer, the whole of it
if no answer was EAGAIN or a fatal error, and the connection is closed by a fatal error and by
nothing else. -/
theorem sends_in_order (c : Connection) (script : List WriteResult)
    (hfit : c.writeBuffer.size < 2 ^ 31) (hadm : Admissible c.writeBuffer.size script) :
    (∀ l rs, c.ComesToWrite script l rs →
      AtWrite c.writeBuffer.buf (toInt c.writeBuffer.size) l) ∧
    c.writeNonBlocking script ≠ .error .undefined ∧
    ∀ o, c.writeNonBlocking script = .ok o →
      ∃ used, script = used ++ o.rest ∧ o.accepted <+: c.writeBuffer.buf ∧
        ((.error .EAGAIN ∉ used ∧ ∀ code, .error (.other code) ∉ used) →
          o.accepted = c.writeBuffer.buf) ∧
        ((∃ code, .error (.other code) ∈ used) → o.conn.state = .closed) ∧
        ((∀ code, .error (.other code) ∉ used) → o.conn.state = c.state) := by
  have hint : toInt c.writeBuffer.size = c.writeBuffer.size := (toInt_eq_iff _).mpr hfit
  have heq := writeNonBlocking_of_fits c script hint hadm
  refine ⟨fun l rs hl => ?_, ?_, fun o ho => ?_⟩
  · have hcopied : c.copied = c.writeBuffer.buf := by
      rw [copied, hint, Int.toNat_natCast]
      exact List.take_of_length_le le_rfl
    have hstart : loopAt c.writeBuffer.buf c.state c.writeBuffer.buf.length
        = { state := c.state, bytesLeft := c.writeBuffer.size } := by
      simp [loopAt, Buffer.size]
    rw [ComesToWrite, hcopied, hint, ← hstart] at hl
    rw [hint]
    exact atWrite_of_comes hadm hl
  · rw [heq]
    cases deliver c.writeBuffer.size script <;> simp
  · rw [heq] at ho
    cases hd : deliver c.writeBuffer.size script with
    | none => simp [hd] at ho
    | some d =>
        obtain ⟨e, left, rest⟩ := d
        obtain ⟨hleft, hwhole⟩ := deliver_left hd
        obtain ⟨used, hused, hblock, hfail⟩ := deliver_used hd
        simp only [hd, Except.ok.injEq] at ho
        subst ho
        refine ⟨used, hused, List.take_prefix _ _, fun hquiet => ?_, fun hex => ?_,
          fun hnone => leaves_of_unfailed hfail hnone c.state⟩
        · have he := whole_of_quiet hblock hfail hquiet.1 hquiet.2
          simp only [hwhole.mp he, Nat.sub_zero]
          exact List.take_of_length_le le_rfl
        · rw [hfail.mpr hex]
          rfl

/-- The kernel takes one byte of three, answers nothing to speak of, and then fails. -/
theorem sends_in_order_threeBytes :
    ∃ o, threeBytes.writeNonBlocking [.ok 1, .error .EINTR, .ok 0, .error (.other 104)] = .ok o ∧
      o.conn.state = .closed := by
  have hadm : Admissible threeBytes.writeBuffer.size
      [.ok 1, .error .EINTR, .ok 0, .error (.other 104)] := by
    show Admissible 3 _
    simp [Admissible]
  have hd : deliver threeBytes.bytesToWrite [.ok 1, .error .EINTR, .ok 0, .error (.other 104)]
      = some (.failed, 2, []) := by
    rw [bytesToWrite_threeBytes]
    rfl
  have h0 : 0 ≤ toInt threeBytes.writeBuffer.size := by
    rw [(toInt_eq_iff _).mpr (by decide)]
    decide
  have hwrite := writeNonBlocking_eq threeBytes [.ok 1, .error .EINTR, .ok 0, .error (.other 104)]
    h0 (by rw [bytesToWrite_threeBytes]; exact hadm)
  rw [hd] at hwrite
  obtain ⟨used, hused, -, -, hclosed, -⟩ :=
    (sends_in_order threeBytes _ (by decide) hadm).2.2 _ hwrite
  rw [List.append_nil] at hused
  exact ⟨_, hwrite, hclosed ⟨104, by simp [← hused]⟩⟩

end Connection

end CppServer
