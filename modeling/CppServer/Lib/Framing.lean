import Mathlib.Data.List.Basic
import Mathlib.Data.List.Infix
import Mathlib.Tactic.Lemma

/-!
# Text in lines

A message of lines that end in CR LF, an empty line, and a body that may be anything.

* `cut` — the parts before and after the first occurrence of a separator (`cut_eq_some_iff`).
* `crlfLines` — the lines of a text.
* `cut_frame`, `crlfLines_joinLines` — a framed message comes apart into the lines and the body it
  was made of.
-/

namespace CppServer

section Cut

variable {α : Type*} [DecidableEq α]

/-- What stands before the first `sep`, and what stands behind it. -/
def cut (sep : List α) : List α → Option (List α × List α)
  | [] => if sep = [] then some ([], []) else none
  | x :: xs =>
      if sep <+: x :: xs then some ([], (x :: xs).drop sep.length)
      else (cut sep xs).map fun p => (x :: p.1, p.2)

/-- The separator is at hand. -/
lemma cut_of_prefixed (sep rest : List α) : cut sep (sep ++ rest) = some ([], rest) := by
  cases h : sep ++ rest with
  | nil =>
      obtain ⟨rfl, rfl⟩ := List.append_eq_nil_iff.mp h
      simp [cut]
  | cons x xs =>
      rw [cut, ← h, if_pos (List.prefix_append sep rest), List.drop_left]

/-- The separator is not at hand. -/
lemma cut_cons {sep : List α} {x : α} {xs : List α} (h : ¬ sep <+: x :: xs) :
    cut sep (x :: xs) = (cut sep xs).map fun p => (x :: p.1, p.2) := by
  rw [cut, if_neg h]

/-- Nothing is found where the first element of the separator does not occur. -/
lemma cut_append_of_notMem {s : α} {sep l : List α} (h : s ∉ l) (rest : List α) :
    cut (s :: sep) (l ++ rest) = (cut (s :: sep) rest).map fun p => (l ++ p.1, p.2) := by
  induction l with
  | nil => simp
  | cons x xs ih =>
      obtain ⟨hx, hxs⟩ := not_or.mp (List.mem_cons.not.mp h)
      rw [List.cons_append, cut_cons fun hp => hx (List.cons_prefix_cons.mp hp).1, ih hxs,
        Option.map_map]
      rfl

/-- A text without the first element of the separator is what the cut finds in front of it. -/
lemma cut_of_notMem {s : α} {sep l : List α} (h : s ∉ l) (rest : List α) :
    cut (s :: sep) (l ++ (s :: sep ++ rest)) = some (l, rest) := by
  rw [cut_append_of_notMem h, cut_of_prefixed]
  simp

/-- `a` and `b` are what stands around the first `sep` of `l`. -/
def IsCut (sep l a b : List α) : Prop :=
  l = a ++ sep ++ b ∧ ∀ a' b', l = a' ++ sep ++ b' → a.length ≤ a'.length

omit [DecidableEq α] in
/-- A separator that is at hand is the first. -/
lemma isCut_of_prefixed {sep rest a b : List α} :
    IsCut sep (sep ++ rest) a b ↔ a = [] ∧ b = rest := by
  constructor
  · rintro ⟨heq, hfirst⟩
    have hnil : a = [] := List.length_eq_zero_iff.mp (Nat.le_zero.mp (hfirst [] rest rfl))
    subst hnil
    exact ⟨rfl, (List.append_cancel_left heq).symm⟩
  · rintro ⟨rfl, rfl⟩
    exact ⟨rfl, fun _ _ _ => Nat.zero_le _⟩

omit [DecidableEq α] in
/-- A separator that is not at hand comes behind the first element. -/
lemma eq_cons_of_not_prefixed {sep xs a b : List α} {x : α} (h : ¬ sep <+: x :: xs)
    (heq : x :: xs = a ++ sep ++ b) : ∃ a₁, a = x :: a₁ ∧ xs = a₁ ++ sep ++ b := by
  cases a with
  | nil => exact absurd ⟨b, heq.symm⟩ h
  | cons y a₁ =>
      rw [List.cons_append, List.cons_append, List.cons.injEq] at heq
      exact ⟨a₁, by rw [heq.1], heq.2⟩

omit [DecidableEq α] in
lemma isCut_cons {sep xs a b : List α} {x : α} (h : ¬ sep <+: x :: xs) :
    IsCut sep (x :: xs) a b ↔ ∃ a₁, a = x :: a₁ ∧ IsCut sep xs a₁ b := by
  constructor
  · rintro ⟨heq, hfirst⟩
    obtain ⟨a₁, rfl, hxs⟩ := eq_cons_of_not_prefixed h heq
    refine ⟨a₁, rfl, hxs, fun a' b' heq' => ?_⟩
    exact Nat.le_of_succ_le_succ (hfirst (x :: a') b' (by rw [heq']; rfl))
  · rintro ⟨a₁, rfl, hxs, hfirst⟩
    refine ⟨by rw [hxs]; rfl, fun a' b' heq' => ?_⟩
    obtain ⟨a₂, rfl, hrest⟩ := eq_cons_of_not_prefixed h heq'
    exact Nat.succ_le_succ (hfirst a₂ b' hrest)

/-- **The cut is at the first occurrence**: by induction on the text. -/
theorem cut_eq_some_iff {sep : List α} :
    ∀ {l a b : List α}, cut sep l = some (a, b) ↔ IsCut sep l a b := by
  intro l
  induction l with
  | nil =>
      intro a b
      by_cases hsep : sep = []
      · subst hsep
        rw [show cut [] ([] : List α) = some ([], []) from rfl, Option.some.injEq, Prod.mk.injEq,
          eq_comm, eq_comm (a := [])]
        exact isCut_of_prefixed.symm
      · rw [cut, if_neg hsep]
        refine iff_of_false (by simp) fun h => hsep ?_
        have hnil := List.append_eq_nil_iff.mp h.1.symm
        exact (List.append_eq_nil_iff.mp hnil.1).2
  | cons x xs ih =>
      intro a b
      by_cases hp : sep <+: x :: xs
      · obtain ⟨rest, hrest⟩ := hp
        rw [← hrest, cut_of_prefixed, Option.some.injEq, Prod.mk.injEq, isCut_of_prefixed,
          eq_comm, eq_comm (a := rest)]
      · rw [cut_cons hp, isCut_cons hp, Option.map_eq_some_iff]
        constructor
        · rintro ⟨⟨a₁, b₁⟩, hcut, heq⟩
          obtain ⟨rfl, rfl⟩ := Prod.mk.inj heq
          exact ⟨a₁, rfl, ih.mp hcut⟩
        · rintro ⟨a₁, rfl, hcut⟩
          exact ⟨(a₁, b), ih.mpr hcut, rfl⟩

end Cut

/-! ## Lines -/

/-- The end of a line. -/
def crlf : List UInt8 := [13, 10]

/-- The end of a line, and an empty line. -/
def blankLine : List UInt8 := crlf ++ crlf

/-- The lines of a text, which are separated by CR LF. -/
def crlfLines : List UInt8 → List (List UInt8)
  | [] => [[]]
  | 13 :: 10 :: rest => [] :: crlfLines rest
  | c :: rest =>
      match crlfLines rest with
      | [] => [[c]]
      | l :: ls => (c :: l) :: ls

/-- The text of some lines. -/
def joinLines : List (List UInt8) → List UInt8
  | [] => []
  | [l] => l
  | l :: ls => l ++ crlf ++ joinLines ls

/-- A message: each line with its end, an empty line, and the body. -/
def frame (lines : List (List UInt8)) (body : List UInt8) : List UInt8 :=
  (lines.map (· ++ crlf)).flatten ++ crlf ++ body

/-- A line of a header: neither empty nor broken. -/
def IsLine (l : List UInt8) : Prop := l ≠ [] ∧ (13 : UInt8) ∉ l

lemma crlfLines_cons {c : UInt8} (hc : c ≠ 13) {rest l : List UInt8} {ls : List (List UInt8)}
    (h : crlfLines rest = l :: ls) : crlfLines (c :: rest) = (c :: l) :: ls := by
  rw [crlfLines, h]
  intro _ heq
  exact absurd heq hc

lemma crlfLines_append {l rest l' : List UInt8} {ls : List (List UInt8)} (hl : (13 : UInt8) ∉ l)
    (h : crlfLines rest = l' :: ls) : crlfLines (l ++ rest) = (l ++ l') :: ls := by
  induction l with
  | nil => exact h
  | cons c cs ih =>
      obtain ⟨hc, hcs⟩ := not_or.mp (List.mem_cons.not.mp hl)
      exact crlfLines_cons (Ne.symm hc) (ih hcs)

/-- **The lines of a text made of lines**, if there is one at all. -/
theorem crlfLines_joinLines : ∀ {lines : List (List UInt8)}, lines ≠ [] →
    (∀ l ∈ lines, IsLine l) → crlfLines (joinLines lines) = lines
  | [l], _, h => by
      have hl : crlfLines (l ++ []) = [l ++ []] := crlfLines_append (h l List.mem_cons_self).2 rfl
      rwa [List.append_nil] at hl
  | l :: l' :: ls, _, h => by
      have hrest := crlfLines_joinLines (List.cons_ne_nil l' ls) fun k hk =>
        h k (List.mem_cons_of_mem l hk)
      have hend : crlfLines (crlf ++ joinLines (l' :: ls)) = [] :: l' :: ls :=
        congrArg ([] :: ·) hrest
      rw [joinLines, List.append_assoc, crlfLines_append (h l List.mem_cons_self).2 hend,
        List.append_nil]
      simp

/-- The end of a line with another line behind it is not an empty line. -/
lemma cut_crlf {rest : List UInt8} (h : rest.head? ≠ some 13) :
    cut blankLine (crlf ++ rest) = (cut blankLine rest).map fun p => (crlf ++ p.1, p.2) := by
  have hcr : ¬ blankLine <+: 13 :: 10 :: rest := by
    rintro ⟨t, ht⟩
    refine h ?_
    have hrest : rest = 13 :: 10 :: t := by simpa [blankLine, crlf] using ht.symm
    rw [hrest]
    rfl
  have hlf : ¬ blankLine <+: 10 :: rest := by
    rintro ⟨t, ht⟩
    simp [blankLine, crlf] at ht
  rw [show crlf ++ rest = 13 :: 10 :: rest from rfl, cut_cons hcr, cut_cons hlf, Option.map_map]
  rfl

/-- **A framed message is cut at the end of its lines**: by induction on the lines.  The first
empty line is the intended one, since a line starts with something else than CR. -/
theorem cut_frame (body : List UInt8) : ∀ {lines : List (List UInt8)}, lines ≠ [] →
    (∀ l ∈ lines, IsLine l) → cut blankLine (frame lines body) = some (joinLines lines, body)
  | [l], _, h => by
      have hl := (h l List.mem_cons_self).2
      have hframe : frame [l] body = l ++ (blankLine ++ body) := by simp [frame, blankLine]
      rw [hframe]
      exact cut_of_notMem hl body
  | l :: l' :: ls, _, h => by
      have hl := (h l List.mem_cons_self).2
      obtain ⟨hne, hcr⟩ := h l' (List.mem_cons_of_mem l List.mem_cons_self)
      have hrest := cut_frame body (List.cons_ne_nil l' ls) fun k hk =>
        h k (List.mem_cons_of_mem l hk)
      have hframe : frame (l :: l' :: ls) body = l ++ (crlf ++ frame (l' :: ls) body) := by
        simp [frame]
      have hhead : (frame (l' :: ls) body).head? ≠ some 13 := by
        obtain ⟨c, cs, rfl⟩ := List.exists_cons_of_ne_nil hne
        simp only [frame, List.map_cons, List.flatten_cons, List.cons_append, List.head?_cons, ne_eq,
          Option.some.injEq]
        exact fun hc => hcr (hc ▸ List.mem_cons_self)
      rw [hframe, show blankLine = 13 :: [10, 13, 10] from rfl, cut_append_of_notMem hl]
      rw [show (13 :: [10, 13, 10] : List UInt8) = blankLine from rfl, cut_crlf hhead, hrest]
      simp [joinLines]

end CppServer
