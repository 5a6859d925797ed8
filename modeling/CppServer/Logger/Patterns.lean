import CppServer.Logger.Formatter

/-!
# Patterns and what they mean

`substitute` says what a pattern stands for, by recursion on the pattern, and `Token` what it is
made of.  Both are compared with the formatter through the scan its loop is (`parseLoop_eq`): the
text that the loop holds stands in front of what the rest of the pattern stands for.

* `compiles_faithfully` — formatting is substitution, and a pattern written from tokens is parsed
  into these tokens.
* `recognises_iff` — `error_` tells the patterns of the grammar `WellFormed` from all others,
  except for those that end in a `%` with nothing after it: there the loop breaks and sets nothing.
-/

namespace CppServer.Logger

/-! ## What a pattern stands for -/

/-- The text of a directive. -/
def Directive.text (level : Level) (event : LogEvent) : Directive → List UInt8
  | .m => event.msg
  | .p => level.name
  | .r => ofLiteral "ms" ++ decimal event.msElapse.toNat
  | .c => cString event.fileName
  | .t => ofLiteral "id" ++ decimal event.threadId.toNat
  | .n => ofLiteral "\n"
  | .d => decimal event.time.toNat
  | .f => cString event.fileName
  | .l => decimal event.lineNum.toInt

/-- What a pattern stands for. -/
def substitute (level : Level) (event : LogEvent) : List UInt8 → List UInt8
  | [] => []
  | c :: rest =>
      if c ≠ percent then c :: substitute level event rest
      else
        match rest with
        | [] => []
        | x :: rest =>
            (if x = percent then [percent]
              else (Directive.ofLetter x).elim wrongFormat (Directive.text level event))
              ++ substitute level event rest

section Substitute

variable {level : Level} {event : LogEvent} {c x : UInt8} {rest : List UInt8}

lemma substitute_ordinary (h : c ≠ percent) :
    substitute level event (c :: rest) = c :: substitute level event rest := by
  rw [substitute.eq_def]
  exact if_pos h

@[simp] lemma substitute_dangling : substitute level event [percent] = [] := by
  rw [substitute.eq_def]
  simp

lemma substitute_pair : substitute level event (percent :: x :: rest)
    = (if x = percent then [percent]
        else (Directive.ofLetter x).elim wrongFormat (Directive.text level event))
      ++ substitute level event rest := by
  rw [substitute.eq_def]
  exact if_neg (by simp)

end Substitute

lemma Directive.format_item (level : Level) (event : LogEvent) (y : Directive) :
    y.item.format level event = y.text level event := by
  cases y <;> rfl

/-- The items that are made of the text read so far write this text. -/
lemma flatMap_flush (level : Level) (event : LogEvent) (nstr : List UInt8) :
    (flush nstr).flatMap (FormatItem.format level event) = nstr := by
  unfold flush
  split
  · rename_i hnil
    rw [hnil]
    rfl
  · simp [FormatItem.format]

/-- **The scan is substitution**, behind the text it holds.  By induction on the scan. -/
lemma scan_substitute (level : Level) (event : LogEvent) (nstr rest : List UInt8) :
    (scan nstr rest).1.flatMap (FormatItem.format level event)
      = nstr ++ substitute level event rest := by
  induction nstr, rest using scan.induct with
  | case1 nstr => simp [substitute, flatMap_flush]
  | case2 nstr c rest hc ih =>
      rw [scan_ordinary hc, ih, substitute_ordinary hc, List.append_assoc, List.singleton_append]
  | case3 nstr c hc =>
      rw [not_not.mp hc, scan_dangling, substitute_dangling, flatMap_flush, List.append_nil]
  | case4 nstr c hc rest ih =>
      rw [not_not.mp hc, scan_escape, ih, substitute_pair, if_pos rfl, List.append_assoc]
  | case5 nstr c hc x rest hx item hitem ih =>
      obtain ⟨y, hy, rfl⟩ := Option.map_eq_some_iff.mp hitem
      rw [not_not.mp hc, scan_known hx hitem, substitute_pair, if_neg hx, hy]
      simp [flatMap_flush, ih, Directive.format_item]
  | case6 nstr c hc x rest hx hitem ih =>
      have hy : Directive.ofLetter x = none := Option.map_eq_none_iff.mp hitem
      rw [not_not.mp hc, scan_unknown hx hitem, substitute_pair, if_neg hx, hy]
      simp [flatMap_flush, ih, FormatItem.format]

/-! ## What a pattern is made of -/

/-- A piece of a pattern. -/
inductive Token where
  | literal (str : List UInt8)
  | directive (y : Directive)
  deriving DecidableEq, Repr

/-- A literal, with each `%` doubled. -/
def escape (str : List UInt8) : List UInt8 :=
  str.flatMap fun c => if c = percent then [percent, percent] else [c]

/-- How a token is written. -/
def Token.write : Token → List UInt8
  | .literal str => escape str
  | .directive y => [percent, y.letter]

def writeTokens (ts : List Token) : List UInt8 := ts.flatMap Token.write

/-- The item of a token. -/
def Token.item : Token → FormatItem
  | .literal str => .string str
  | .directive y => y.item

/-- Put a literal in front, as part of a literal that is there already. -/
def consLiteral (str : List UInt8) : List Token → List Token
  | .literal str' :: ts => .literal (str ++ str') :: ts
  | ts => if str = [] then ts else .literal str :: ts

/-- Adjacent literals merged, and empty ones removed. -/
def mergeLiterals : List Token → List Token
  | [] => []
  | .literal str :: ts => consLiteral str (mergeLiterals ts)
  | .directive y :: ts => .directive y :: mergeLiterals ts

lemma ofLetter_letter (y : Directive) : Directive.ofLetter y.letter = some y := by
  cases y <;> rfl

lemma letter_ne_percent (y : Directive) : y.letter ≠ percent := by
  cases y <;> decide

lemma consLiteral_append (s t : List UInt8) (ts : List Token) :
    consLiteral s (consLiteral t ts) = consLiteral (s ++ t) ts := by
  rcases ts with _ | ⟨_ | _, ts⟩ <;> by_cases ht : t = [] <;> simp [consLiteral, ht]

lemma consLiteral_directive (s : List UInt8) (y : Directive) (ts : List Token) :
    (consLiteral s (.directive y :: ts)).map Token.item
      = flush s ++ y.item :: ts.map Token.item := by
  by_cases hs : s = [] <;> simp [consLiteral, flush, hs, Token.item]

lemma consLiteral_nil_left (ts : List Token) : consLiteral [] ts = ts := by
  rcases ts with _ | ⟨_ | _, ts⟩ <;> rfl

/-- A literal is read back character by character. -/
lemma scan_escape_append (str : List UInt8) : ∀ nstr rest : List UInt8,
    scan nstr (escape str ++ rest) = scan (nstr ++ str) rest := by
  induction str with
  | nil => simp [escape]
  | cons c str ih =>
      intro nstr rest
      have happend : nstr ++ c :: str = (nstr ++ [c]) ++ str := by simp
      rw [happend, ← ih]
      by_cases hc : c = percent
      · simp [escape, hc]
      · simp [escape, hc, scan_ordinary hc]

/-- **The tokens are read back**, behind the text the scan holds.  By induction on the tokens. -/
lemma scan_writeTokens (ts : List Token) : ∀ nstr : List UInt8,
    scan nstr (writeTokens ts)
      = ((consLiteral nstr (mergeLiterals ts)).map Token.item, false) := by
  induction ts with
  | nil =>
      intro nstr
      by_cases hn : nstr = [] <;>
        simp [writeTokens, mergeLiterals, consLiteral, flush, hn, Token.item]
  | cons t ts ih =>
      intro nstr
      have hwrite : writeTokens (t :: ts) = t.write ++ writeTokens ts := by simp [writeTokens]
      cases t with
      | literal str =>
          rw [hwrite, Token.write, scan_escape_append, ih, mergeLiterals, consLiteral_append]
      | directive y =>
          have hy : formatItemMaps y.letter = some y.item := by
            rw [formatItemMaps, ofLetter_letter]
            rfl
          rw [hwrite, Token.write, List.cons_append, List.singleton_append,
            scan_known (letter_ne_percent y) hy, ih, mergeLiterals, consLiteral_directive,
            consLiteral_nil_left]

/-- **The formatter compiles patterns faithfully.**  Whatever the pattern, level and event,
formatting is substitution; and a pattern written from tokens is parsed into the items of these
tokens, with adjacent literals merged, without an error. -/
theorem compiles_faithfully :
    (∀ (pattern : List UInt8) (level : Level) (event : LogEvent),
      (Formatter.new pattern).format level event = substitute level event pattern) ∧
    ∀ ts : List Token, (Formatter.new (writeTokens ts)).formatItems
        = (mergeLiterals ts).map Token.item ∧
      (Formatter.new (writeTokens ts)).error = false := by
  refine ⟨fun pattern level event => ?_, fun ts => ?_⟩
  · rw [Formatter.format, Formatter.new_eq, scan_substitute, List.nil_append]
  · rw [Formatter.new_eq, scan_writeTokens, consLiteral_nil_left]
    exact ⟨rfl, rfl⟩

/-! ## Which patterns are reported -/

/-- The grammar of patterns. -/
inductive WellFormed : List UInt8 → Prop
  | nil : WellFormed []
  | ordinary {c : UInt8} {rest : List UInt8} : c ≠ percent → WellFormed rest →
      WellFormed (c :: rest)
  | escape {rest : List UInt8} : WellFormed rest → WellFormed (percent :: percent :: rest)
  | directive {x : UInt8} {rest : List UInt8} : (formatItemMaps x).isSome → WellFormed rest →
      WellFormed (percent :: x :: rest)

/-- A pattern of the grammar, and a `%` with nothing after it. -/
def Dangling (pattern : List UInt8) : Prop := ∃ q, WellFormed q ∧ pattern = q ++ [percent]

lemma Dangling.prepend {rest : List UInt8} (pre : List UInt8)
    (hpre : ∀ {q : List UInt8}, WellFormed q → WellFormed (pre ++ q)) (h : Dangling rest) :
    Dangling (pre ++ rest) := by
  obtain ⟨q, hq, rfl⟩ := h
  exact ⟨pre ++ q, hpre hq, (List.append_assoc pre q _).symm⟩

/-- What the scan accepts.  By induction on the scan. -/
lemma wellFormed_of_scan (nstr rest : List UInt8) (h : (scan nstr rest).2 = false) :
    WellFormed rest ∨ Dangling rest := by
  induction nstr, rest using scan.induct with
  | case1 nstr => exact .inl .nil
  | case2 nstr c rest hc ih =>
      rw [scan_ordinary hc] at h
      exact (ih h).imp (.ordinary hc) (Dangling.prepend [c] (.ordinary hc))
  | case3 nstr c hc => exact .inr ⟨[], .nil, by rw [not_not.mp hc]; rfl⟩
  | case4 nstr c hc rest ih =>
      rw [not_not.mp hc] at h ⊢
      rw [scan_escape] at h
      exact (ih h).imp .escape (Dangling.prepend [percent, percent] .escape)
  | case5 nstr c hc x rest hx item hitem ih =>
      rw [not_not.mp hc] at h ⊢
      rw [scan_known hx hitem] at h
      have hsome : (formatItemMaps x).isSome := by simp [hitem]
      exact (ih h).imp (.directive hsome) (Dangling.prepend [percent, x] (.directive hsome))
  | case6 nstr c hc x rest hx hitem ih =>
      rw [not_not.mp hc, scan_unknown hx hitem] at h
      exact absurd h (by simp)

lemma formatItemMaps_percent : formatItemMaps percent = none := rfl

lemma ne_percent_of_isSome {x : UInt8} (h : (formatItemMaps x).isSome) : x ≠ percent := by
  rintro rfl
  rw [formatItemMaps_percent] at h
  simp at h

/-- The scan accepts a pattern of the grammar as it accepts what follows it. -/
lemma WellFormed.scan_append {q : List UInt8} (h : WellFormed q) (rest : List UInt8)
    (hrest : ∀ nstr, (scan nstr rest).2 = false) : ∀ nstr, (scan nstr (q ++ rest)).2 = false := by
  induction h with
  | nil => exact hrest
  | ordinary hc _ ih =>
      intro nstr
      rw [List.cons_append, scan_ordinary hc]
      exact ih _
  | escape _ ih =>
      intro nstr
      rw [List.cons_append, List.cons_append, scan_escape]
      exact ih _
  | directive hx _ ih =>
      intro nstr
      obtain ⟨item, hitem⟩ := Option.isSome_iff_exists.mp hx
      rw [List.cons_append, List.cons_append, scan_known (ne_percent_of_isSome hx) hitem]
      exact ih _

/-- How a pattern of the grammar starts. -/
lemma WellFormed.cons_cases {c : UInt8} {rest : List UInt8} (h : WellFormed (c :: rest)) :
    (c ≠ percent ∧ WellFormed rest) ∨
      (c = percent ∧ ∃ x rest', rest = x :: rest' ∧ WellFormed rest') := by
  cases h with
  | ordinary hc hrest => exact .inl ⟨hc, hrest⟩
  | escape hrest => exact .inr ⟨rfl, _, _, rfl, hrest⟩
  | directive hx hrest => exact .inr ⟨rfl, _, _, rfl, hrest⟩

/-- What follows an escape or a directive. -/
lemma WellFormed.of_pair {x : UInt8} {rest : List UInt8} (h : WellFormed (percent :: x :: rest)) :
    WellFormed rest := by
  rcases h.cons_cases with ⟨hne, -⟩ | ⟨-, y, rest', heq, hrest⟩
  · exact absurd rfl hne
  · rw [(List.cons.inj heq).2]
    exact hrest

/-- With a lone `%` behind it, a pattern of the grammar is none. -/
lemma WellFormed.not_append {q : List UInt8} (h : WellFormed q) :
    ¬ WellFormed (q ++ [percent]) := by
  induction h with
  | nil =>
      intro h
      rcases h.cons_cases with ⟨hne, -⟩ | ⟨-, x, rest, heq, -⟩
      · exact hne rfl
      · simp at heq
  | ordinary hc _ ih =>
      intro h
      rcases h.cons_cases with ⟨-, hrest⟩ | ⟨heq, -⟩
      · exact ih hrest
      · exact hc heq
  | escape _ ih => exact fun h => ih h.of_pair
  | directive _ _ ih => exact fun h => ih h.of_pair

/-- The patterns that set no error. -/
lemma error_eq_false_iff (pattern : List UInt8) :
    (Formatter.new pattern).error = false ↔ WellFormed pattern ∨ Dangling pattern := by
  rw [Formatter.new_eq]
  constructor
  · exact wellFormed_of_scan [] pattern
  · rintro (h | ⟨q, hq, rfl⟩)
    · have hscan := h.scan_append [] (fun nstr => by simp) []
      rwa [List.append_nil] at hscan
    · exact hq.scan_append [percent] (fun nstr => by simp) []

/-- **When the formatter recognises its grammar.**  `error_` is false exactly for the patterns of
the grammar, unless the pattern is one of them with a `%` and nothing after it at its end. -/
theorem recognises_iff (pattern : List UInt8) :
    ((Formatter.new pattern).error = false ↔ WellFormed pattern) ↔ ¬ Dangling pattern := by
  rw [error_eq_false_iff]
  constructor
  · rintro h ⟨q, hq, rfl⟩
    exact hq.not_append (h.mp (.inr ⟨q, hq, rfl⟩))
  · exact fun h => or_iff_left h

/-- The error of a lone `%` is not reported. -/
theorem dangling_not_reported :
    ¬ ∀ pattern : List UInt8, (Formatter.new pattern).error = false ↔ WellFormed pattern := by
  intro h
  have herror : (Formatter.new [percent]).error = false := by
    rw [Formatter.new_eq]
    simp
  exact WellFormed.nil.not_append ((h [percent]).mp herror)

end CppServer.Logger
