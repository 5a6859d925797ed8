import CppServer.Lib.CString
import CppServer.Logger.FileAppender

/-!
# `Formatter`

The format items, and `Formatter::Parse` as the source has it: an index into the pattern, the
literal text that has been read and not been made an item of, and four ways to go on.

`operator<<` writes an integer in decimal, and `std::endl` is a newline.  The event of a log call
is there; a null pointer is passed only by the destructor of `FileAppender`, and never formatted.

* `parseLoop_eq` — the loop, from any index on, is a scan of the rest of the pattern.
-/

namespace CppServer.Logger

/-- `LogEvent`, with the bytes its `file_name_` points to. -/
structure LogEvent where
  fileName : List UInt8
  lineNum : Int32
  msElapse : UInt32
  threadId : UInt32
  time : UInt64
  msg : List UInt8
  deriving DecidableEq

/-- `LogLevel::ToString` -/
def Level.name : Level → List UInt8
  | .INFO => ofLiteral "INFO"
  | .DEBUG => ofLiteral "DEBUG"
  | .WARN => ofLiteral "WARN"
  | .ERROR => ofLiteral "ERROR"
  | .FATAL => ofLiteral "FATAL"
  | .OTHER => ofLiteral "UNKNOWN"

/-- What `operator<<` writes for an integer. -/
def decimal (k : ℤ) : List UInt8 := ofLiteral (toString k)

/-- The classes derived from `FormatItem`. -/
inductive FormatItem where
  | message
  | level
  | msElapse
  | threadId
  | string (str : List UInt8)
  | newLine
  | lineNum
  | fileName
  | time
  deriving DecidableEq, Repr

/-- `FormatItem::format`: what is written to `out`. -/
def FormatItem.format (level : Level) (event : LogEvent) : FormatItem → List UInt8
  | .message => event.msg
  | .level => level.name
  | .msElapse => ofLiteral "ms" ++ decimal event.msElapse.toNat
  | .threadId => ofLiteral "id" ++ decimal event.threadId.toNat
  | .string str => str
  | .newLine => ofLiteral "\n"
  | .lineNum => decimal event.lineNum.toInt
  | .fileName => cString event.fileName
  | .time => decimal event.time.toNat

/-- `'%'` -/
def percent : UInt8 := 37

/-- The text of an unknown directive. -/
def wrongFormat : List UInt8 := ofLiteral "<wrong format>"

/-- The letter of a directive. -/
inductive Directive where
  | m
  | p
  | r
  | c
  | t
  | n
  | d
  | f
  | l
  deriving DecidableEq, Repr

def Directive.letter : Directive → UInt8
  | .m => 109
  | .p => 112
  | .r => 114
  | .c => 99
  | .t => 116
  | .n => 110
  | .d => 100
  | .f => 102
  | .l => 108

/-- The directives in the order of the entries of `format_item_maps_`. -/
def directives : List Directive := [.m, .p, .r, .c, .t, .n, .d, .f, .l]

/-- The directive with a letter. -/
def Directive.ofLetter (x : UInt8) : Option Directive := directives.find? fun y => y.letter = x

/-- The values of `format_item_maps_`; `%c` has the item of `%f`. -/
def Directive.item : Directive → FormatItem
  | .m => .message
  | .p => .level
  | .r => .msElapse
  | .c => .fileName
  | .t => .threadId
  | .n => .newLine
  | .d => .time
  | .f => .fileName
  | .l => .lineNum

/-- `format_item_maps_.find(x)` -/
def formatItemMaps (x : UInt8) : Option FormatItem :=
  (Directive.ofLetter x).map Directive.item

/-- The variables of `Parse`. -/
structure ParseLoop where
  i : ℕ := 0
  nstr : List UInt8 := []
  formatItems : List FormatItem := []
  error : Bool := false
  deriving DecidableEq, Repr

/-- `if (!nstr.empty())`: the text read so far becomes an item. -/
def flush (nstr : List UInt8) : List FormatItem := if nstr = [] then [] else [.string nstr]

/-- The loop of `Parse`. -/
def parseLoop (pattern : List UInt8) (s : ParseLoop) : ParseLoop :=
  if h : s.i < pattern.length then
    if pattern[s.i] ≠ percent then
      parseLoop pattern { s with nstr := s.nstr ++ [pattern[s.i]], i := s.i + 1 }
    else if h₁ : pattern.length ≤ s.i + 1 then
      -- `break`, with `error_` as it was
      s
    else if pattern[s.i + 1] = percent then
      parseLoop pattern { s with nstr := s.nstr ++ [percent], i := s.i + 2 }
    else
      match formatItemMaps pattern[s.i + 1] with
      | some item =>
          parseLoop pattern
            { s with formatItems := s.formatItems ++ flush s.nstr ++ [item], nstr := [],
                     i := s.i + 2 }
      | none =>
          parseLoop pattern
            { i := s.i + 2, nstr := [], error := true,
              formatItems := s.formatItems ++ flush s.nstr ++ [.string wrongFormat] }
  else s
termination_by pattern.length - s.i

/-- `Formatter` -/
structure Formatter where
  pattern : List UInt8
  formatItems : List FormatItem
  error : Bool
  deriving DecidableEq, Repr

namespace Formatter

/-- The end of `Parse`. -/
def afterLoop (pattern : List UInt8) (s : ParseLoop) : Formatter where
  pattern := pattern
  formatItems := s.formatItems ++ flush s.nstr
  error := s.error

/-- `Formatter::Formatter`, with `Parse` -/
def new (pattern : List UInt8) : Formatter := afterLoop pattern (parseLoop pattern {})

/-- `Formatter::format` -/
def format (f : Formatter) (level : Level) (event : LogEvent) : List UInt8 :=
  f.formatItems.flatMap (FormatItem.format level event)

end Formatter

/-! ## The loop as a scan -/

/-- The items and the error that reading `rest` adds, with the text `nstr` read just before. -/
def scan (nstr : List UInt8) : List UInt8 → List FormatItem × Bool
  | [] => (flush nstr, false)
  | c :: rest =>
      if c ≠ percent then scan (nstr ++ [c]) rest
      else
        match rest with
        | [] => (flush nstr, false)
        | x :: rest =>
            if x = percent then scan (nstr ++ [percent]) rest
            else
              match formatItemMaps x with
              | some item => (flush nstr ++ item :: (scan [] rest).1, (scan [] rest).2)
              | none => (flush nstr ++ .string wrongFormat :: (scan [] rest).1, true)

section Scan

variable {nstr rest : List UInt8} {c x : UInt8}

@[simp] lemma scan_nil : scan nstr [] = (flush nstr, false) := by rw [scan]

lemma scan_ordinary (h : c ≠ percent) : scan nstr (c :: rest) = scan (nstr ++ [c]) rest := by
  rw [scan.eq_def]
  exact if_pos h

@[simp] lemma scan_dangling : scan nstr [percent] = (flush nstr, false) := by
  rw [scan.eq_def]
  simp

@[simp] lemma scan_escape :
    scan nstr (percent :: percent :: rest) = scan (nstr ++ [percent]) rest := by
  rw [scan.eq_def]
  simp

lemma scan_known (h : x ≠ percent) {item : FormatItem} (hx : formatItemMaps x = some item) :
    scan nstr (percent :: x :: rest)
      = (flush nstr ++ item :: (scan [] rest).1, (scan [] rest).2) := by
  rw [scan.eq_def]
  simp [h, hx]

lemma scan_unknown (h : x ≠ percent) (hx : formatItemMaps x = none) :
    scan nstr (percent :: x :: rest)
      = (flush nstr ++ .string wrongFormat :: (scan [] rest).1, true) := by
  rw [scan.eq_def]
  simp [h, hx]

end Scan

/-- What is left to read, from index `i` on. -/
lemma drop_eq_cons {pattern : List UInt8} {i : ℕ} (h : i < pattern.length) :
    pattern.drop i = pattern[i] :: pattern.drop (i + 1) := List.drop_eq_getElem_cons h

/-- **The loop is a scan.**  What it adds, from any index on, depends on the rest of the pattern
and on the text it holds.  By induction on the iterations, one case for each way to go on. -/
theorem parseLoop_eq (pattern : List UInt8) (s : ParseLoop) :
    Formatter.afterLoop pattern (parseLoop pattern s) =
      { pattern := pattern,
        formatItems := s.formatItems ++ (scan s.nstr (pattern.drop s.i)).1,
        error := s.error || (scan s.nstr (pattern.drop s.i)).2 } := by
  induction s using parseLoop.induct pattern with
  | case1 s h hc ih =>
      rw [parseLoop, dif_pos h, if_pos hc, ih, drop_eq_cons h, scan_ordinary hc]
  | case2 s h hc h₁ =>
      have hlast : pattern.drop (s.i + 1) = [] := List.drop_eq_nil_of_le h₁
      rw [parseLoop, dif_pos h, if_neg hc, dif_pos h₁, drop_eq_cons h, hlast, not_not.mp hc,
        scan_dangling, Bool.or_false]
      rfl
  | case3 s h hc h₁ hx ih =>
      rw [parseLoop, dif_pos h, if_neg hc, dif_neg h₁, if_pos hx, ih, drop_eq_cons h,
        drop_eq_cons (Nat.not_le.mp h₁), not_not.mp hc, hx, scan_escape]
  | case4 s h hc h₁ hx item hitem ih =>
      rw [parseLoop, dif_pos h, if_neg hc, dif_neg h₁, if_neg hx]
      simp only [hitem]
      rw [ih, drop_eq_cons h, drop_eq_cons (Nat.not_le.mp h₁), not_not.mp hc,
        scan_known hx hitem]
      simp
  | case5 s h hc h₁ hx hitem ih =>
      rw [parseLoop, dif_pos h, if_neg hc, dif_neg h₁, if_neg hx]
      simp only [hitem]
      rw [ih, drop_eq_cons h, drop_eq_cons (Nat.not_le.mp h₁), not_not.mp hc,
        scan_unknown hx hitem]
      simp
  | case6 s h =>
      rw [parseLoop, dif_neg h, List.drop_eq_nil_of_le (Nat.not_lt.mp h), scan_nil, Bool.or_false]
      rfl

/-- The formatter of a pattern. -/
lemma Formatter.new_eq (pattern : List UInt8) : Formatter.new pattern =
    { pattern := pattern, formatItems := (scan [] pattern).1, error := (scan [] pattern).2 } := by
  rw [Formatter.new, parseLoop_eq]
  simp

end CppServer.Logger
