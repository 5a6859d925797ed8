import CppServer.Logger.Formatter
import CppServer.Logger.Quiescent

/-!
# `Logger`

A logger and the appenders there are, known by their addresses, in `α`.  The calls of its member
functions come one after the other.  No constructor and no initialiser sets `Appender::level_`, so
each appender has some value of it, from wherever.

`StdoutAppender::Log` prints at once, and `FileAppender::Log` hands the event to the machine of
`FileAppender.lean`, with the same `level_`.  The level `OTHER` is used by `FileAppender`
exclusively.

The fields `calls` and `wanted` are history: no step reads them.
-/

namespace CppServer.Logger

/-- The classes derived from `Appender`. -/
inductive AppenderClass where
  | stdout
  | file
  deriving DecidableEq, Repr

/-- `Appender`; `formatter_` is unset until somebody sets it. -/
structure Appender where
  kind : AppenderClass
  level : ℕ
  formatter : Option Formatter := none

/-- `formatter_->format(level, event)`, where there is a formatter. -/
def Appender.text (p : Appender) (level : Level) (event : LogEvent) : List UInt8 :=
  p.formatter.elim [] fun f => f.format level event

/-- `Logger`, and the appenders. -/
structure LoggerState (α : Type*) where
  level : Level := .INFO
  formatter : Formatter := .new (ofLiteral "%d [%p] %f %l %m %n")
  appenders : List α := []
  appender : α → Appender
  /-- what is printed, with the appender that prints it -/
  cout : List (α × List UInt8) := []
  /-- what `Log` of each appender was called with -/
  calls : α → List (Entry LogEvent) := fun _ => []
  /-- the events that pass the level of the logger, once for each appender then attached -/
  wanted : List (α × List UInt8) := []

/-- The calls of a logger's member functions. -/
inductive Call (α : Type*) where
  | addAppender (a : α)
  | delAppender (a : α)
  | setLevel (level : Level)
  | log (level : Level) (event : LogEvent)
  deriving DecidableEq

variable {α : Type*}

def mayCall : Call α → Prop
  | .log level _ => level ≠ .OTHER
  | _ => True

instance : ∀ a : Call α, Decidable (mayCall a)
  | .addAppender _ => inferInstanceAs (Decidable True)
  | .delAppender _ => inferInstanceAs (Decidable True)
  | .setLevel _ => inferInstanceAs (Decidable True)
  | .log level _ => inferInstanceAs (Decidable (level ≠ .OTHER))

open Function (update)

namespace LoggerState

variable [DecidableEq α]

/-- `Logger::AddAppender` -/
def addAppender (s : LoggerState α) (a : α) : LoggerState α :=
  let p := s.appender a
  -- an appender without a formatter gets the default one
  let p := if p.formatter.isNone then { p with formatter := some s.formatter } else p
  { s with appender := update s.appender a p, appenders := s.appenders ++ [a] }

/-- `Logger::DelAppender`: the first one in the list that is `a`. -/
def delAppender (s : LoggerState α) (a : α) : LoggerState α := { s with appenders := s.appenders.erase a }

/-- `Logger::SetLevel` -/
def setLevel (s : LoggerState α) (level : Level) : LoggerState α := { s with level := level }

/-- `StdoutAppender::Log` and `FileAppender::Log`. -/
def appenderLog (level : Level) (event : LogEvent) (s : LoggerState α) (a : α) : LoggerState α :=
  let p := s.appender a
  let s := { s with calls := update s.calls a (s.calls a ++ [⟨level, some event⟩]) }
  match p.kind with
  | .stdout =>
      if p.level ≤ level.value then { s with cout := s.cout ++ [(a, p.text level event)] } else s
  | .file => s

/-- `Logger::Log` -/
def log (s : LoggerState α) (level : Level) (event : LogEvent) : LoggerState α :=
  if s.level.value ≤ level.value then s.appenders.foldl (appenderLog level event) s else s

end LoggerState

variable [DecidableEq α]

/-- What a call does, and which events it should have emitted. -/
def callEffect (s : LoggerState α) : Call α → LoggerState α
  | .addAppender a => s.addAppender a
  | .delAppender a => s.delAppender a
  | .setLevel level => s.setLevel level
  | .log level event =>
      { s.log level event with
          wanted := s.wanted ++
            if s.level.value ≤ level.value then
              s.appenders.map fun a => (a, (s.appender a).text level event)
            else [] }

/-- A logger with its default formatter and no appenders yet. -/
def loggerMachine (α : Type*) [DecidableEq α] : Machine (LoggerState α) (Call α) :=
  Machine.guarded (fun s => ∃ appender, s = { appender := appender }) (fun _ a => mayCall a)
    callEffect

/-- A `FileAppender` whose `Log` was called by the thread that uses the logger, with what `calls`
says, and that has been destroyed when these calls had returned. -/
structure Finished (maxQueueSize : ℕ) (p : Appender) (calls : List (Entry LogEvent))
    (t : State Unit LogEvent) : Prop where
  positive : 0 < maxQueueSize
  run : ∃ as, (machine Unit LogEvent ⟨maxQueueSize, p.level⟩).run {} as = some t ∧
    (machine Unit LogEvent ⟨maxQueueSize, p.level⟩).Along Quiet {} as
  logged : t.logged (.producer ()) = calls
  destroyed : t.life = .destroyed

end CppServer.Logger
