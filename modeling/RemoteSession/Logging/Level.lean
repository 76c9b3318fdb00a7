/-!
# Levels of the log

How grave a line of the log is. A level lets pass what is as grave or graver:
`error` lets the least pass and `trace` all.
-/

namespace RemoteSession

/-- The levels, the gravest first. -/
inductive LogLevel where
  | error
  | warn
  | info
  | debug
  | trace
deriving DecidableEq, Repr

namespace LogLevel

/-- The word of a level. -/
def word : LogLevel → String
  | .error => "error"
  | .warn => "warn"
  | .info => "info"
  | .debug => "debug"
  | .trace => "trace"

/-- All levels, the gravest first. -/
def all : List LogLevel := [.error, .warn, .info, .debug, .trace]

/-- The level that a word names. -/
def ofWord? (word : String) : Option LogLevel :=
  all.find? fun level => level.word == word

/-- The place of a level among all, from one on. -/
def rank : LogLevel → Nat
  | .error => 1
  | .warn => 2
  | .info => 3
  | .debug => 4
  | .trace => 5

/-- A word and its level determine each other. -/
theorem ofWord?_word (level : LogLevel) : ofWord? level.word = some level := by
  cases level <;> decide

end LogLevel

end RemoteSession
