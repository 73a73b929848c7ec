/-!
# PartProgram.CommandLine.LogLevel

How much a command says about its work. A message is shown from its own level on.
-/

namespace PartProgram

inductive LogLevel where
  | trace
  | debug
  | info
  | warning
  | error
  | critical
deriving DecidableEq, Repr

namespace LogLevel

def all : List LogLevel := [trace, debug, info, warning, error, critical]

def name : LogLevel → String
  | trace => "TRACE"
  | debug => "DEBUG"
  | info => "INFO"
  | warning => "WARNING"
  | error => "ERROR"
  | critical => "CRITICAL"

def number : LogLevel → Nat
  | trace => 5
  | debug => 10
  | info => 20
  | warning => 30
  | error => 40
  | critical => 50

def ofName? (s : String) : Option LogLevel := all.find? (·.name == s)

end LogLevel

/-- What a command line says about the level. -/
structure Verbosity where
  level : Option LogLevel := none
  /-- how many times more was asked for -/
  verbose : Nat := 0
  quiet : Bool := false
deriving Repr

/-- A level by name goes first, then more, then less, then tracing by the surroundings. -/
def Verbosity.logLevel (v : Verbosity) (tracing : Bool) : LogLevel :=
  match v.level, v.verbose with
  | some level, _ => level
  | none, 0 => if v.quiet then .warning else if tracing then .trace else .info
  | none, 1 => .info
  | none, 2 => .debug
  | none, _ => .trace

end PartProgram
