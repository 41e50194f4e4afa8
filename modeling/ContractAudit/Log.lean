/-!
# The log

What a run reports about its own work, beside its results. An entry has a level, the part of the
program that it comes from and a message, and may stand for a failure whose trace is shown below it.
-/

namespace ContractAudit

/-- The levels of log entries. -/
inductive LogLevel where
  | debug
  | info
  | warning
  | error
deriving DecidableEq, Repr

namespace LogLevel

/-- The name of a level in five characters. -/
def label : LogLevel → String
  | .debug => "DEBUG"
  | .info => "INFO "
  | .warning => "WARNI"
  | .error => "ERROR"

def rank : LogLevel → Nat
  | .debug => 0
  | .info => 1
  | .warning => 2
  | .error => 3

/-- The least level that is shown at a verbosity. -/
def ofVerbosity : Nat → LogLevel
  | 0 => .warning
  | 1 => .info
  | _ => .debug

end LogLevel

/-- The parts of the program that write to the log. -/
inductive LogSource where
  | command
  | lexer
  | parsing
  | semantic
  | checkers
  | analyzer
  | service
deriving DecidableEq, Repr

def LogSource.label : LogSource → String
  | .command => "clarity_audit"
  | .lexer => "clarity_audit.lexer"
  | .parsing => "clarity_audit.parser"
  | .semantic => "clarity_audit.semantic"
  | .checkers => "clarity_audit.checkers"
  | .analyzer => "clarity_audit.analyzer"
  | .service => "clarity_audit.service"

/-- An entry of the log. -/
structure LogEntry where
  level : LogLevel
  source : LogSource
  message : String
  /-- Whether the trace of a failure is shown below the entry. -/
  hasTrace : Bool := false
deriving DecidableEq, Repr

namespace LogEntry

def debug (source : LogSource) (message : String) : LogEntry :=
  ⟨.debug, source, message, false⟩

def render (entry : LogEntry) (time : String) : String :=
  let trace := if entry.hasTrace then "<traceback>\n" else ""
  s!"{time} [{entry.level.label}] {entry.source.label}: {entry.message}\n{trace}"

end LogEntry

end ContractAudit
