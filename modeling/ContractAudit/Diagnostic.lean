import ContractAudit.Json.Basic
import ContractAudit.Source.Location

/-!
# Diagnostics

What the stages of an audit report: errors and warnings with a fixed code, a message and a place.
Codes are stable words that other tools filter by.
-/

namespace ContractAudit

/-- The colours of console output. -/
inductive Color where
  | red
  | green
  | yellow
  | blue
  | magenta
  | cyan
  | darkGrey
deriving DecidableEq, Repr

def Color.label : Color → String
  | .red => "red"
  | .green => "green"
  | .yellow => "yellow"
  | .blue => "blue"
  | .magenta => "magenta"
  | .cyan => "cyan"
  | .darkGrey => "dark_grey"

/-- How serious a report is. -/
inductive Severity where
  | error
  | warning
  | info
deriving DecidableEq, Repr

namespace Severity

def all : List Severity := [.error, .warning, .info]

def label : Severity → String
  | .error => "error"
  | .warning => "warning"
  | .info => "info"

def color : Severity → Color
  | .error => .red
  | .warning => .yellow
  | .info => .blue

end Severity

/-- The stages that report. -/
inductive Phase where
  | parse
  | semantic
  | analysis
  | service
deriving DecidableEq, Repr

namespace Phase

def all : List Phase := [.parse, .semantic, .analysis, .service]

def label : Phase → String
  | .parse => "parse"
  | .semantic => "semantic"
  | .analysis => "analysis"
  | .service => "service"

def ofLabel? (label : String) : Option Phase :=
  all.find? fun phase => phase.label = label

end Phase

/-- The codes of reports. -/
inductive Code where
  | parseError
  | unexpectedToken
  | unknownDefinition
  | unterminatedForm
  | duplicateDefinition
  | undefinedIdentifier
  | semanticError
  | unusedFunction
  | unusedConstant
  | unusedVariable
  | unusedMap
  | writeOnlyVariable
  | writeOnlyMap
  | typeMismatch
  | namingConvention
  | unsafeUnwrap
  | potentialDivisionByZero
  | highComplexity
  | stateModificationPublic
  | unhandledFailure
  | internalCheckerError
  | reentrancy
  | integerOverflow
  | missingAuthorization
  | unsafeOperation
  | stateInconsistency
  | sourceUnreadable
  | internalError
deriving DecidableEq, Repr

namespace Code

def all : List Code :=
  [.parseError, .unexpectedToken, .unknownDefinition, .unterminatedForm, .duplicateDefinition,
   .undefinedIdentifier, .semanticError, .unusedFunction, .unusedConstant, .unusedVariable,
   .unusedMap, .writeOnlyVariable, .writeOnlyMap, .typeMismatch, .namingConvention, .unsafeUnwrap,
   .potentialDivisionByZero, .highComplexity, .stateModificationPublic, .unhandledFailure,
   .internalCheckerError, .reentrancy, .integerOverflow, .missingAuthorization, .unsafeOperation,
   .stateInconsistency, .sourceUnreadable, .internalError]

def label : Code → String
  | .parseError => "parse-error"
  | .unexpectedToken => "unexpected-token"
  | .unknownDefinition => "unknown-definition"
  | .unterminatedForm => "unterminated-form"
  | .duplicateDefinition => "duplicate-definition"
  | .undefinedIdentifier => "undefined-identifier"
  | .semanticError => "semantic-error"
  | .unusedFunction => "unused-function"
  | .unusedConstant => "unused-constant"
  | .unusedVariable => "unused-variable"
  | .unusedMap => "unused-map"
  | .writeOnlyVariable => "write-only-variable"
  | .writeOnlyMap => "write-only-map"
  | .typeMismatch => "type-mismatch"
  | .namingConvention => "naming-convention"
  | .unsafeUnwrap => "unsafe-unwrap"
  | .potentialDivisionByZero => "potential-division-by-zero"
  | .highComplexity => "high-complexity"
  | .stateModificationPublic => "state-modification-public"
  | .unhandledFailure => "unhandled-failure"
  | .internalCheckerError => "internal-checker-error"
  | .reentrancy => "reentrancy-vulnerability"
  | .integerOverflow => "integer-overflow"
  | .missingAuthorization => "missing-authorization"
  | .unsafeOperation => "unsafe-operation"
  | .stateInconsistency => "state-inconsistency"
  | .sourceUnreadable => "source-unreadable"
  | .internalError => "internal-error"

def phase : Code → Phase
  | .parseError | .unexpectedToken | .unknownDefinition | .unterminatedForm => .parse
  | .duplicateDefinition | .undefinedIdentifier | .semanticError | .unusedFunction
  | .unusedConstant | .unusedVariable | .unusedMap | .writeOnlyVariable | .writeOnlyMap
  | .typeMismatch => .semantic
  | .namingConvention | .unsafeUnwrap | .potentialDivisionByZero | .highComplexity
  | .stateModificationPublic | .unhandledFailure | .internalCheckerError | .reentrancy
  | .integerOverflow | .missingAuthorization | .unsafeOperation | .stateInconsistency => .analysis
  | .sourceUnreadable | .internalError => .service

def severity : Code → Severity
  | .parseError | .unexpectedToken | .unknownDefinition | .unterminatedForm
  | .duplicateDefinition | .undefinedIdentifier | .semanticError | .reentrancy
  | .missingAuthorization | .sourceUnreadable | .internalError => .error
  | .unusedFunction | .unusedConstant | .unusedVariable | .unusedMap | .writeOnlyVariable
  | .writeOnlyMap | .typeMismatch | .unsafeUnwrap | .highComplexity | .unhandledFailure
  | .integerOverflow | .unsafeOperation => .warning
  | .namingConvention | .potentialDivisionByZero | .stateModificationPublic
  | .internalCheckerError | .stateInconsistency => .info

end Code

def Location.toJson (location : Location) : Json :=
  .object [("line", .int location.line), ("column", .int location.column),
    ("offset", .int location.offset)]

/-- An error or a warning of one stage. -/
structure Diagnostic where
  code : Code
  message : String
  location : Location
  severity : Severity
  phase : Phase
  suggestions : List String
deriving DecidableEq, Repr

namespace Diagnostic

def error (phase : Phase) (code : Code) (message : String) (location : Location) : Diagnostic :=
  ⟨code, message, location, .error, phase, []⟩

def warning (phase : Phase) (code : Code) (message : String) (location : Location) : Diagnostic :=
  ⟨code, message, location, .warning, phase, []⟩

/-- A diagnostic as JSON; suggestions appear only if there are any. -/
def toJson (diagnostic : Diagnostic) : Json :=
  .object <|
    [("code", .string diagnostic.code.label),
     ("message", .string diagnostic.message),
     ("location", diagnostic.location.toJson),
     ("severity", .string diagnostic.severity.label),
     ("type", .string diagnostic.phase.label)] ++
    (if diagnostic.suggestions.isEmpty then []
     else [("suggestions", .array (diagnostic.suggestions.map .string))])

/-- A diagnostic on one line, in the format that editors and compilers share. -/
def renderIn (diagnostic : Diagnostic) (file : String) : String :=
  s!"{file}:{diagnostic.location.render}: {diagnostic.severity.label}: " ++
    s!"[{diagnostic.code.label}] {diagnostic.message}"

def render (diagnostic : Diagnostic) : String :=
  s!"{diagnostic.location.render}: {diagnostic.severity.label}: {diagnostic.message} " ++
    s!"[{diagnostic.code.label}]"

end Diagnostic

/-- What one stage has found so far: its errors and its warnings, each in the order of their
finding. -/
structure DiagnosticCollector (phase : Phase) where
  errors : List Diagnostic := []
  warnings : List Diagnostic := []
  errors_own : ∀ item ∈ errors, item.severity = .error ∧ item.phase = phase := by simp
  warnings_own : ∀ item ∈ warnings, item.severity = .warning ∧ item.phase = phase := by simp

namespace DiagnosticCollector

variable {phase : Phase} (collector : DiagnosticCollector phase)

def addError (code : Code) (message : String) (location : Location) (suggestions : List String) :
    DiagnosticCollector phase where
  errors := collector.errors ++ [⟨code, message, location, .error, phase, suggestions⟩]
  warnings := collector.warnings
  errors_own := by
    intro item hitem
    rcases List.mem_append.mp hitem with hitem | hitem
    · exact collector.errors_own item hitem
    · exact List.mem_singleton.mp hitem ▸ ⟨rfl, rfl⟩
  warnings_own := collector.warnings_own

def addWarning (code : Code) (message : String) (location : Location) (suggestions : List String) :
    DiagnosticCollector phase where
  errors := collector.errors
  warnings := collector.warnings ++ [⟨code, message, location, .warning, phase, suggestions⟩]
  errors_own := collector.errors_own
  warnings_own := by
    intro item hitem
    rcases List.mem_append.mp hitem with hitem | hitem
    · exact collector.warnings_own item hitem
    · exact List.mem_singleton.mp hitem ▸ ⟨rfl, rfl⟩

def hasErrors : Bool :=
  !collector.errors.isEmpty

end DiagnosticCollector

end ContractAudit
