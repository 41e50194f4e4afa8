import ContractAudit.Log
import ContractAudit.Parse.Forms
import ContractAudit.Report.Console

/-!
# Audits

The stages from the text of a contract to its assessment. A source that cannot be read is one error,
and so is a numeral that denotes no integer; what is wrong with a contract otherwise is reported
stage by stage, and the later stages still run.
-/

namespace ContractAudit

/-- Why a source file cannot be read. -/
inductive SourceFault where
  | disk (fault : DiskFault)
  | encoding (fault : Text.Utf8.Fault)

/-- A source file that cannot be read. -/
structure SourceError where
  path : String
  fault : SourceFault

def SourceError.message (error : SourceError) : String :=
  let reason := match error.fault with
    | .disk fault => fault.text
    | .encoding fault => s!"not valid UTF-8 ({fault.reason.text})"
  s!"cannot read {error.path}: {reason}"

/-- The text of the file at a path, with every line ended by a line feed. -/
def sourceAt (disk : Disk) (path : String) : Except SourceError String := do
  let bytes ← (disk.read path).mapError fun fault => ⟨path, .disk fault⟩
  let text ← (Text.Utf8.decode bytes).mapError fun fault => ⟨path, .encoding fault⟩
  pure (String.ofList (Text.normalizeNewlines text))

/-- The text of a source file, or why it cannot be read. A path that can name no file gives neither.
-/
def readSource (disk : Disk) (path : String) : Except NulInPath (Except SourceError String) := do
  checkPath path
  pure (sourceAt disk path)

/-- The stages of an audit. -/
inductive Stage where
  | lex
  | parse
  | semantic
  | analysis
deriving DecidableEq, Repr

def Stage.label : Stage → String
  | .lex => "lex"
  | .parse => "parse"
  | .semantic => "semantic"
  | .analysis => "analysis"

/-- How far an audit goes. -/
inductive Depth where
  | semantic
  | assessment
deriving DecidableEq, Repr

/-- The result of an audit. -/
structure Audit where
  file : String
  contract : Option Contract := none
  semantic : Option SemanticResult := none
  assessment : Option Assessment := none
  errors : List Diagnostic := []
  warnings : List Diagnostic := []
  /-- The stages that ended, in order. -/
  stages : List Stage := []
  /-- The number of characters that start no token. -/
  unknownCharacters : Nat := 0

namespace Audit

def success (audit : Audit) : Bool :=
  audit.errors.isEmpty

def errorsOf (audit : Audit) (phase : Phase) : List Diagnostic :=
  audit.errors.filter fun error => error.phase = phase

def unreadable (error : SourceError) : Audit where
  file := error.path
  errors := [Diagnostic.error .service .sourceUnreadable error.message .nowhere]

/-- The audit of a text with a numeral that denotes no integer. -/
def stopped (file source : String) (error : Text.Numeral.Error) : Audit where
  file := file
  errors := [Diagnostic.error .service .internalError s!"parse failed: {error.message}" .nowhere]
  stages := [.lex]
  unknownCharacters := unknownCount source

def ofText (depth : Depth) (config : Config) (source file : String) : Audit :=
  match parse source with
  | .error error => stopped file source error
  | .ok parsed =>
      let semantic := analyzeContract parsed.contract
      let isAssessed := depth = .assessment
      { file := file
        contract := some parsed.contract
        semantic := some semantic
        assessment :=
          if isAssessed then
            some (assess config semantic (Suppressions.none.addDirectives source))
          else none
        errors := parsed.errors ++ semantic.errors
        warnings := semantic.warnings
        stages := [.lex, .parse, .semantic] ++ (if isAssessed then [.analysis] else [])
        unknownCharacters := unknownCount source }

def ofFile (depth : Depth) (config : Config) (disk : Disk) (path : String) :
    Except NulInPath Audit := do
  match ← readSource disk path with
  | .error error => pure (unreadable error)
  | .ok source => pure (ofText depth config source path)

/-- The metrics of the contract; without one they are zero. -/
def metrics (audit : Audit) : Metrics :=
  (audit.contract.map Metrics.ofContract).getD { }

def statistics (audit : Audit) : List (String × Nat) :=
  let metrics := audit.metrics
  [("total_functions", metrics.functions), ("public_functions", metrics.publicFunctions),
   ("private_functions", metrics.privateFunctions),
   ("read_only_functions", metrics.readOnlyFunctions), ("constants", metrics.constants),
   ("variables", metrics.dataVars), ("maps", metrics.maps)]

def diagnosticLines (title : String) (items : List Diagnostic) : List String :=
  if items.isEmpty then []
  else
    s!"{title} ({items.length}):" ::
      (items.map fun item =>
        s!"  [{item.phase.label}] {item.location.render}: {item.message}") ++ [""]

/-- The line about the time of a stage, which is not measured. -/
def stageLine (stage : Stage) : String :=
  let padding := String.ofList (List.replicate (9 - stage.label.length) ' ')
  s!"  {stage.label}{padding} 0.00 ms"

/-- The parsing report, which ends in one line feed. -/
def parsingReport (audit : Audit) : String :=
  let status := if audit.success then "SUCCESS" else "FAILED"
  let metrics := audit.metrics
  let statistics :=
    if audit.contract.isNone then []
    else
      ["Statistics:", s!"  Functions: {Report.functionCounts metrics}",
       s!"  Constants: {metrics.constants}", s!"  Variables: {metrics.dataVars}",
       s!"  Maps:      {metrics.maps}", ""]
  let timings :=
    if audit.stages.isEmpty then [] else "Timings:" :: audit.stages.map stageLine
  let lines :=
    ["Clarity Contract Parsing Report", "===============================",
     s!"File:   {audit.file}", s!"Status: {status}", ""] ++ statistics ++
    diagnosticLines "Errors" audit.errors ++ diagnosticLines "Warnings" audit.warnings ++ timings
  String.ofList (Text.trimEnd Text.isBlank ("\n".intercalate lines).toList) ++ "\n"

end Audit

/-- What is wrong with the text of a contract at a place. -/
structure SyntaxIssue where
  line : Int
  column : Int
  message : String
deriving DecidableEq, Repr

/-- The result of a syntax check. -/
structure Validation where
  valid : Bool
  errors : List SyntaxIssue
deriving DecidableEq, Repr

namespace Validation

def ofText (source : String) : Except Text.Numeral.Error Validation := do
  let parsed ← parse source
  pure ⟨parsed.success, parsed.errors.map fun error =>
    ⟨error.location.line, error.location.column, error.message⟩⟩

def unreadable (error : SourceError) : Validation :=
  ⟨false, [⟨0, 0, error.message⟩]⟩

/-- What ends the syntax check of a file without a result. -/
inductive Interruption where
  | path (error : NulInPath)
  | numeral (error : Text.Numeral.Error)
deriving DecidableEq, Repr

def Interruption.message : Interruption → String
  | .path error => error.message
  | .numeral error => error.message

def ofFile (disk : Disk) (path : String) : Except Interruption Validation := do
  match ← (readSource disk path).mapError .path with
  | .error error => pure (unreadable error)
  | .ok source => (ofText source).mapError .numeral

end Validation

end ContractAudit
