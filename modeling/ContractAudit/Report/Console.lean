import ContractAudit.Assessment
import ContractAudit.Report.Tree

/-!
# The console report

A report for readers: the numbers of issues by severity, the metrics of the contract, the issues
themselves and, if asked for, the drawing of the contract.
-/

namespace ContractAudit.Report

def heading : Severity → String
  | .error => "Errors:"
  | .warning => "Warnings:"
  | .info => "Infos:"

def issueLines (painter : Painter) (issue : Issue) (number : Nat) : List String :=
  let suggestion := (Issue.given? issue.suggestion).map fun text =>
    "   " ++ paint painter .darkGrey s!"Suggestion: {text}"
  let location := issue.location.map fun place =>
    "   " ++ paint painter .darkGrey s!"Location: Line: {place.line}, Column: {place.column}"
  s!"{number}. {paint painter .cyan issue.code}: {issue.message}" ::
    (suggestion.toList ++ location.toList)

def numberedIssues (painter : Painter) (issues : List Issue) : List String :=
  (issues.zipIdx 1).flatMap fun (issue, number) => issueLines painter issue number

def severityLines (painter : Painter) (assessment : Assessment) (severity : Severity) :
    List String :=
  let issues := assessment.withSeverity severity
  if issues.isEmpty then []
  else
    paintBold painter severity.color (heading severity) ::
      (numberedIssues painter issues ++ [""])

def allIssueLines (painter : Painter) (assessment : Assessment) : List String :=
  if assessment.issues.isEmpty then [paint painter .green "No issues found.", ""]
  else
    paintBold painter .green "Issues:" ::
      Severity.all.flatMap (severityLines painter assessment)

def summaryLines (painter : Painter) (assessment : Assessment) : List String :=
  let count := fun severity => (assessment.withSeverity severity).length
  [paintBold painter .green "Summary:",
   "- " ++ paint painter .red s!"{count .error} errors",
   "- " ++ paint painter .yellow s!"{count .warning} warnings",
   "- " ++ paint painter .blue s!"{count .info} infos",
   ""]

def functionCounts (metrics : Metrics) : String :=
  s!"{metrics.functions} ({metrics.publicFunctions} public, {metrics.privateFunctions} private, " ++
    s!"{metrics.readOnlyFunctions} read-only)"

def metricsLines (painter : Painter) (metrics : Metrics) : List String :=
  [paintBold painter .green "Metrics:",
   s!"- Functions: {functionCounts metrics}",
   s!"- Maps: {metrics.maps}",
   s!"- Constants: {metrics.constants}",
   s!"- Variables: {metrics.dataVars}",
   s!"- Complexity score: {metrics.complexity}",
   ""]

/-- The report on a file, with the drawing of a contract if one is given. -/
def console (painter : Painter) (file : String) (drawn : Option Contract)
    (assessment : Assessment) :
    String :=
  let drawing := match drawn with
    | some contract =>
        [paintBold painter .green "Abstract Syntax Tree:", tree painter contract, ""]
    | none => []
  "\n".intercalate <|
    [paintBold painter .blue "Clarity Contract Audit Report",
     paint painter .darkGrey s!"Contract: {file}", ""] ++
    summaryLines painter assessment ++ metricsLines painter assessment.metrics ++
    allIssueLines painter assessment ++ drawing

end ContractAudit.Report
