import ContractAudit.Audit

/-!
# What audits log

The entries that an audit leaves in the log, stage by stage. Times are not measured.
-/

namespace ContractAudit

def unknownEntries (count : Nat) : List LogEntry :=
  if count = 0 then []
  else [.debug .lexer s!"lexer skipped {count} unrecognised character(s)"]

def parseEntry (contract : Contract) (errors : Nat) : LogEntry :=
  .debug .parsing s!"parsed {contract.body.length} statement(s), {errors} error(s)"

def SemanticResult.trace (semantic : SemanticResult) : List LogEntry :=
  let summary := Json.object (semantic.environment.summary.map fun (name, count) =>
    (name, .int count))
  semantic.unknownCalls.map (fun (name, location) =>
    .debug .semantic s!"call to unknown function {Text.quoted name} at {location.render}") ++
  [.debug .semantic (s!"semantic analysis: {summary.quoted}, {semantic.errors.length} error(s), " ++
    s!"{semantic.warnings.length} warning(s)")]

def Assessment.trace (assessment : Assessment) : List LogEntry :=
  let semantic := assessment.semanticIssues.length
  let vulnerabilities := assessment.vulnerabilities.length
  let general := assessment.issues.length - semantic - vulnerabilities
  assessment.checkerRun.results.map (fun (name, issues) =>
    .debug .checkers s!"checker {name}: {issues.length} finding(s) in 0.0ms") ++
  [.debug .analyzer (s!"static analysis: {general} base, {semantic} semantic, " ++
    s!"{vulnerabilities} vulnerability finding(s)")]

namespace Audit

/-- The last entry about an audit: its stages or, if it was stopped, its failure. -/
def closingEntry (audit : Audit) : LogEntry :=
  if audit.contract.isSome then
    let timings := ", ".intercalate (audit.stages.map fun stage => s!"{stage.label} 0.0ms")
    .debug .service s!"{audit.file}: {timings}"
  else ⟨.debug, .service, s!"internal failure in {audit.file}", true⟩

/-- The entries about an audit. Of a source that cannot be read there is only its error. -/
def trace (audit : Audit) : List LogEntry :=
  if audit.stages.isEmpty then
    audit.errors.map fun error => .debug .service error.message
  else
    unknownEntries audit.unknownCharacters ++
    (audit.contract.map fun contract =>
      parseEntry contract (audit.errorsOf .parse).length).toList ++
    (audit.semantic.map SemanticResult.trace).getD [] ++
    (audit.assessment.map Assessment.trace).getD [] ++ [audit.closingEntry]

end Audit

end ContractAudit
