import ContractAudit.Assessment
import ContractAudit.Report.Paint

/-!
# Security reports

The details of vulnerabilities, and the verdict of an audit by level of risk.
-/

namespace ContractAudit.Report

def shown (text : Option String) : String :=
  text.getD "None"

def adviceLines (issue : Issue) : List String :=
  [s!"   Category: {shown issue.category}"] ++
  ((Issue.given? issue.cwe).map fun cwe => s!"   CWE: {cwe}").toList ++
  [s!"   Recommendation: {shown issue.recommendation}"]

/-- The lines of an example, indented, without line feeds at its ends. -/
def exampleLines (sample : String) : List String :=
  let lines := Text.lines (Text.trim (· = '\n') sample.toList)
  ["", "   Code Example:"] ++ lines.map fun line => "   " ++ String.ofList line

/-- The lines about a vulnerability. A vulnerability without a level counts as low. -/
def vulnerabilityLines (painter : Painter) (verbose : Bool) (issue : Issue) : List String :=
  let level := issue.risk.getD .low
  let sample := if verbose then Issue.given? issue.codeExample else none
  ["", paintBold painter level.color s!"{issue.code} ({level.label} risk):",
   s!"   {issue.message}"] ++
  (issue.location.map fun place => s!"   Location: {place.render}").toList ++
  adviceLines issue ++ (sample.map exampleLines).getD []

/-- The details of vulnerabilities, with examples if asked for. -/
def vulnerabilities (painter : Painter) (verbose : Bool) (issues : List Issue) : String :=
  if issues.isEmpty then paint painter .green "No security vulnerabilities found."
  else
    "\n".intercalate
      (paintBold painter .red "Security Vulnerabilities Found:" ::
        issues.flatMap (vulnerabilityLines painter verbose))

def severeLines (painter : Painter) (issue : Issue) (number : Nat) : List String :=
  let level := issue.risk.getD .high
  ["", paintBold painter level.color s!"{number}. {issue.code} ({level.capitals} RISK)",
   s!"   {issue.message}"] ++ adviceLines issue

def verdict (painter : Painter) (assessment : Assessment) : String :=
  let has := fun level => !(assessment.vulnerabilitiesOf level).isEmpty
  if has .critical then
    paint painter .magenta "CRITICAL ISSUES FOUND - Immediate action required"
  else if has .high then
    paint painter .red "HIGH RISK ISSUES - Should be addressed before deployment"
  else if has .medium then
    paint painter .yellow "MEDIUM RISK ISSUES - Recommended to address"
  else paint painter .green "No high-risk vulnerabilities found"

/-- The vulnerabilities by level, the severe ones in full, and the verdict. -/
def auditSummary (painter : Painter) (assessment : Assessment) : String :=
  if assessment.vulnerabilities.isEmpty then
    paintBold painter .green "SECURITY AUDIT PASSED - No vulnerabilities detected"
  else
    let counts := RiskLevel.all.reverse.map fun level =>
      s!"   {level.title}: {(assessment.vulnerabilitiesOf level).length}"
    let severe := assessment.vulnerabilitiesOf .critical ++ assessment.vulnerabilitiesOf .high
    "\n".intercalate <|
      paintBold painter .red "SECURITY AUDIT RESULTS:" :: counts ++
      (severe.zipIdx 1).flatMap (fun (issue, number) => severeLines painter issue number) ++
      ["", "AUDIT SUMMARY:", "   " ++ verdict painter assessment]

end ContractAudit.Report
