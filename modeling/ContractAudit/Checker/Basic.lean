import ContractAudit.Config
import ContractAudit.DataFlow
import ContractAudit.Issue
import ContractAudit.Suppression

/-!
# Checkers

A checker looks for one kind of vulnerability in an analysed contract. It gives findings, which
become issues with the code, the category and the risk of the checker.
-/

namespace ContractAudit

/-- What checkers look at. -/
structure Audited where
  semantic : SemanticResult
  dataFlow : DataFlowGraph
  config : Config
  suppressions : Suppressions

def Audited.functions (audited : Audited) : List FunctionDef :=
  audited.semantic.contract.functions

/-- What a checker finds. -/
structure Finding where
  message : String
  location : Option Location
  recommendation : String
  suggestion : Option String := none
  codeExample : Option String := none

/-- A search for one kind of vulnerability. A search that fails gives the reason. -/
structure Checker where
  name : String
  description : String
  code : Code
  category : String
  risk : RiskLevel
  cwe : Option String := none
  search : Audited → Except String (List Finding)

namespace Checker

def issue (checker : Checker) (finding : Finding) : Issue where
  code := checker.code.label
  severity := checker.code.severity
  message := finding.message
  location := finding.location
  suggestion := finding.suggestion
  category := some checker.category
  risk := some checker.risk
  cwe := checker.cwe
  recommendation := some finding.recommendation
  codeExample := finding.codeExample
  checker := checker.name

def failureIssue (checker : Checker) (reason : String) : Issue where
  code := Code.internalCheckerError.label
  severity := .info
  message := s!"Checker '{checker.name}' failed: {reason}"
  checker := checker.name

/-- The issues of a checker that are not silenced, or the one that reports its failure. -/
def run (checker : Checker) (audited : Audited) : List Issue :=
  match checker.search audited with
  | .error reason => [checker.failureIssue reason]
  | .ok findings =>
      (findings.map checker.issue).filter fun issue =>
        !audited.suppressions.isSuppressed issue.code issue.location

/-- The calls in a body whose callee is one of some names, in pre-order. -/
def callsNamed (body : List Expr) (names : List String) :
    List (NodeInfo × String × List Expr) :=
  ((walkBody body).filterMap Node.call?).filter fun call => names.contains call.2.1

end Checker

end ContractAudit
