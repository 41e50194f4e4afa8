import ContractAudit.Risk

/-!
# Issues

What an audit finds. An issue with a level of risk is a vulnerability, and only a vulnerability
shows its category, its weakness number, its recommendation and its example.
-/

namespace ContractAudit

/-- A finding of an audit. -/
structure Issue where
  code : String
  severity : Severity
  message : String
  location : Option Location := none
  suggestion : Option String := none
  category : Option String := none
  risk : Option RiskLevel := none
  /-- The number in the list of common weaknesses. -/
  cwe : Option String := none
  recommendation : Option String := none
  codeExample : Option String := none
  /-- The name of the checker that found it, empty if none did. -/
  checker : String := ""
deriving DecidableEq, Repr

namespace Issue

def isVulnerability (issue : Issue) : Bool :=
  issue.risk.isSome

def given? (text : Option String) : Option String :=
  text.filter fun text => !text.isEmpty

def givenField (name : String) (text : Option String) : List (String × Json) :=
  ((given? text).map fun text => (name, .string text)).toList

/-- A text as JSON, null if it is not there. -/
def textOrNull : Option String → Json
  | some text => .string text
  | none => .null

def riskFields (issue : Issue) : List (String × Json) :=
  match issue.risk with
  | none => []
  | some level =>
      [("category", textOrNull issue.category), ("riskLevel", .string level.label)] ++
      givenField "cwe" issue.cwe ++ [("recommendation", textOrNull issue.recommendation)] ++
      givenField "codeExample" issue.codeExample

def locationField (location : Location) : String × Json :=
  ("location", .object [("line", .int location.line), ("column", .int location.column)])

def toJson (issue : Issue) : Json :=
  .object <|
    [("type", .string issue.code), ("severity", .string issue.severity.label),
     ("message", .string issue.message)] ++
    (issue.location.map locationField).toList ++ givenField "suggestion" issue.suggestion ++
    issue.riskFields

end Issue

end ContractAudit
