import ContractAudit.Checker.Basic

/-!
# Inconsistent state

A data variable or a map that several functions write is hard to keep consistent.
-/

namespace ContractAudit.Checker

namespace StateInconsistency

def declaredAt? (environment : Environment) (kind : StorageKind) (name : String) :
    Option Location :=
  match kind with
  | .variable => (environment.dataVars.get? name).map fun entry => entry.span.start
  | .map => (environment.maps.get? name).map fun entry => entry.span.start
  | .constant => none

def title : StorageKind → String
  | .variable => "Variable"
  | .map => "Map"
  | .constant => "Constant"

/-- The storage other than constants that more than one function writes. -/
def shared (graph : DataFlowGraph) : List (String × DataNode) :=
  graph.entries.filter fun entry =>
    entry.2.kind ≠ .constant && decide (1 < entry.2.writers.length)

def finding (environment : Environment) (entry : String × DataNode) : Finding where
  message :=
    s!"{title entry.2.kind} '{entry.1}' is modified by multiple functions: " ++
    ", ".intercalate entry.2.writers
  location := declaredAt? environment entry.2.kind entry.1
  recommendation := "Ensure proper synchronization and access patterns for shared state."
  suggestion :=
    some "Consider using atomic operations or restructuring to avoid race conditions."

end StateInconsistency

def stateInconsistency : Checker where
  name := "state-inconsistency"
  description := "Shared state with several writers"
  code := .stateInconsistency
  category := "state-inconsistency"
  risk := .low
  search := fun audited =>
    .ok ((StateInconsistency.shared audited.dataFlow).map
      (StateInconsistency.finding audited.semantic.environment))

end ContractAudit.Checker
