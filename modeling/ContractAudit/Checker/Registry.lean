import ContractAudit.Checker.Authorization
import ContractAudit.Checker.Overflow
import ContractAudit.Checker.Reentrancy
import ContractAudit.Checker.StateInconsistency
import ContractAudit.Checker.UnsafeOperation

/-!
# The registry of checkers

Checkers by name, in the order of registration, some of them disabled. A name may be disabled before
a checker of that name is registered.
-/

namespace ContractAudit

/-- Checkers by name, and the names that are disabled. -/
structure Registry where
  checkers : Table String Checker
  disabled : List String

namespace Registry

def empty : Registry :=
  ⟨.empty, []⟩

/-- Registers a checker, in the place of one with the same name. -/
def register (registry : Registry) (checker : Checker) : Registry :=
  { registry with checkers := registry.checkers.insert checker.name checker }

def unregister (registry : Registry) (name : String) : Registry :=
  { registry with checkers := registry.checkers.erase name }

def disable (registry : Registry) (name : String) : Registry :=
  { registry with disabled := addNew registry.disabled name }

def enable (registry : Registry) (name : String) : Registry :=
  { registry with disabled := registry.disabled.filter (· ≠ name) }

def enabled (registry : Registry) : List Checker :=
  (registry.checkers.entries.filter fun entry => !registry.disabled.contains entry.1).map Prod.snd

def withCode (registry : Registry) (code : String) : List Checker :=
  registry.checkers.values.filter fun checker => checker.code.label = code

def builtin : List Checker :=
  [Checker.reentrancy, Checker.overflow, Checker.authorization, Checker.unsafeOperation,
   Checker.stateInconsistency]

def standard (disabled : List String) : Registry :=
  disabled.foldl disable (builtin.foldl register empty)

end Registry

/-- What a run of checkers gives: the issues of each checker, in the order of the run. -/
structure CheckerRun where
  results : List (String × List Issue)

namespace CheckerRun

def ofCheckers (checkers : List Checker) (audited : Audited) : CheckerRun :=
  ⟨checkers.map fun checker => (checker.name, checker.run audited)⟩

def issues (run : CheckerRun) : List Issue :=
  run.results.flatMap Prod.snd

def names (run : CheckerRun) : List String :=
  run.results.map Prod.fst

def byChecker (run : CheckerRun) : Table String (List Issue) :=
  Table.ofList run.results

def withRisk (run : CheckerRun) (level : RiskLevel) : List Issue :=
  run.issues.filter fun issue => issue.risk = some level

def withCategory (run : CheckerRun) (category : String) : List Issue :=
  run.issues.filter fun issue => issue.category = some category

/-- The names under which the times of the checkers are kept, without repetitions. -/
def timers (run : CheckerRun) : List String :=
  distinct (run.names.map fun name => name ++ "_elapsed_ms")

def summary (run : CheckerRun) : String :=
  let lines := run.names.map fun name =>
    let count := ((run.byChecker.get? name).getD []).length
    s!"  {name}: {count} findings (0.0ms)"
  "\n".intercalate (s!"Checker run complete: {run.issues.length} finding(s)" :: lines)

end CheckerRun

/-- Runs the enabled checkers of a registry or, if names are given, the registered checkers of these
names. -/
def Registry.run (registry : Registry) (audited : Audited) (names : Option (List String)) :
    CheckerRun :=
  let chosen := match names with
    | some names => names.filterMap registry.checkers.get?
    | none => registry.enabled
  CheckerRun.ofCheckers chosen audited

end ContractAudit
