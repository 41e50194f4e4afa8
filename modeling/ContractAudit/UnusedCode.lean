import ContractAudit.Issue
import ContractAudit.Semantic.Contracts

/-!
# Unused code

Constants, data variables and maps that nothing reads. Storage that is written but never read is
reported as write-only, and not as unused as well.
-/

namespace ContractAudit.UnusedCode

def issue (code : Code) (message : String) (span : Span) (suggestion : String) : Issue where
  code := code.label
  severity := .warning
  message := message
  location := some span.start
  suggestion := some suggestion
  checker := "unused-code"

def constant (name : String) (entry : ConstantEntry) : Option Issue :=
  if entry.used then none
  else some (issue .unusedConstant s!"Constant '{name}' is defined but never used" entry.span
    "Remove unused constants to reduce contract size and improve readability.")

def dataVariable (name : String) (entry : VariableEntry) : Option Issue :=
  if entry.accessed || entry.modified then none
  else some (issue .unusedVariable s!"Variable '{name}' is defined but never accessed" entry.span
    "Remove unused variables or ensure they are accessed where needed.")

def map (name : String) (entry : MapEntry) : Option Issue :=
  if entry.accessed || entry.modified then none
  else some (issue .unusedMap s!"Map '{name}' is defined but never accessed" entry.span
    "Remove unused maps to reduce contract size.")

def writeOnlyVariable (name : String) (entry : VariableEntry) : Option Issue :=
  if entry.modified && !entry.accessed then
    some (issue .writeOnlyVariable s!"Variable '{name}' is modified but never read" entry.span
      "Ensure variables that are modified are also read, or remove unnecessary writes.")
  else none

def writeOnlyMap (name : String) (entry : MapEntry) : Option Issue :=
  if entry.modified && !entry.accessed then
    some (issue .writeOnlyMap s!"Map '{name}' is modified but never read" entry.span
      "Ensure maps that are modified are also accessed, or remove unnecessary writes.")
  else none

def issues (environment : Environment) : List Issue :=
  environment.constants.entries.filterMap (fun (name, entry) => constant name entry) ++
  environment.dataVars.entries.filterMap (fun (name, entry) => dataVariable name entry) ++
  environment.maps.entries.filterMap (fun (name, entry) => map name entry) ++
  environment.dataVars.entries.filterMap (fun (name, entry) => writeOnlyVariable name entry) ++
  environment.maps.entries.filterMap (fun (name, entry) => writeOnlyMap name entry)

end ContractAudit.UnusedCode
