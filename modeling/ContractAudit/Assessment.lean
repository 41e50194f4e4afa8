import ContractAudit.CallGraph.Render
import ContractAudit.Checker.Registry
import ContractAudit.UnusedCode

/-!
# Assessments

The assessment of an analysed contract has three layers of issues, in this order: general ones about
the text, those about functions and storage, and the vulnerabilities that checkers find. Silenced
issues are left out. Counts of definitions and the graphs of the contract come with it.
-/

namespace ContractAudit

/-- The counts of definitions in a contract, and a measure of its complexity. -/
structure Metrics where
  functions : Nat := 0
  publicFunctions : Nat := 0
  privateFunctions : Nat := 0
  readOnlyFunctions : Nat := 0
  maps : Nat := 0
  constants : Nat := 0
  dataVars : Nat := 0
  /-- One for each function, parameter and body expression. -/
  complexity : Nat := 0
deriving DecidableEq, Repr

namespace Metrics

def countVisible (contract : Contract) (visibility : Visibility) : Nat :=
  contract.functions.countP fun function => function.visibility = visibility

def countForms (contract : Contract) (kind : NodeKind) : Nat :=
  contract.body.countP fun form => form.kind = kind

def ofContract (contract : Contract) : Metrics where
  functions := contract.functions.length
  publicFunctions := countVisible contract .external
  privateFunctions := countVisible contract .internal
  readOnlyFunctions := countVisible contract .readOnly
  maps := countForms contract .mapDef
  constants := countForms contract .constantDef
  dataVars := countForms contract .dataVarDef
  complexity :=
    contract.functions.foldr (fun function score =>
      1 + function.params.length + function.body.length + score) 0

def toJson (metrics : Metrics) : Json :=
  .object [("function_count", .int metrics.functions),
    ("public_function_count", .int metrics.publicFunctions),
    ("private_function_count", .int metrics.privateFunctions),
    ("read_only_function_count", .int metrics.readOnlyFunctions),
    ("map_count", .int metrics.maps), ("constant_count", .int metrics.constants),
    ("var_count", .int metrics.dataVars), ("complexity_score", .int metrics.complexity)]

end Metrics

namespace GeneralIssue

def unusedFunction (function : FunctionDef) : Issue where
  code := Code.unusedFunction.label
  severity := .warning
  message := s!"Private function '{function.name}' is defined but never called"
  location := some function.location
  suggestion :=
    some "Consider removing the unused function or making sure it's called where needed."

def isUnused (facts : Facts) (function : FunctionDef) : Bool :=
  function.visibility = .internal && (facts.referrers function.name).all (· = function.name)

def callCount (contract : Contract) (callee : String) : Nat :=
  ((Node.contract contract).walk.filterMap Node.call?).countP fun call => call.2.1 = callee

def unwraps (contract : Contract) : List Issue :=
  let count := callCount contract "unwrap!" + callCount contract "unwrap-panic"
  if count = 0 then []
  else
    [{ code := Code.unsafeUnwrap.label
       severity := .warning
       message :=
         s!"Found {count} usage(s) of unwrap! or unwrap-panic, which can lead to runtime errors"
       suggestion :=
         some "Consider using 'match' or 'asserts!' with proper error handling instead." }]

def divisions (contract : Contract) : List Issue :=
  let count := callCount contract "/"
  if count = 0 then []
  else
    [{ code := Code.potentialDivisionByZero.label
       severity := .info
       message := s!"Found {count} division operation(s). Ensure divisors cannot be zero"
       suggestion :=
         some "Consider adding checks before division to ensure the divisor is not zero." }]

/-- A character of a name as it stands in kebab case: lower-case letters, digits and hyphens stay,
capitals become lower-case and all else becomes a hyphen. Beside the ASCII capitals the Kelvin sign
and the dotted capital `I` have a lower-case form that starts with an ASCII letter. -/
def kebabChar (c : Char) : List Char :=
  if c.isLower || c.isDigit || c = '-' then [c]
  else if c.isUpper then [c.toLower]
  else if c = '\u212a' then ['k']
  else if c = '\u0130' then ['i', '-']
  else ['-']

def kebab (name : String) : String :=
  String.ofList (name.toList.flatMap kebabChar)

def naming (function : FunctionDef) : Issue where
  code := Code.namingConvention.label
  severity := .info
  message :=
    s!"Function name '{function.name}' does not follow kebab-case " ++
    "convention (lowercase with hyphens)"
  location := some function.location
  suggestion :=
    some s!"Rename to follow kebab-case convention, e.g., '{kebab function.name}'"

end GeneralIssue

def generalIssues (config : Config) (semantic : SemanticResult) : List Issue :=
  let contract := semantic.contract
  (contract.functions.filter (GeneralIssue.isUnused semantic.facts)).map
    GeneralIssue.unusedFunction ++
  GeneralIssue.unwraps contract ++ GeneralIssue.divisions contract ++
  (contract.functions.filter fun function => !config.acceptsName function.name).map
    GeneralIssue.naming

namespace FunctionIssue

def parameters (config : Config) (function : FunctionDef) : List Issue :=
  let count := function.params.length
  if count ≤ config.maxParameters then []
  else
    [{ code := Code.highComplexity.label
       severity := .warning
       message := s!"Function '{function.name}' has many parameters ({count}), consider refactoring"
       location := some function.location
       suggestion :=
         some "Consider using a tuple or breaking the function into smaller functions." }]

/-- The issue about a public function that changes state and stays in the contract. -/
def stateChange (function : FunctionDef) (known : FunctionFacts) : List Issue :=
  if known.modifiesState && !known.callsExternal then
    [{ code := Code.stateModificationPublic.label
       severity := .info
       message := s!"Public function '{function.name}' modifies state without external calls"
       location := some function.location
       suggestion := some
        "Ensure proper access controls are in place for state-modifying public functions." }]
  else []

def failure (function : FunctionDef) (known : FunctionFacts) : List Issue :=
  if known.canFail then
    [{ code := Code.unhandledFailure.label
       severity := .warning
       message :=
         s!"Public function '{function.name}' can fail, ensure callers handle errors properly"
       location := some function.location
       suggestion := some
        "Document the error conditions and ensure proper error handling in calling code." }]
  else []

def issues (config : Config) (semantic : SemanticResult) (entry : FunctionEntry)
    (function : FunctionDef) : List Issue :=
  parameters config function ++
    match semantic.factsOf? function with
    | some known =>
        if entry.visibility = .external then
          stateChange function known ++ failure function known
        else []
    | none => []

end FunctionIssue

def functionIssues (config : Config) (semantic : SemanticResult) : List Issue :=
  semantic.environment.functions.entries.flatMap fun (name, entry) =>
    match semantic.contract.functions.find? fun function => function.name = name with
    | some function => FunctionIssue.issues config semantic entry function
    | none => []

/-- The result of an assessment. -/
structure Assessment where
  issues : List Issue := []
  metrics : Metrics := { }
  semanticIssues : List Issue := []
  vulnerabilities : List Issue := []
  callGraph : CallGraph := .empty
  dataFlow : DataFlowGraph := .empty
  environment : Option Environment := none
  checkerRun : CheckerRun := ⟨[]⟩

namespace Assessment

def vulnerabilitiesAtLeast (assessment : Assessment) (level : RiskLevel) : List Issue :=
  assessment.vulnerabilities.filter fun issue => issue.risk.any (·.atLeast level)

def vulnerabilitiesOf (assessment : Assessment) (level : RiskLevel) : List Issue :=
  assessment.vulnerabilities.filter fun issue => issue.risk = some level

def highestRisk? (assessment : Assessment) : Option RiskLevel :=
  match assessment.vulnerabilities.filterMap Issue.risk with
  | [] => none
  | level :: levels => some (levels.foldl RiskLevel.higher level)

def withSeverity (assessment : Assessment) (severity : Severity) : List Issue :=
  assessment.issues.filter fun issue => issue.severity = severity

def toFields (assessment : Assessment) : List (String × Json) :=
  [("issues", .array (assessment.issues.map Issue.toJson)),
   ("metrics", assessment.metrics.toJson),
   ("semanticIssues", .array (assessment.semanticIssues.map Issue.toJson)),
   ("vulnerabilities", .array (assessment.vulnerabilities.map Issue.toJson)),
   ("callGraph", .array (assessment.callGraph.entries.map fun (name, node) => node.toJson name)),
   ("dataFlowGraph",
     .array (assessment.dataFlow.entries.map fun (name, node) => node.toJson name)),
   ("typeEnvironment", .object
     (((assessment.environment.map Environment.summary).getD []).map fun (name, count) =>
       (name, .int count)))]

end Assessment

/-- The suppressions with the codes that a configuration silences everywhere. -/
def Config.extend (config : Config) (suppressions : Suppressions) : Suppressions :=
  (config.suppressedCodes.filterMap Text.LooseText.toString?).foldl Suppressions.addEverywhere
    suppressions

def assess (config : Config) (semantic : SemanticResult) (given : Suppressions) : Assessment :=
  let suppressions := config.extend given
  let dataFlow := dataFlowGraph semantic
  let disabled := config.disabledCheckers.filterMap Text.LooseText.toString?
  let run := (Registry.standard disabled).run
    ⟨semantic, dataFlow, config, suppressions⟩ none
  let kept := fun (issues : List Issue) =>
    issues.filter fun issue => !suppressions.isSuppressed issue.code issue.location
  let general := kept (generalIssues config semantic)
  let semanticIssues :=
    kept (functionIssues config semantic ++ UnusedCode.issues semantic.environment)
  { issues := general ++ semanticIssues ++ run.issues
    metrics := Metrics.ofContract semantic.contract
    semanticIssues := semanticIssues
    vulnerabilities := run.issues
    callGraph := callGraph semantic
    dataFlow := dataFlow
    environment := some semantic.environment
    checkerRun := run }

end ContractAudit
