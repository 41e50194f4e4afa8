import ContractAudit.Semantic.Expressions

/-!
# Analysis of contracts

A contract is analysed in four passes: its definitions are declared, the expressions in them are
visited, what is never used is reported, and what is known of each function is summed up.
-/

namespace ContractAudit

/-- What the analysis of a contract gives. -/
structure SemanticResult where
  contract : Contract
  environment : Environment
  facts : Facts
  errors : List Diagnostic
  warnings : List Diagnostic
  /-- The calls of functions that are neither builtin nor defined. -/
  unknownCalls : List (String × Location)

namespace SemanticResult

def success (result : SemanticResult) : Bool :=
  result.errors.isEmpty

def factsOf? (result : SemanticResult) (function : FunctionDef) : Option FunctionFacts :=
  result.facts.functions.get? function.info.id

end SemanticResult

namespace Analyzer

/-- The environment with the type of a constant, if the definition at a span is the declared one. -/
def setConstantType (name : String) (span : Span) (type : ValueType) (environment : Environment) :
    Environment :=
  { environment with
    constants := environment.constants.modify name fun entry =>
      if entry.span = span then { entry with type := type } else entry }

/-- The environment with the return type of a function, if the definition at a span is the declared
one. -/
def setReturnType (name : String) (span : Span) (type : ValueType) (environment : Environment) :
    Environment :=
  { environment with
    functions := environment.functions.modify name fun entry =>
      if entry.span = span then { entry with returnType := type } else entry }

def functionScope (function : FunctionDef) : Scope :=
  function.params.foldl (fun scope param => scope.define param.name param.type.toValueType)
    .empty

/-- Visits expressions of a definition, which stand in a scope of their own, and gives the type of
the last. -/
def visitOwn (owner : String) (scope : Scope) (body : List Expr) : Analyzer ValueType := do
  modify (Analysis.changeScope fun _ => scope)
  visitBody owner .uint body

def visitForm (form : Form) : Analyzer Unit :=
  match form with
  | .constant info name value => do
      let type ← visitOwn name .empty [value]
      modify (Analysis.changeEnvironment (setConstantType name info.span type))
  | .dataVar _ name _ initial => do
      let _ ← visitOwn name .empty [initial]
  | .fungible _ name (some supply) => do
      let _ ← visitOwn name .empty [supply]
  | .function f => do
      let type ← visitOwn f.name (functionScope f) f.body
      modify (Analysis.changeEnvironment (setReturnType f.name f.info.span type))
  | _ => pure ()

def visitForms : List Form → Analyzer Unit
  | [] => pure ()
  | form :: rest => do
      visitForm form
      visitForms rest

end Analyzer

namespace Usage

def unusedFunction (facts : Facts) (name : String) (entry : FunctionEntry) : Option Diagnostic :=
  if entry.visibility = .internal && (facts.referrers name).all (· = name) then
    some (.warning .semantic .unusedFunction s!"Private function '{name}' is never called"
      entry.span.start)
  else none

def unusedConstant (name : String) (entry : ConstantEntry) : Option Diagnostic :=
  if entry.used then none
  else some (.warning .semantic .unusedConstant s!"Constant '{name}' is never used"
    entry.span.start)

def unreadVariable (name : String) (entry : VariableEntry) : Option Diagnostic :=
  if entry.accessed then none
  else if entry.modified then
    some (.warning .semantic .writeOnlyVariable s!"Variable '{name}' is modified but never read"
      entry.span.start)
  else
    some (.warning .semantic .unusedVariable s!"Variable '{name}' is never accessed"
      entry.span.start)

def unreadMap (name : String) (entry : MapEntry) : Option Diagnostic :=
  if entry.accessed then none
  else if entry.modified then
    some (.warning .semantic .writeOnlyMap s!"Map '{name}' is modified but never read"
      entry.span.start)
  else
    some (.warning .semantic .unusedMap s!"Map '{name}' is never accessed" entry.span.start)

def warnings (environment : Environment) (facts : Facts) : List Diagnostic :=
  environment.functions.entries.filterMap (fun (name, entry) => unusedFunction facts name entry) ++
  environment.constants.entries.filterMap (fun (name, entry) => unusedConstant name entry) ++
  environment.dataVars.entries.filterMap (fun (name, entry) => unreadVariable name entry) ++
  environment.maps.entries.filterMap (fun (name, entry) => unreadMap name entry)

end Usage

/-- The return type of a function definition: the declared one, or that of its last expression if
another definition of the name was declared. -/
def returnTypeOf (environment : Environment) (facts : Facts) (function : FunctionDef) :
    ValueType :=
  let last :=
    ((function.body.getLast?.bind fun expr => facts.types.get? expr.info.id)).getD .uint
  match environment.functions.get? function.name with
  | some entry => if entry.span = function.info.span then entry.returnType else last
  | none => last

/-- What is known of a function, summed up over the calls in its body. -/
def functionFacts (environment : Environment) (facts : Facts) (function : FunctionDef) :
    FunctionFacts :=
  let calls := (facts.callsIn function.body).map Facts.CallSite.info
  { callsExternal := calls.any CallInfo.isExternal
    modifiesState := calls.any fun call => Builtin.stateWrites.contains call.name
    canFail := calls.any CallInfo.canFail
    returnType := returnTypeOf environment facts function
    callees := distinct ((calls.map CallInfo.name).filter environment.functions.contains) }

/-- The facts with what is known of each function of a contract. -/
def annotate (environment : Environment) (facts : Facts) (contract : Contract) : Facts :=
  { facts with
    functions := .ofList (contract.functions.map fun function =>
      (function.info.id, functionFacts environment facts function)) }

def analyzeContract (contract : Contract) : SemanticResult :=
  let (declared, duplicates) := Environment.empty.declareAll contract.body
  let analysis :=
    (Analyzer.visitForms contract.body ⟨declared, .empty, duplicates, [], [], .empty⟩).2
  { contract := contract
    environment := analysis.environment
    facts := annotate analysis.environment analysis.facts contract
    errors := analysis.errors
    warnings := analysis.warnings ++ Usage.warnings analysis.environment analysis.facts
    unknownCalls := analysis.unknownCalls }

end ContractAudit
