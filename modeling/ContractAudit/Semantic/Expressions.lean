import ContractAudit.Semantic.Environment
import ContractAudit.Semantic.Facts

/-!
# Analysis of expressions

Expressions are visited in source order. Every identifier is resolved, first in the lexical scope
and then among the names of the contract and the builtin ones; every node gets an approximate type;
every call is classified; and every use of storage marks its entry in the environment. The scope is
part of what the analysis works on: a `let` and the arms of a match change it and put it back.
-/

namespace ContractAudit

/-- What the analysis works on. -/
structure Analysis where
  environment : Environment
  facts : Facts
  errors : List Diagnostic
  warnings : List Diagnostic
  unknownCalls : List (String × Location)
  scope : Scope

namespace Analysis

def changeFacts (change : Facts → Facts) (analysis : Analysis) : Analysis :=
  { analysis with facts := change analysis.facts }

def changeEnvironment (change : Environment → Environment) (analysis : Analysis) : Analysis :=
  { analysis with environment := change analysis.environment }

def changeScope (change : Scope → Scope) (analysis : Analysis) : Analysis :=
  { analysis with scope := change analysis.scope }

def reportError (code : Code) (message : String) (location : Location) (analysis : Analysis) :
    Analysis :=
  { analysis with errors := analysis.errors ++ [.error .semantic code message location] }

def reportWarning (code : Code) (message : String) (location : Location) (analysis : Analysis) :
    Analysis :=
  { analysis with warnings := analysis.warnings ++ [.warning .semantic code message location] }

def useConstant (name : String) : Analysis → Analysis :=
  changeEnvironment fun environment =>
    { environment with
      constants := environment.constants.modify name fun entry => { entry with used := true } }

def useVariable (name : String) (access : Access) : Analysis → Analysis :=
  changeEnvironment fun environment =>
    { environment with
      dataVars := environment.dataVars.modify name fun entry =>
        match access with
        | .read => { entry with accessed := true }
        | .write => { entry with modified := true } }

def useMap (name : String) (access : Access) : Analysis → Analysis :=
  changeEnvironment fun environment =>
    { environment with
      maps := environment.maps.modify name fun entry =>
        match access with
        | .read => { entry with accessed := true }
        | .write => { entry with modified := true } }

def useToken (name : String) : Analysis → Analysis :=
  changeEnvironment fun environment =>
    { environment with
      tokens := environment.tokens.modify name fun entry => { entry with accessed := true } }

end Analysis

abbrev Analyzer := StateM Analysis

namespace Analyzer

/-- Runs a step in a scope made from the one at hand, which is put back afterwards. -/
def inScope {α : Type} (inner : Scope → Scope) (step : Analyzer α) : Analyzer α := do
  let outer := (← get).scope
  modify (Analysis.changeScope inner)
  let value ← step
  modify (Analysis.changeScope fun _ => outer)
  pure value

def record (id : Nat) (type : ValueType) : Analyzer ValueType := do
  modify (Analysis.changeFacts (·.recordType id type))
  pure type

def resolved (id : Nat) (kind : Referent) (name : String) : Analyzer Unit :=
  modify (Analysis.changeFacts (·.recordResolution id kind name))

def refer (function owner : String) : Analyzer Unit :=
  modify (Analysis.changeFacts (·.refer function owner))

/-- Reports an identifier that refers to nothing, which counts as an unsigned number. -/
def undefined (info : NodeInfo) (name : String) : Analyzer ValueType := do
  modify (Analysis.reportError .undefinedIdentifier s!"Undefined identifier: {name}"
    info.span.start)
  pure .uint

def contractOf (name : String) : String :=
  String.ofList (name.toList.takeWhile (· ≠ '.'))

def resolveGlobal (owner : String) (info : NodeInfo) (name : String) : Analyzer ValueType := do
  let environment := (← get).environment
  if let some constant := environment.constants.get? name then
    modify (Analysis.useConstant name)
    resolved info.id .constant name
    pure constant.type
  else if let some entry := environment.dataVars.get? name then
    modify (Analysis.useVariable name .read)
    resolved info.id .variable name
    pure entry.type
  else if let some function := environment.functions.get? name then
    refer name owner
    resolved info.id .function name
    pure function.returnType
  else if Builtin.isGlobal name || Builtin.isFunction name then
    resolved info.id .builtin name
    pure (Builtin.typeOf name)
  else if isDotted name then
    resolved info.id .contract (contractOf name)
    pure .principal
  else
    undefined info name

/-- Resolves an identifier. A placeholder refers to nothing and is not reported again. -/
def resolve (owner : String) (info : NodeInfo) (name : String) : Analyzer ValueType := do
  if name = Parse.placeholder then
    pure .uint
  else if let some type := (← get).scope.lookup? name then
    resolved info.id .local name
    pure type
  else
    resolveGlobal owner info name

def mapTarget (info : NodeInfo) (name : String) (access : Access) : Analyzer ValueType := do
  if name = Parse.placeholder then
    pure .uint
  else if (← get).environment.maps.contains name then
    modify (Analysis.useMap name access)
    resolved info.id .map name
    record info.id .uint
  else
    undefined info name

def variableTarget (info : NodeInfo) (name : String) (access : Access) : Analyzer ValueType := do
  if name = Parse.placeholder then
    pure .uint
  else if let some entry := (← get).environment.dataVars.get? name then
    modify (Analysis.useVariable name access)
    resolved info.id .variable name
    record info.id entry.type
  else
    undefined info name

def tokenTarget (info : NodeInfo) (name : String) : Analyzer ValueType := do
  if name = Parse.placeholder then
    pure .uint
  else if (← get).environment.tokens.contains name then
    modify (Analysis.useToken name)
    resolved info.id .token name
    record info.id .uint
  else
    undefined info name

def wordArgument (info : NodeInfo) (kind : Referent) (name : String) : Analyzer ValueType := do
  resolved info.id kind name
  record info.id .uint

/-- Handles the argument of a call that names storage, a tuple field, a property of a block or a
function of another contract. Gives the position and the type of that argument, which is not
resolved as an expression. -/
def specialArgument (callee : String) (args : List Expr) :
    Analyzer (Option (Nat × ValueType)) := do
  match args with
  | .identifier info name :: _ =>
      if Builtin.mapOperations.contains callee then
        let access := if callee = "map-get?" then Access.read else .write
        pure (some (0, ← mapTarget info name access))
      else if Builtin.variableOperations.contains callee then
        let access := if callee = "var-set" then Access.write else .read
        pure (some (0, ← variableTarget info name access))
      else if Builtin.tokenOperations.contains callee then
        pure (some (0, ← tokenTarget info name))
      else if callee = "get" then
        pure (some (0, ← wordArgument info .tupleKey name))
      else if Builtin.blockInfo.contains callee then
        pure (some (0, ← wordArgument info .blockProperty name))
      else
        remoteFunction callee args
  | _ => remoteFunction callee args
where
  /-- The second argument of a call of another contract names the function. -/
  remoteFunction (callee : String) (args : List Expr) : Analyzer (Option (Nat × ValueType)) :=
    match callee, args with
    | "contract-call?", _ :: .identifier info name :: _ => do
        pure (some (1, ← wordArgument info .contractFunction name))
    | _, _ => pure none

def component? (index : Nat) (type : ValueType) : Option ValueType :=
  (type.component index).toOption.join

/-- The type that a call has by its callee and the types of its arguments. -/
def callType (environment : Environment) (callee : String) (args : List Expr)
    (types : List ValueType) : ValueType :=
  let first := types.headD .uint
  let declared := ((environment.functions.get? callee).map FunctionEntry.returnType).getD .uint
  let target := CallInfo.storageName? args
  if Builtin.arithmetic.contains callee then first
  else if Builtin.comparisons.contains callee then .bool
  else if callee = "ok" then .response first .uint
  else if callee = "err" then .response .uint first
  else if callee = "some" then .optional first
  else if callee = "var-get" && target.isSome then
    ((target.bind environment.dataVars.get?).map VariableEntry.type).getD .uint
  else if callee = "map-get?" && target.isSome then
    .optional (((target.bind environment.maps.get?).map MapEntry.valueType).getD .uint)
  else if ["unwrap!", "unwrap-panic", "try!"].contains callee then
    ((component? 0 first).or first.element?).getD .uint
  else if ["unwrap-err!", "unwrap-err-panic"].contains callee then
    (component? 1 first).getD .uint
  else if callee = "default-to" && 1 < types.length then first
  else if callee = "to-int" then .int
  else if ["append", "concat"].contains callee then first
  else if callee = "filter" && 1 < types.length then types[1]?.getD .uint
  else if callee = "as-contract" && !types.isEmpty then types.getLastD .uint
  else declared

/-- The type of the name that a pattern binds, by the type of the matched value and the position of
the arm. -/
def boundType (subject : ValueType) (pattern : Pattern) (index : Nat) : ValueType :=
  match pattern with
  | .wrapper _ .ok _ => (component? 0 subject).getD .uint
  | .wrapper _ .err _ => (component? 1 subject).getD .uint
  | .wrapper _ .some _ => subject.element?.getD .uint
  | _ =>
      match subject.kind with
      | .response => (component? (if index = 0 then 0 else 1) subject).getD .uint
      | .optional => subject.element?.getD .uint
      | _ => subject

/-- The scope of a match arm: a pattern that binds a name opens a frame. -/
def armScope (subject : ValueType) (pattern : Pattern) (index : Nat) (scope : Scope) : Scope :=
  match pattern.boundNames with
  | [] => scope
  | names =>
      names.foldl (fun inner name => inner.define name (boundType subject pattern index))
        scope.child

def mismatch (message : String) (location : Location) : Analyzer Unit :=
  modify (Analysis.reportWarning .typeMismatch message location)

/-- Records a call after its arguments have been visited, and gives its type. -/
def recordCall (owner : String) (info : NodeInfo) (callee : String) (args : List Expr)
    (types : List ValueType) : Analyzer ValueType := do
  let environment := (← get).environment
  if environment.functions.contains callee then
    refer callee owner
  else if !Builtin.isFunction callee && !isDotted callee && callee ≠ Parse.placeholder then
    modify fun analysis =>
      { analysis with unknownCalls := analysis.unknownCalls ++ [(callee, info.span.start)] }
  modify (Analysis.changeFacts (·.recordCall info.id (.ofCall callee args)))
  record info.id (callType environment callee args types)

mutual

def visit (owner : String) : Expr → Analyzer ValueType
  | .literal info value => record info.id (Environment.literalType value)
  | .identifier info name => do
      let type ← resolve owner info name
      record info.id type
  | .call info callee args => do
      let special ← specialArgument callee args
      let types ← visitArgs owner special 0 args
      recordCall owner info callee args types
  | .letIn info bindings body => do
      let type ← inScope Scope.child do
        visitBindings owner bindings
        visitBody owner .uint body
      record info.id type
  | .block info body => do
      let type ← visitBody owner .uint body
      record info.id type
  | .conditional info condition yes no => do
      let conditionType ← visit owner condition
      if conditionType.kind ≠ .bool then
        mismatch "If condition should be boolean" condition.location
      let yesType ← visit owner yes
      match no with
      | none => pure ()
      | some no => do
          let noType ← visit owner no
          if !yesType.compatible noType then
            mismatch "If branches have incompatible types" info.span.start
      record info.id yesType
  | .matchOn info subject arms => do
      let subjectType ← visit owner subject
      let type ← visitArms owner subjectType 0 arms
      record info.id (type.getD .uint)
  | .list info elements => do
      let type ← visitElements owner none elements
      record info.id (.listOf (type.getD .uint) (some elements.length))
  | .tuple info fields => do
      let types ← visitFields owner fields
      record info.id (.tupleOf types)

/-- Visits the arguments of a call, from a position on, but for the special one. -/
def visitArgs (owner : String) (special : Option (Nat × ValueType)) (index : Nat) :
    List Expr → Analyzer (List ValueType)
  | [] => pure []
  | arg :: rest => do
      let type ←
        match special with
        | some (position, type) => if position = index then pure type else visit owner arg
        | none => visit owner arg
      let others ← visitArgs owner special (index + 1) rest
      pure (type :: others)

/-- Visits the bindings of a `let`, each in the scope of those before it, and leaves the scope of
them all. -/
def visitBindings (owner : String) : List (Named Expr) → Analyzer Unit
  | [] => pure ()
  | ⟨info, name, value⟩ :: rest => do
      let type ← visit owner value
      let _ ← record info.id type
      modify (Analysis.changeScope (·.define name type))
      visitBindings owner rest

/-- Visits expressions in order and gives the type of the last, or the given one if there is none.
-/
def visitBody (owner : String) (type : ValueType) : List Expr → Analyzer ValueType
  | [] => pure type
  | expr :: rest => do
      let type ← visit owner expr
      visitBody owner type rest

/-- Visits the arms of a match, from a position on, and gives the type of the first body. -/
def visitArms (owner : String) (subject : ValueType) (index : Nat) :
    List (Arm Expr) → Analyzer (Option ValueType)
  | [] => pure none
  | ⟨_, pattern, body⟩ :: rest => do
      let type ← inScope (armScope subject pattern index) (visitBody owner .uint body)
      let later ← visitArms owner subject (index + 1) rest
      pure (if body.isEmpty then later else some type)

/-- Visits the elements of a list, which should fit the first one, and gives the type of that. -/
def visitElements (owner : String) (first : Option ValueType) :
    List Expr → Analyzer (Option ValueType)
  | [] => pure first
  | expr :: rest => do
      let type ← visit owner expr
      match first with
      | none => visitElements owner (some type) rest
      | some element => do
          if !element.compatible type then
            mismatch "List elements have incompatible types" expr.location
          visitElements owner (some element) rest

def visitFields (owner : String) : List (Named Expr) → Analyzer (List (String × ValueType))
  | [] => pure []
  | ⟨info, name, value⟩ :: rest => do
      let type ← visit owner value
      let _ ← record info.id type
      let others ← visitFields owner rest
      pure ((name, type) :: others)

end

end Analyzer

end ContractAudit
