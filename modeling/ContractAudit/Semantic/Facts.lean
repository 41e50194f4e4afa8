import ContractAudit.Semantic.Effect
import ContractAudit.Syntax.Node
import ContractAudit.Table

/-!
# Facts about a contract

What the analysis finds out, in tables beside the syntax tree: about calls, types and names under
the number of their node, and the references to functions under the name of the function.
-/

namespace ContractAudit

/-- What an identifier can refer to. -/
inductive Referent where
  | local
  | constant
  | variable
  | function
  | builtin
  | contract
  | map
  | token
  | contractFunction
  | tupleKey
  | blockProperty
deriving DecidableEq, Repr

def Referent.label : Referent → String
  | .local => "local"
  | .constant => "constant"
  | .variable => "variable"
  | .function => "function"
  | .builtin => "builtin"
  | .contract => "contract"
  | .map => "map"
  | .token => "token"
  | .contractFunction => "contract-function"
  | .tupleKey => "tuple-key"
  | .blockProperty => "block-property"

/-- What an identifier refers to. -/
structure Resolution where
  kind : Referent
  name : String
deriving DecidableEq, Repr

/-- What is known of a function. -/
structure FunctionFacts where
  callsExternal : Bool
  modifiesState : Bool
  canFail : Bool
  returnType : ValueType
  /-- The functions of the contract that it calls, in the order of the first call. -/
  callees : List String

/-- What the analysis finds out. -/
structure Facts where
  calls : Table Nat CallInfo
  types : Table Nat ValueType
  resolutions : Table Nat Resolution
  functions : Table Nat FunctionFacts
  /-- For each function, the definitions that refer to it. -/
  references : Table String (List String)

namespace Facts

def empty : Facts :=
  ⟨.empty, .empty, .empty, .empty, .empty⟩

def recordType (facts : Facts) (id : Nat) (type : ValueType) : Facts :=
  { facts with types := facts.types.insert id type }

def recordCall (facts : Facts) (id : Nat) (info : CallInfo) : Facts :=
  { facts with calls := facts.calls.insert id info }

def recordResolution (facts : Facts) (id : Nat) (kind : Referent) (name : String) : Facts :=
  { facts with resolutions := facts.resolutions.insert id ⟨kind, name⟩ }

def referrers (facts : Facts) (function : String) : List String :=
  (facts.references.get? function).getD []

def refer (facts : Facts) (function owner : String) : Facts :=
  { facts with
    references := facts.references.insert function (addNew (facts.referrers function) owner) }

/-- A call with what is known of it. -/
structure CallSite where
  node : NodeInfo
  args : List Expr
  info : CallInfo

def CallSite.location (site : CallSite) : Location :=
  site.node.span.start

/-- The calls in some expressions, in pre-order, with what is known of them. -/
def callsIn (facts : Facts) (body : List Expr) : List CallSite :=
  (walkBody body).filterMap fun node => do
    let (info, _, args) ← node.call?
    let known ← facts.calls.get? info.id
    pure ⟨info, args, known⟩

end Facts

end ContractAudit
