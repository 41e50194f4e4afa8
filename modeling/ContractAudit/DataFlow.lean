import ContractAudit.Semantic.Contracts

/-!
# Data-flow graphs

The storage of a contract, that is its data variables, maps and constants, with the functions that
read and write each, and the other storage that its writers read. Storage is told apart by name, and
of equal names the first in the order variables, maps, constants counts.
-/

namespace ContractAudit

/-- The kinds of storage. -/
inductive StorageKind where
  | variable
  | map
  | constant
deriving DecidableEq, Repr

def StorageKind.label : StorageKind → String
  | .variable => "variable"
  | .map => "map"
  | .constant => "constant"

/-- A storage entity with its uses. -/
structure DataNode where
  kind : StorageKind
  readers : List String
  writers : List String
  dependencies : List String

namespace DataNode

def toJson (name : String) (node : DataNode) : Json :=
  .object [("name", .string name), ("kind", .string node.kind.label),
    ("readers", .array (node.readers.map .string)), ("writers", .array (node.writers.map .string)),
    ("dependencies", .array (node.dependencies.map .string))]

/-- The node with a function among those that read it or write it. -/
def addUser (function : String) (access : Access) (node : DataNode) : DataNode :=
  match access with
  | .read => { node with readers := addNew node.readers function }
  | .write => { node with writers := addNew node.writers function }

/-- The node with the other storage that its writers read, where a table says what functions
read. -/
def addDependencies (reads : Table String (List String)) (name : String) (node : DataNode) :
    DataNode :=
  let add := fun dependencies other =>
    if other = name then dependencies else addNew dependencies other
  { node with
    dependencies := node.writers.foldl (fun dependencies writer =>
      ((reads.get? writer).getD []).foldl add dependencies) node.dependencies }

end DataNode

/-- A data-flow graph: storage by name, in order. -/
abbrev DataFlowGraph := Table String DataNode

namespace DataFlowGraph

def ofKind (graph : DataFlowGraph) (kind : StorageKind) : List String :=
  (graph.entries.filter fun entry => entry.2.kind = kind).map Prod.fst

def toJson (graph : DataFlowGraph) : Json :=
  .object (graph.entries.map fun (name, node) => (name, node.toJson name))

end DataFlowGraph

namespace DataFlow

def storage (environment : Environment) : Table String StorageKind :=
  let add := fun kind (table : Table String StorageKind) name => table.insertNew name kind
  let dataVars := environment.dataVars.keys.foldl (add .variable) .empty
  let maps := environment.maps.keys.foldl (add .map) dataVars
  environment.constants.keys.foldl (add .constant) maps

def storageEffects (call : CallInfo) : List SideEffect :=
  call.effects.filter fun effect =>
    effect.kind = .mapAccess || effect.kind = .variableAccess

def callAccesses (facts : Facts) (function : FunctionDef) : List (String × Access) :=
  (facts.callsIn function.body).flatMap fun site =>
    (storageEffects site.info).filterMap fun effect =>
      effect.target.map fun target => (target, effect.access)

def targetIds (facts : Facts) (function : FunctionDef) : List Nat :=
  (facts.callsIn function.body).flatMap fun site =>
    if (storageEffects site.info).isEmpty then []
    else (site.args.head?.map fun arg => arg.info.id).toList

/-- The name that an identifier node refers to as a constant or a data variable. -/
def plainRead? (facts : Facts) (targets : List Nat) : Node → Option String
  | .expr (.identifier info _) =>
      if targets.contains info.id then none
      else match facts.resolutions.get? info.id with
        | some ⟨.constant, name⟩ => some name
        | some ⟨.variable, name⟩ => some name
        | _ => none
  | _ => none

/-- The storage that identifiers in a function read, in order; the names of storage in calls are not
among them. -/
def identifierReads (facts : Facts) (function : FunctionDef) : List String :=
  let targets := targetIds facts function
  (walkBody function.body).filterMap (plainRead? facts targets)

/-- The storage that a function reads or writes: by calls first, then by identifiers. -/
def accesses (facts : Facts) (function : FunctionDef) : List (String × Access) :=
  callAccesses facts function ++
    (identifierReads facts function).map fun name => (name, .read)

/-- A graph under construction, with the storage that each function reads. -/
structure Draft where
  graph : DataFlowGraph
  reads : Table String (List String)

namespace Draft

/-- The draft with an access of a function. A name that is not in the graph is passed over. -/
def use (function : String) (draft : Draft) (access : String × Access) : Draft :=
  if draft.graph.contains access.1 then
    { graph := draft.graph.modify access.1 (·.addUser function access.2)
      reads :=
        match access.2 with
        | .read => draft.reads.modify function (addNew · access.1)
        | .write => draft.reads }
  else draft

def visit (facts : Facts) (draft : Draft) (function : FunctionDef) : Draft :=
  (accesses facts function).foldl (use function.name)
    { draft with reads := draft.reads.insertNew function.name [] }

end Draft

end DataFlow

def dataFlowGraph (semantic : SemanticResult) : DataFlowGraph :=
  let storage := DataFlow.storage semantic.environment
  let unused : DataFlowGraph := storage.mapValues fun _ kind => ⟨kind, [], [], []⟩
  let draft := semantic.contract.functions.foldl (DataFlow.Draft.visit semantic.facts)
    ⟨unused, .empty⟩
  draft.graph.mapValues (DataNode.addDependencies draft.reads)

end ContractAudit
