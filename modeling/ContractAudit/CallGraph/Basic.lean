import ContractAudit.Semantic.Contracts

/-!
# Call graphs

The functions of a contract with the functions that each of them calls and is called by, and what is
reachable along those calls. A graph may also be given by hand, and then the calls of a node may
repeat and may name functions that are not in the graph.
-/

namespace ContractAudit

/-- A function of a call graph. -/
structure CallNode where
  calls : List String
  calledBy : List String
  isExternal : Bool
  modifiesState : Bool
  visibility : Option Visibility

/-- A call graph: functions by name, in order. -/
abbrev CallGraph := Table String CallNode

namespace CallGraph

def callsOf (graph : CallGraph) (name : String) : List String :=
  ((graph.get? name).map CallNode.calls).getD []

def callersOf (graph : CallGraph) (name : String) : List String :=
  ((graph.get? name).map CallNode.calledBy).getD []

def edgeCount (graph : CallGraph) : Nat :=
  graph.values.foldr (fun node count => node.calls.length + count) 0

def roots (graph : CallGraph) : List String :=
  (graph.entries.filter fun entry => entry.2.calledBy.isEmpty).map Prod.fst

def leaves (graph : CallGraph) : List String :=
  (graph.entries.filter fun entry => entry.2.calls.isEmpty).map Prod.fst

def isSelfRecursive (graph : CallGraph) (name : String) : Bool :=
  (graph.callsOf name).contains name

/-- The functions of a graph that are met from a worklist, added to those visited before. Each step
takes one name off the worklist; a name that is new brings its successors. -/
def closure (graph : CallGraph) (successors : String → List String) :
    Nat → List String → List String → List String
  | 0, _, visited => visited
  | _ + 1, [], visited => visited
  | steps + 1, name :: worklist, visited =>
      if visited.contains name || !graph.contains name then
        closure graph successors steps worklist visited
      else
        closure graph successors steps (worklist ++ successors name) (visited ++ [name])

/-- The functions reached from a function by one or more steps. Every name on the worklist comes
from the function itself or, once, from a function visited, so the steps suffice. -/
def reachable (graph : CallGraph) (successors : String → List String) (name : String) :
    List String :=
  let steps := graph.keys.foldr (fun key count => (successors key).length + count)
    (successors name).length
  closure graph successors steps (successors name) []

def transitiveCallees (graph : CallGraph) (name : String) : List String :=
  graph.reachable graph.callsOf name

def transitiveCallers (graph : CallGraph) (name : String) : List String :=
  graph.reachable graph.callersOf name

def isRecursive (graph : CallGraph) (name : String) : Bool :=
  (graph.transitiveCallees name).contains name

end CallGraph

/-- The call graph of a contract without the callers: the first definition of each function, with
what is known of it. -/
def calleesGraph (semantic : SemanticResult) : CallGraph :=
  semantic.contract.functions.foldl (fun graph function =>
    let known := semantic.factsOf? function
    graph.insertNew function.name
      { calls := (known.map FunctionFacts.callees).getD []
        calledBy := []
        isExternal := (known.map FunctionFacts.callsExternal).getD false
        modifiesState := (known.map FunctionFacts.modifiesState).getD false
        visibility := some function.visibility }) .empty

/-- The graph with a function among the callers of another, if that is in the graph. -/
def addCaller (caller : String) (graph : CallGraph) (callee : String) : CallGraph :=
  graph.modify callee fun node => { node with calledBy := addNew node.calledBy caller }

/-- The call graph with every function among the callers of those that it calls. -/
def withCallers (graph : CallGraph) : CallGraph :=
  graph.entries.foldl (fun result entry => entry.2.calls.foldl (addCaller entry.1) result) graph

def callGraph (semantic : SemanticResult) : CallGraph :=
  withCallers (calleesGraph semantic)

end ContractAudit
