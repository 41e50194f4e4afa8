import ContractAudit.CallGraph.Basic

/-!
# Strongly connected components

The functions of a call graph fall into components of functions that can reach each other. One
depth-first search finds them: a function is numbered when it is first met and waits on a stack
until its component is complete. The component is complete when no function met from its first one
leads back to a function numbered earlier that still waits. Components come out callees first.
-/

namespace ContractAudit.CallGraph

/-- What the search keeps. -/
structure Search where
  numbers : Table String Nat
  /-- The functions that wait for their component, the latest first. -/
  waiting : List String
  components : List (List String)

namespace Search

def start : Search :=
  ⟨.empty, [], []⟩

def enter (search : Search) (name : String) : Search :=
  { search with
    numbers := search.numbers.insertNew name search.numbers.size
    waiting := name :: search.waiting }

/-- The search after the component of a function is complete: the functions that wait since the
function was met form it. -/
def complete (search : Search) (name : String) : Search :=
  let later := search.waiting.takeWhile (· ≠ name)
  { search with
    waiting := (search.waiting.dropWhile (· ≠ name)).drop 1
    components := search.components ++ [later ++ [name]] }

end Search

/-- Follows calls in order, with a visit for functions not met before. Gives the least of a number
and the numbers of waiting functions that the calls lead to. -/
def follow (graph : CallGraph) (visit : String → Search → Nat × Search) (least : Nat) :
    List String → Search → Nat × Search
  | [], search => (least, search)
  | callee :: rest, search =>
      if !graph.contains callee then follow graph visit least rest search
      else match search.numbers.get? callee with
        | none =>
            let (reached, next) := visit callee search
            follow graph visit (min least reached) rest next
        | some number =>
            if search.waiting.contains callee then
              follow graph visit (min least number) rest search
            else follow graph visit least rest search

/-- Visits a function not met before, through at most `depth` nested visits. Gives the least number
of a waiting function that it leads to. -/
def visitFrom (graph : CallGraph) : Nat → String → Search → Nat × Search
  | 0, _, search => (search.numbers.size, search)
  | depth + 1, name, search =>
      let number := search.numbers.size
      let (least, next) :=
        follow graph (visitFrom graph depth) number (graph.callsOf name) (search.enter name)
      if least = number then (least, next.complete name) else (least, next)

/-- The search after a function of the graph, which is visited unless it has been met. A nested
visit meets a new function, so visits nest at most as deep as the graph is large. -/
def visitNew (graph : CallGraph) (search : Search) (name : String) : Search :=
  if search.numbers.contains name then search else (visitFrom graph graph.size name search).2

def components (graph : CallGraph) : List (List String) :=
  (graph.keys.foldl (visitNew graph) Search.start).components

def recursiveGroups (graph : CallGraph) : List (List String) :=
  graph.components.filter fun component =>
    match component with
    | [name] => graph.isSelfRecursive name
    | _ => true

end ContractAudit.CallGraph
