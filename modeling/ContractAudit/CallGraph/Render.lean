import ContractAudit.CallGraph.Components

/-!
# Call graphs as text

The figures of a call graph, its summary for readers, its drawing in the DOT language and its JSON
form.
-/

namespace ContractAudit

def CallNode.toJson (name : String) (node : CallNode) : Json :=
  .object [("function_name", .string name), ("calls", .array (node.calls.map .string)),
    ("called_by", .array (node.calledBy.map .string)), ("is_external", .bool node.isExternal),
    ("modifies_state", .bool node.modifiesState)]

namespace CallGraph

def toJson (graph : CallGraph) : Json :=
  .object (graph.entries.map fun (name, node) => (name, node.toJson name))

def statistics (graph : CallGraph) : List (String × Nat) :=
  [("functions", graph.size), ("edges", graph.edgeCount),
   ("external_callers", graph.values.countP CallNode.isExternal),
   ("state_modifiers", graph.values.countP CallNode.modifiesState),
   ("recursive_groups", graph.recursiveGroups.length),
   ("root_functions", graph.roots.length), ("leaf_functions", graph.leaves.length)]

def statisticLabels : List String :=
  ["Functions:            ", "Edges:                ", "External callers:     ",
   "State modifiers:      ", "Recursive groups:     ", "Root functions:       ",
   "Leaf functions:       "]

def summary (graph : CallGraph) : String :=
  let figures := (statisticLabels.zip graph.statistics).map fun (label, figure) =>
    s!"  {label}{figure.2}"
  let functions := graph.entries.map fun (name, node) =>
    let calls := ", ".intercalate node.calls
    let callers := ", ".intercalate node.calledBy
    s!"  {name}: calls [{calls}], called by [{callers}]"
  "\n".intercalate ("Call Graph Summary" :: figures ++ ["", "Functions:"] ++ functions)

def describe (graph : CallGraph) : String :=
  s!"CallGraph(nodes={graph.size}, edges={graph.edgeCount})"

/-- The fill colour of a function: functions that leave the contract first, then those that change
its state. -/
def fillColor (node : CallNode) : String :=
  if node.isExternal then "#fff3cd" else if node.modifiesState then "#ffcccc" else "#ddeeff"

def escapeQuotes (text : String) : String :=
  String.ofList (text.toList.flatMap fun c => if c = '"' then ['\\', '"'] else [c])

def dotNode (name : String) (node : CallNode) : String :=
  s!"  \"{escapeQuotes name}\" [style=filled, fillcolor=\"{fillColor node}\"];"

def dotEdges (name : String) (node : CallNode) : List String :=
  node.calls.map fun callee => s!"  \"{name}\" -> \"{callee}\";"

/-- The drawing of a graph in the DOT language, with a title unless it is empty. -/
def toDot (graph : CallGraph) (title : String) : String :=
  let label := if title.isEmpty then [] else [s!"  label=\"{title}\";"]
  let lines :=
    ["digraph CallGraph \x7b", "  rankdir=TB;"] ++ label ++
    ["  node [shape=box, fontname=\"Helvetica\", fontsize=10];"] ++
    graph.entries.map (fun (name, node) => dotNode name node) ++
    graph.entries.flatMap (fun (name, node) => dotEdges name node) ++ ["\x7d"]
  "\n".intercalate lines

end CallGraph

end ContractAudit
