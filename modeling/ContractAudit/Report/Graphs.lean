import ContractAudit.Assessment
import ContractAudit.Report.Paint

/-!
# Reports on graphs

The call graph and the data flow of a contract as shown to readers.
-/

namespace ContractAudit.Report

def bracketed (names : List String) : String :=
  let joined := ", ".intercalate names
  if joined.isEmpty then "[none]" else s!"[{joined}]"

def callNodeLines (painter : Painter) (name : String) (node : CallNode) : List String :=
  [s!"   {paint painter .yellow name}:",
   s!"     Calls: {bracketed node.calls}",
   s!"     Called by: {bracketed node.calledBy}",
   s!"     External: {node.isExternal}, State-modifying: {node.modifiesState}"]

def callGraph (painter : Painter) (graph : CallGraph) : String :=
  "\n".intercalate
    (paintBold painter .green "Call Graph:" ::
      graph.entries.flatMap fun (name, node) => callNodeLines painter name node)

def dataNodeLines (painter : Painter) (name : String) (node : DataNode) : List String :=
  [s!"   {paint painter .yellow name} ({node.kind.label}):",
   s!"     Readers: {bracketed node.readers}",
   s!"     Writers: {bracketed node.writers}"]

/-- The first elements of a list up to a limit; a negative limit counts from the end. -/
def upTo {α : Type} (limit : Int) (items : List α) : List α :=
  items.take (if limit < 0 then items.length + limit else limit).toNat

/-- The data flow of a contract, up to a limit on the storage shown. -/
def dataFlow (painter : Painter) (limit : Int) (graph : DataFlowGraph) : String :=
  let shown := (upTo limit graph.entries).flatMap fun (name, node) =>
    dataNodeLines painter name node
  let more := if limit < graph.size then [s!"   ... and {(graph.size : Int) - limit} more"] else []
  "\n".intercalate (paintBold painter .green "Data Flow:" :: shown ++ more)

end ContractAudit.Report
