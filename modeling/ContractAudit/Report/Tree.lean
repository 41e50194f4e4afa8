import ContractAudit.Json.Write
import ContractAudit.Report.Paint
import ContractAudit.Syntax.Node

/-!
# Drawings of syntax trees

A contract drawn as a tree of lines, one for each node, with the branches in front of it. The
parameters of a function have a line of their own before its body.
-/

namespace ContractAudit

/-- The words for a node in a drawing: what it is, and more about it. -/
structure NodeLabel where
  kind : String
  detail : Option String := none

namespace NodeLabel

def ofLiteral : Literal → NodeLabel
  | .uint value => ⟨"uint", some s!"u{value}"⟩
  | .int value => ⟨"int", some (toString value)⟩
  | .bool value => ⟨"bool", some (toString value)⟩
  | .string value encoding => ⟨s!"string-{encoding.label}", some (Json.writeText value)⟩
  | .buffer digits => ⟨"buffer", some ("0x" ++ digits)⟩
  | .principal address contract => ⟨"principal", some (Literal.principalText address contract)⟩

def ofExpr : Expr → NodeLabel
  | .literal _ value => ofLiteral value
  | .identifier _ name => ⟨"identifier", some name⟩
  | .call _ callee _ => ⟨"function-call", some callee⟩
  | .letIn _ _ _ => { kind := "let" }
  | .block _ _ => { kind := "begin" }
  | .conditional _ _ _ _ => { kind := "if" }
  | .matchOn _ _ _ => { kind := "match" }
  | .list _ elements => { kind := s!"list ({elements.length})" }
  | .tuple _ _ => { kind := "tuple" }

def ofForm : Form → NodeLabel
  | .function f => ⟨"function-definition", some s!"{f.name} ({f.visibility.label})"⟩
  | .constant _ name _ => ⟨"constant-definition", some name⟩
  | .map _ name key value => ⟨"map-definition", some s!"{name} {key.pretty} -> {value.pretty}"⟩
  | .dataVar _ name type _ => ⟨"data-var-definition", some s!"{name} {type.pretty}"⟩
  | .nonFungible _ name type => ⟨"non-fungible-token", some s!"{name} {type.pretty}"⟩
  | .fungible _ name _ => ⟨"fungible-token", some name⟩
  | .trait _ name functions =>
      let names := ", ".intercalate (functions.map TraitFunction.name)
      ⟨"trait-definition", some s!"{name} [{names}]"⟩
  | .useTrait _ name _ => ⟨"use-trait", some name⟩
  | .implTrait _ _ => { kind := "impl-trait" }

def ofPattern : Pattern → NodeLabel
  | .wrapper _ kind _ => ⟨"pattern", some kind.label⟩
  | .none _ => ⟨"pattern", some "none"⟩
  | .identifier _ name => ⟨"pattern", some name⟩
  | .literal _ _ _ => ⟨"pattern", some "literal"⟩

def ofNode : Node → NodeLabel
  | .contract _ => { kind := "Program" }
  | .form form => ofForm form
  | .expr expr => ofExpr expr
  | .binding binding => ⟨"binding", some binding.name⟩
  | .arm _ => { kind := "arm" }
  | .pattern pattern => ofPattern pattern
  | .field field => ⟨"field", some field.name⟩

def render (label : NodeLabel) (painter : Painter) : String :=
  let kind := Report.paint painter .green label.kind
  match label.detail with
  | none => kind
  | some detail => kind ++ ": " ++ Report.paint painter .yellow detail

end NodeLabel

namespace Report

/-- A node to be drawn: what stands in front of its branch, and whether it is the last child. -/
structure Branch where
  indent : String
  isLast : Bool
  node : Node

namespace Branch

/-- What stands in front of everything below a branch. -/
def inner (branch : Branch) : String :=
  branch.indent ++ if branch.isLast then "   " else "│  "

def mark (isLast : Bool) : String :=
  if isLast then "└─ " else "├─ "

/-- The line about the parameters of a function, if it has any. It is the last line below the
function if the body is empty. -/
def parameterLines (branch : Branch) : List String :=
  match branch.node with
  | .form (.function f) =>
      if f.params.isEmpty then []
      else
        let shown := ", ".intercalate (f.params.map fun p => s!"{p.name}: {p.type.pretty}")
        [s!"{branch.inner}{mark f.body.isEmpty}params: {shown}"]
  | _ => []

def lines (branch : Branch) (painter : Painter) : List String :=
  (branch.indent ++ mark branch.isLast ++ (NodeLabel.ofNode branch.node).render painter) ::
    branch.parameterLines

end Branch

def branches (indent : String) : List Node → List Branch
  | [] => []
  | node :: rest => ⟨indent, rest.isEmpty, node⟩ :: branches indent rest

/-- The lines about the branches of a stack and all below them, for a number of nodes. -/
def drawBranches (painter : Painter) : Nat → List Branch → List String
  | 0, _ => []
  | _ + 1, [] => []
  | steps + 1, branch :: rest =>
      branch.lines painter ++
        drawBranches painter steps (branches branch.inner branch.node.children ++ rest)

def tree (painter : Painter) (contract : Contract) : String :=
  let root := Node.contract contract
  "\n".intercalate
    (paint painter .blue "Program" ::
      drawBranches painter root.nodeCount (branches "" root.children))

end Report

end ContractAudit
