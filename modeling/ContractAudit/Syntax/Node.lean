import ContractAudit.Syntax.Contract

/-!
# Syntax nodes

A uniform view of the syntax tree: every part of a contract that has a place and a number is a node,
with its children in source order. The reference of a trait declaration is not among the children.
`walk` lists a subtree in pre-order.
-/

namespace ContractAudit

/-- The kinds of syntax node. -/
inductive NodeKind where
  | program
  | functionDef
  | constantDef
  | mapDef
  | dataVarDef
  | nonFungibleDef
  | fungibleDef
  | traitDef
  | useTrait
  | implTrait
  | functionCall
  | letExpr
  | letBinding
  | beginExpr
  | ifExpr
  | matchExpr
  | matchArm
  | wrapperPattern
  | nonePattern
  | identifierPattern
  | literalPattern
  | listLiteral
  | tupleLiteral
  | tupleField
  | identifier
  | uintLiteral
  | intLiteral
  | boolLiteral
  | stringLiteral
  | bufferLiteral
  | principalLiteral
deriving DecidableEq, Repr

def NodeKind.label : NodeKind → String
  | .program => "program"
  | .functionDef => "function_def"
  | .constantDef => "constant_def"
  | .mapDef => "map_def"
  | .dataVarDef => "data_var_def"
  | .nonFungibleDef => "nft_def"
  | .fungibleDef => "ft_def"
  | .traitDef => "trait_def"
  | .useTrait => "use_trait"
  | .implTrait => "impl_trait"
  | .functionCall => "function_call"
  | .letExpr => "let_expr"
  | .letBinding => "let_binding"
  | .beginExpr => "begin_expr"
  | .ifExpr => "if_expr"
  | .matchExpr => "match_expr"
  | .matchArm => "match_arm"
  | .wrapperPattern => "wrapper_pattern"
  | .nonePattern => "none_pattern"
  | .identifierPattern => "identifier_pattern"
  | .literalPattern => "literal_pattern"
  | .listLiteral => "list_literal"
  | .tupleLiteral => "tuple_literal"
  | .tupleField => "tuple_field"
  | .identifier => "identifier"
  | .uintLiteral => "uint_literal"
  | .intLiteral => "int_literal"
  | .boolLiteral => "bool_literal"
  | .stringLiteral => "string_literal"
  | .bufferLiteral => "buffer_literal"
  | .principalLiteral => "principal_literal"

def Literal.kind : Literal → NodeKind
  | .uint _ => .uintLiteral
  | .int _ => .intLiteral
  | .bool _ => .boolLiteral
  | .string _ _ => .stringLiteral
  | .buffer _ => .bufferLiteral
  | .principal _ _ => .principalLiteral

def Pattern.kind : Pattern → NodeKind
  | .wrapper _ _ _ => .wrapperPattern
  | .none _ => .nonePattern
  | .identifier _ _ => .identifierPattern
  | .literal _ _ _ => .literalPattern

def Expr.kind : Expr → NodeKind
  | .literal _ value => value.kind
  | .identifier _ _ => .identifier
  | .call _ _ _ => .functionCall
  | .letIn _ _ _ => .letExpr
  | .block _ _ => .beginExpr
  | .conditional _ _ _ _ => .ifExpr
  | .matchOn _ _ _ => .matchExpr
  | .list _ _ => .listLiteral
  | .tuple _ _ => .tupleLiteral

def Form.kind : Form → NodeKind
  | .function _ => .functionDef
  | .constant _ _ _ => .constantDef
  | .map _ _ _ _ => .mapDef
  | .dataVar _ _ _ _ => .dataVarDef
  | .nonFungible _ _ _ => .nonFungibleDef
  | .fungible _ _ _ => .fungibleDef
  | .trait _ _ _ => .traitDef
  | .useTrait _ _ _ => .useTrait
  | .implTrait _ _ => .implTrait

/-- The first form of one of some kinds that defines a name. -/
def Contract.find? (contract : Contract) (isWanted : NodeKind → Bool) (name : String) :
    Option Form :=
  contract.body.find? fun form => isWanted form.kind && form.name? = some name

/-- A node of the syntax tree. -/
inductive Node where
  | contract (contract : Contract)
  | form (form : Form)
  | expr (expr : Expr)
  | binding (binding : Named Expr)
  | arm (arm : Arm Expr)
  | pattern (pattern : Pattern)
  | field (field : Named Expr)

def Pattern.nodeCount : Pattern → Nat
  | .wrapper _ _ (some inner) => 1 + inner.nodeCount
  | .wrapper _ _ .none => 1
  | .none _ => 1
  | .identifier _ _ => 1
  | .literal _ _ _ => 2

namespace Expr

mutual

def nodeCount : Expr → Nat
  | .literal _ _ => 1
  | .identifier _ _ => 1
  | .call _ _ args => 1 + nodeCounts args
  | .letIn _ bindings body => 1 + namedNodeCounts bindings + nodeCounts body
  | .block _ body => 1 + nodeCounts body
  | .conditional _ condition yes none => 1 + condition.nodeCount + yes.nodeCount
  | .conditional _ condition yes (some no) =>
      1 + condition.nodeCount + yes.nodeCount + no.nodeCount
  | .matchOn _ subject arms => 1 + subject.nodeCount + armNodeCounts arms
  | .list _ elements => 1 + nodeCounts elements
  | .tuple _ fields => 1 + namedNodeCounts fields

def nodeCounts : List Expr → Nat
  | [] => 0
  | expr :: rest => expr.nodeCount + nodeCounts rest

def namedNodeCounts : List (Named Expr) → Nat
  | [] => 0
  | ⟨_, _, value⟩ :: rest => 1 + value.nodeCount + namedNodeCounts rest

def armNodeCounts : List (Arm Expr) → Nat
  | [] => 0
  | ⟨_, pattern, body⟩ :: rest =>
      1 + pattern.nodeCount + nodeCounts body + armNodeCounts rest

end

end Expr

namespace Form

def children : Form → List Expr
  | .function definition => definition.body
  | .constant _ _ value => [value]
  | .dataVar _ _ _ initial => [initial]
  | .fungible _ _ supply => supply.toList
  | _ => []

def nodeCount (form : Form) : Nat :=
  1 + Expr.nodeCounts form.children

end Form

namespace Node

def info : Node → NodeInfo
  | .contract whole => whole.info
  | .form top => top.info
  | .expr e => e.info
  | .binding b => b.info
  | .arm a => a.info
  | .pattern p => p.info
  | .field f => f.info

def kind : Node → NodeKind
  | .contract _ => .program
  | .form top => top.kind
  | .expr e => e.kind
  | .binding _ => .letBinding
  | .arm _ => .matchArm
  | .pattern p => p.kind
  | .field _ => .tupleField

def children : Node → List Node
  | .contract whole => whole.body.map .form
  | .form top => top.children.map .expr
  | .expr (.call _ _ args) => args.map .expr
  | .expr (.letIn _ bindings body) => bindings.map .binding ++ body.map .expr
  | .expr (.block _ body) => body.map .expr
  | .expr (.conditional _ condition yes no) =>
      .expr condition :: .expr yes :: no.toList.map .expr
  | .expr (.matchOn _ subject arms) => .expr subject :: arms.map .arm
  | .expr (.list _ elements) => elements.map .expr
  | .expr (.tuple _ fields) => fields.map .field
  | .expr (.literal _ _) => []
  | .expr (.identifier _ _) => []
  | .binding b => [.expr b.value]
  | .arm a => .pattern a.pattern :: a.body.map .expr
  | .pattern (.wrapper _ _ inner) => inner.toList.map .pattern
  | .pattern (.literal _ info value) => [.expr (.literal info value)]
  | .pattern _ => []
  | .field f => [.expr f.value]

def nodeCount : Node → Nat
  | .contract whole => whole.body.foldr (fun top count => top.nodeCount + count) 1
  | .form top => top.nodeCount
  | .expr e => e.nodeCount
  | .binding b => 1 + b.value.nodeCount
  | .arm a => Expr.armNodeCounts [a]
  | .pattern p => p.nodeCount
  | .field f => 1 + f.value.nodeCount

/-- Lists the subtrees of the nodes of a stack in pre-order, for a number of nodes: a node is
listed and its children take its place on the stack. -/
def visit : Nat → List Node → List Node
  | 0, _ => []
  | _ + 1, [] => []
  | steps + 1, node :: rest => node :: visit steps (node.children ++ rest)

/-- A node and everything below it, in pre-order. -/
def walk (node : Node) : List Node :=
  visit node.nodeCount [node]

def call? : Node → Option (NodeInfo × String × List Expr)
  | .expr (.call info callee args) => some (info, callee, args)
  | _ => none

end Node

/-- The nodes of some expressions: every node of an earlier one precedes every node of a later
one. -/
def walkBody (body : List Expr) : List Node :=
  body.flatMap fun expr => (Node.expr expr).walk

end ContractAudit
