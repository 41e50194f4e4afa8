import ContractAudit.Semantic.Contracts
import Mathlib.Tactic.SplitIfs

/-!
# Lexical scoping

Which names are bound around an identifier, and what it refers to if none of them is its own name.
`Expr.Occurs` says it by the rules of the language, one for each place where an expression can
stand. An argument that a builtin function takes as a name, such as the name of a map, is no
expression.
-/

namespace ContractAudit

open Builtin

/-! ## What a contract defines -/

/-- The name that a form defines, and as what; no identifier refers to a trait. -/
def Form.defines? : Form → Option (Referent × String)
  | .function definition => some (.function, definition.name)
  | .constant _ name _ => some (.constant, name)
  | .dataVar _ name _ _ => some (.variable, name)
  | .map _ name _ _ => some (.map, name)
  | .nonFungible _ name _ => some (.token, name)
  | .fungible _ name _ => some (.token, name)
  | _ => none

def Contract.defines (contract : Contract) (kind : Referent) (name : String) : Bool :=
  contract.body.any fun form => form.defines? = some (kind, name)

/-- What a name refers to that is bound nowhere around: the first of a constant, a data variable, a
function, a builtin name and another contract that applies. -/
def globalReferent? (defines : Referent → String → Bool) (name : String) : Option Resolution :=
  if defines .constant name then some ⟨.constant, name⟩
  else if defines .variable name then some ⟨.variable, name⟩
  else if defines .function name then some ⟨.function, name⟩
  else if isGlobal name || isFunction name then some ⟨.builtin, name⟩
  else if isDotted name then some ⟨.contract, Analyzer.contractOf name⟩
  else none

theorem globalReferent?_ne_local {defines : Referent → String → Bool} {name : String} :
    (globalReferent? defines name).map Resolution.kind ≠ some .local := by
  unfold globalReferent?
  split_ifs <;> simp

/-! ## Occurrences -/

/-- What an identifier is where it stands. -/
inductive Role where
  /-- An expression, with the names that are bound around it. -/
  | expression (bound : List String)
  /-- The name of storage of a kind. -/
  | storage (kind : Referent)
  /-- A word that a builtin function knows. -/
  | word (kind : Referent)
deriving DecidableEq, Repr

/-- The argument that a builtin function takes as a name: its position, and what it is. -/
def nameArgument? (callee : String) : Option (Nat × Role) :=
  if callee ∈ mapOperations then some (0, .storage .map)
  else if callee ∈ variableOperations then some (0, .storage .variable)
  else if callee ∈ tokenOperations then some (0, .storage .token)
  else if callee = "get" then some (0, .word .tupleKey)
  else if callee ∈ blockInfo then some (0, .word .blockProperty)
  else if callee = "contract-call?" then some (1, .word .contractFunction)
  else none

namespace Expr

def isNameArgument (callee : String) (index : Nat) : Expr → Bool
  | .identifier _ _ => (nameArgument? callee).any (·.1 = index)
  | _ => false

/-- `Occurs info name bound expr` says that the identifier `name` stands in `expr` as an expression,
at the node `info`, and that `bound` are the names bound around it inside of `expr`. A binding of a
`let` is seen by the later bindings and by the body, a match pattern by the body of its arm. -/
inductive Occurs (info : NodeInfo) (name : String) : List String → Expr → Prop where
  | here : Occurs info name [] (.identifier info name)
  | argument (bound node callee args index arg) :
      args[index]? = some arg → arg.isNameArgument callee index = false →
      Occurs info name bound arg → Occurs info name bound (.call node callee args)
  | bindingValue (bound node earlier binding later body) :
      Occurs info name bound binding.value →
      Occurs info name (bound ++ earlier.map Named.name)
        (.letIn node (earlier ++ binding :: later) body)
  | letBody (bound node bindings body expr) :
      expr ∈ body → Occurs info name bound expr →
      Occurs info name (bound ++ bindings.map Named.name) (.letIn node bindings body)
  | block (bound node body expr) :
      expr ∈ body → Occurs info name bound expr → Occurs info name bound (.block node body)
  | condition (bound node condition yes no) :
      Occurs info name bound condition →
      Occurs info name bound (.conditional node condition yes no)
  | thenBranch (bound node condition yes no) :
      Occurs info name bound yes → Occurs info name bound (.conditional node condition yes no)
  | elseBranch (bound node condition yes no) :
      Occurs info name bound no →
      Occurs info name bound (.conditional node condition yes (some no))
  | subject (bound node subject arms) :
      Occurs info name bound subject → Occurs info name bound (.matchOn node subject arms)
  | armBody (bound node subject arms arm expr) :
      arm ∈ arms → expr ∈ arm.body → Occurs info name bound expr →
      Occurs info name (bound ++ arm.pattern.boundNames) (.matchOn node subject arms)
  | element (bound node elements expr) :
      expr ∈ elements → Occurs info name bound expr → Occurs info name bound (.list node elements)
  | fieldValue (bound node fields entry) :
      entry ∈ fields → Occurs info name bound entry.value →
      Occurs info name bound (.tuple node fields)

end Expr

/-- An identifier stands in a form as an expression, with the names bound around it. The parameters
of a function are seen by its whole body. -/
inductive Form.Occurs (info : NodeInfo) (name : String) : List String → Form → Prop where
  | functionBody (bound definition expr) :
      expr ∈ definition.body → expr.Occurs info name bound →
      Form.Occurs info name (bound ++ definition.params.map Parameter.name) (.function definition)
  | constantValue (bound node constant value) :
      value.Occurs info name bound → Form.Occurs info name bound (.constant node constant value)
  | initialValue (bound node dataVar type initial) :
      initial.Occurs info name bound →
      Form.Occurs info name bound (.dataVar node dataVar type initial)
  | supply (bound node token supply) :
      supply.Occurs info name bound →
      Form.Occurs info name bound (.fungible node token (some supply))

def Contract.Occurs (contract : Contract) (info : NodeInfo) (name : String)
    (bound : List String) : Prop :=
  ∃ form ∈ contract.body, form.Occurs info name bound

end ContractAudit
