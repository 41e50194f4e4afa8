import Mathlib.Data.List.Chain
import ContractAudit.Parse.State
import ContractAudit.Proofs.Syntax.Postorder

/-!
# Nesting

An expression in brackets is compound, and the nesting of a node is the number of compound
expressions that a way down from it goes through. `Expr.cut` keeps a number of levels of a tree:
each outermost compound expression below them is replaced by a placeholder where it starts.
`Expr.overdeep` lists these places in source order.
-/

namespace ContractAudit

open Parse (placeholder)

def Expr.isCompound : Expr → Bool
  | .literal _ _ | .identifier _ _ => false
  | _ => true

namespace Node

def isCompound : Node → Bool
  | .expr e => e.isCompound
  | _ => false

/-- A way down a tree: each node stands right below the one before. -/
def IsWay (path : List Node) : Prop :=
  path.IsChain fun node part => part ∈ node.parts

/-- No way down from a node goes through more than a number of compound expressions. -/
def Shallow (levels : Nat) (node : Node) : Prop :=
  ∀ path, IsWay (node :: path) → (node :: path).countP isCompound ≤ levels

variable {levels : Nat} {node : Node}

/-- A node is as deep as its parts, and one level deeper if it is compound. -/
theorem shallow_of_parts (h : ∀ part ∈ node.parts, part.Shallow levels) :
    node.Shallow (levels + node.isCompound.toNat) := by
  have hself : (if node.isCompound = true then 1 else 0) = node.isCompound.toNat := by
    cases node.isCompound <;> rfl
  intro path hway
  rw [List.countP_cons, hself]
  cases hway with
  | singleton => simp
  | cons_cons hpart hrest => exact Nat.add_le_add_right (h _ hpart _ hrest) _

theorem Shallow.mono {deeper : Nat} (h : node.Shallow levels) (hle : levels ≤ deeper) :
    node.Shallow deeper :=
  fun path hway => Nat.le_trans (h path hway) hle

theorem shallow_of_leaf (hplain : node.isCompound = false) (hparts : node.parts = []) :
    node.Shallow levels := by
  have hnone : ∀ part ∈ node.parts, part.Shallow levels := by simp [hparts]
  have hshallow := shallow_of_parts hnone
  rwa [hplain] at hshallow

end Node

/-! ## Cutting -/

namespace Expr

def stub (info : NodeInfo) : Expr :=
  .identifier ⟨.point info.span.start, info.id⟩ placeholder

mutual

def cut : Nat → Expr → Expr
  | 0, expr => if expr.isCompound then stub expr.info else expr
  | _ + 1, .literal info value => .literal info value
  | _ + 1, .identifier info name => .identifier info name
  | levels + 1, .call info callee args => .call info callee (cutList levels args)
  | levels + 1, .letIn info bindings body =>
      .letIn info (cutNamed levels bindings) (cutList levels body)
  | levels + 1, .block info body => .block info (cutList levels body)
  | levels + 1, .conditional info condition yes none =>
      .conditional info (condition.cut levels) (yes.cut levels) none
  | levels + 1, .conditional info condition yes (some no) =>
      .conditional info (condition.cut levels) (yes.cut levels) (some (no.cut levels))
  | levels + 1, .matchOn info subject arms =>
      .matchOn info (subject.cut levels) (cutArms levels arms)
  | levels + 1, .list info elements => .list info (cutList levels elements)
  | levels + 1, .tuple info fields => .tuple info (cutNamed levels fields)

def cutList : Nat → List Expr → List Expr
  | _, [] => []
  | levels, expr :: rest => expr.cut levels :: cutList levels rest

def cutNamed : Nat → List (Named Expr) → List (Named Expr)
  | _, [] => []
  | levels, ⟨info, name, value⟩ :: rest => ⟨info, name, value.cut levels⟩ :: cutNamed levels rest

def cutArms : Nat → List (Arm Expr) → List (Arm Expr)
  | _, [] => []
  | levels, ⟨info, pattern, body⟩ :: rest =>
      ⟨info, pattern, cutList levels body⟩ :: cutArms levels rest

end

mutual

/-- Where the parts start that `cut` cuts off an expression. -/
def overdeep : Nat → Expr → List Location
  | 0, expr => if expr.isCompound then [expr.location] else []
  | _ + 1, .literal _ _ => []
  | _ + 1, .identifier _ _ => []
  | levels + 1, .call _ _ args => overdeepList levels args
  | levels + 1, .letIn _ bindings body => overdeepNamed levels bindings ++ overdeepList levels body
  | levels + 1, .block _ body => overdeepList levels body
  | levels + 1, .conditional _ condition yes none =>
      condition.overdeep levels ++ yes.overdeep levels
  | levels + 1, .conditional _ condition yes (some no) =>
      condition.overdeep levels ++ yes.overdeep levels ++ no.overdeep levels
  | levels + 1, .matchOn _ subject arms => subject.overdeep levels ++ overdeepArms levels arms
  | levels + 1, .list _ elements => overdeepList levels elements
  | levels + 1, .tuple _ fields => overdeepNamed levels fields

def overdeepList : Nat → List Expr → List Location
  | _, [] => []
  | levels, expr :: rest => expr.overdeep levels ++ overdeepList levels rest

def overdeepNamed : Nat → List (Named Expr) → List Location
  | _, [] => []
  | levels, ⟨_, _, value⟩ :: rest => value.overdeep levels ++ overdeepNamed levels rest

def overdeepArms : Nat → List (Arm Expr) → List Location
  | _, [] => []
  | levels, ⟨_, _, body⟩ :: rest => overdeepList levels body ++ overdeepArms levels rest

end

end Expr

def Form.cut (levels : Nat) : Form → Form
  | .function definition =>
      .function { definition with body := Expr.cutList levels definition.body }
  | .constant info name value => .constant info name (value.cut levels)
  | .dataVar info name type initial => .dataVar info name type (initial.cut levels)
  | .fungible info name supply => .fungible info name (supply.map (Expr.cut levels))
  | .useTrait info name reference => .useTrait info name (reference.cut levels)
  | .implTrait info reference => .implTrait info (reference.cut levels)
  | form => form

def Form.overdeep (levels : Nat) (form : Form) : List Location :=
  Expr.overdeepList levels form.parts

def Contract.cut (levels : Nat) (contract : Contract) : Contract :=
  { contract with body := contract.body.map (Form.cut levels) }

def Contract.overdeep (levels : Nat) (contract : Contract) : List Location :=
  contract.body.flatMap (Form.overdeep levels)

end ContractAudit
